import LoadMap.Text.Utf8
import Mathlib.Algebra.Group.Nat.Defs
import Mathlib.Tactic.SplitIfs

/-! Texts written in UTF-8 are read back. -/
namespace LoadMap.Text.Utf8

def encode (text : String) : List UInt8 :=
  text.toList.flatMap String.utf8EncodeChar

theorem length_encode (text : String) : (encode text).length = text.utf8ByteSize := by
  have bytes := congrArg ByteArray.size (String.toByteArray_ofList (l := text.toList))
  rw [String.ofList_toList,List.utf8Encode,List.size_toByteArray] at bytes
  exact bytes.symm

variable {first byte low high : UInt8} {count : Nat} {rest : List UInt8}

/-- How the first byte of a character tells the number of those that follow. -/
theorem lead_eq (first : UInt8) : lead first =
    if first.toNat < 0xC2 then none
    else if first.toNat < 0xE0 then some (1,0x80,0xBF)
    else if first.toNat = 0xE0 then some (2,0xA0,0xBF)
    else if first.toNat = 0xED then some (2,0x80,0x9F)
    else if first.toNat < 0xF0 then some (2,0x80,0xBF)
    else if first.toNat = 0xF0 then some (3,0x90,0xBF)
    else if first.toNat < 0xF4 then some (3,0x80,0xBF)
    else if first.toNat = 0xF4 then some (3,0x80,0x8F)
    else none := by
  simp only [lead,UInt8.lt_iff_toNat_lt,← UInt8.toNat_inj]
  rfl

theorem continuation_cons (above : low.toNat ≤ byte.toNat) (below : byte.toNat ≤ high.toNat) :
    continuation (count + 1) low high (byte :: rest) = byte :: continuation count 0x80 0xBF rest := by
  rw [continuation,if_pos ⟨UInt8.le_iff_toNat_le.mpr above,UInt8.le_iff_toNat_le.mpr below⟩]

theorem scan_cons (tail : List UInt8) (known : lead first = some (count,low,high))
    (taken : continuation count low high (tail ++ rest) = tail) (whole : tail.length = count) :
    scan (first :: (tail ++ rest)) = some (assemble first tail) :: scan rest := by
  have big : ¬ first < 0x80 := by
    intro small
    rw [lead_eq,if_pos] at known
    · cases known
    · rw [UInt8.lt_iff_toNat_lt] at small
      exact Nat.lt_trans small (by decide)
  rw [scan,if_neg big,known]
  simp only [taken,whole,if_true]
  rw [← whole,List.drop_left]

theorem toNat_ofNat {value : Nat} (small : value < 256) : (UInt8.ofNat value).toNat = value := by
  rw [UInt8.toNat_ofNat',Nat.mod_eq_of_lt small]

/-- A byte that continues a character, with the low six bits of a number. -/
theorem toNat_next (value : Nat) : (UInt8.ofNat (value % 64 + 128)).toNat = value % 64 + 128 :=
  toNat_ofNat (by omega)

theorem continuation_next (value : Nat) :
    continuation (count + 1) 0x80 0xBF (UInt8.ofNat (value % 64 + 128) :: rest) =
      UInt8.ofNat (value % 64 + 128) :: continuation count 0x80 0xBF rest := by
  refine continuation_cons ?_ ?_
  · rw [toNat_next]
    exact Nat.le_add_left _ _
  · rw [toNat_next]
    exact Nat.add_le_add_right (Nat.le_of_lt_succ (Nat.mod_lt value (by decide))) 128

section Lengths

variable {value : Nat} (rest : List UInt8)

theorem scan_one (small : value < 0x80) :
    scan (UInt8.ofNat value :: rest) = some (Char.ofNat value) :: scan rest := by
  have first := toNat_ofNat (show value < 256 by omega)
  have ascii : UInt8.ofNat value < 0x80 := by
    rw [UInt8.lt_iff_toNat_lt,first]
    exact small
  rw [scan,if_pos ascii,first]

theorem scan_two (large : 0x80 ≤ value) (small : value < 0x800) :
    scan (UInt8.ofNat (value / 64 % 32 + 192) :: UInt8.ofNat (value % 64 + 128) :: rest) =
      some (Char.ofNat value) :: scan rest := by
  have first := toNat_ofNat (show value / 64 % 32 + 192 < 256 by omega)
  have known : lead (UInt8.ofNat (value / 64 % 32 + 192)) = some (1,0x80,0xBF) := by
    rw [lead_eq,first,if_neg (by omega),if_pos (by omega)]
  refine (scan_cons [_] known ?_ rfl).trans ?_
  · rw [List.singleton_append,continuation_next,continuation]
  · simp only [assemble,leadBits,List.foldl_cons,List.foldl_nil,List.length_singleton,first,toNat_next]
    congr 3
    show _ % 32 * 64 + _ = value
    omega

theorem scan_three (large : 0x800 ≤ value) (small : value < 0x10000)
    (scalar : value < 0xD800 ∨ 0xDFFF < value) :
    scan (UInt8.ofNat (value / 4096 % 16 + 224) :: UInt8.ofNat (value / 64 % 64 + 128) ::
      UInt8.ofNat (value % 64 + 128) :: rest) = some (Char.ofNat value) :: scan rest := by
  have first := toNat_ofNat (show value / 4096 % 16 + 224 < 256 by omega)
  have known : ∃ low high : UInt8, lead (UInt8.ofNat (value / 4096 % 16 + 224)) = some (2,low,high) ∧
      low.toNat ≤ value / 64 % 64 + 128 ∧ value / 64 % 64 + 128 ≤ high.toNat := by
    rw [lead_eq,first,if_neg (by omega),if_neg (by omega)]
    by_cases lowest : value / 4096 % 16 + 224 = 0xE0
    · exact ⟨0xA0,0xBF,if_pos lowest,by simp; omega,by simp; omega⟩
    rw [if_neg lowest]
    by_cases surrogate : value / 4096 % 16 + 224 = 0xED
    · exact ⟨0x80,0x9F,if_pos surrogate,by simp,by simp; omega⟩
    rw [if_neg surrogate,if_pos (by omega)]
    exact ⟨0x80,0xBF,rfl,by simp,by simp; omega⟩
  obtain ⟨low,high,known,above,below⟩ := known
  refine (scan_cons [_,_] known ?_ rfl).trans ?_
  · rw [List.cons_append,continuation_cons (by rwa [toNat_next]) (by rwa [toNat_next]),List.singleton_append,
      continuation_next,continuation]
  · simp only [assemble,leadBits,List.foldl_cons,List.foldl_nil,List.length_cons,List.length_nil,first,toNat_next]
    congr 3
    show (_ % 16 * 64 + _) * 64 + _ = value
    omega

theorem scan_four (large : 0x10000 ≤ value) (small : value < 0x110000) :
    scan (UInt8.ofNat (value / 262144 % 8 + 240) :: UInt8.ofNat (value / 4096 % 64 + 128) ::
      UInt8.ofNat (value / 64 % 64 + 128) :: UInt8.ofNat (value % 64 + 128) :: rest) =
      some (Char.ofNat value) :: scan rest := by
  have first := toNat_ofNat (show value / 262144 % 8 + 240 < 256 by omega)
  have known : ∃ low high : UInt8, lead (UInt8.ofNat (value / 262144 % 8 + 240)) = some (3,low,high) ∧
      low.toNat ≤ value / 4096 % 64 + 128 ∧ value / 4096 % 64 + 128 ≤ high.toNat := by
    rw [lead_eq,first,if_neg (by omega),if_neg (by omega),if_neg (by omega),if_neg (by omega),if_neg (by omega)]
    by_cases lowest : value / 262144 % 8 + 240 = 0xF0
    · exact ⟨0x90,0xBF,if_pos lowest,by simp; omega,by simp; omega⟩
    rw [if_neg lowest]
    by_cases middle : value / 262144 % 8 + 240 < 0xF4
    · exact ⟨0x80,0xBF,if_pos middle,by simp,by simp; omega⟩
    rw [if_neg middle,if_pos (by omega)]
    exact ⟨0x80,0x8F,rfl,by simp,by simp; omega⟩
  obtain ⟨low,high,known,above,below⟩ := known
  refine (scan_cons [_,_,_] known ?_ rfl).trans ?_
  · rw [List.cons_append,continuation_cons (by rwa [toNat_next]) (by rwa [toNat_next]),List.cons_append,
      continuation_next,List.singleton_append,continuation_next,continuation]
  · simp only [assemble,leadBits,List.foldl_cons,List.foldl_nil,List.length_cons,List.length_nil,first,toNat_next]
    congr 3
    show ((_ % 8 * 64 + _) * 64 + _) * 64 + _ = value
    omega

end Lengths

theorem scan_utf8EncodeChar (char : Char) (rest : List UInt8) :
    scan (String.utf8EncodeChar char ++ rest) = some char :: scan rest := by
  have code : char.toNat < 0xD800 ∨ 0xDFFF < char.toNat ∧ char.toNat < 0x110000 := char.valid
  rw [String.utf8EncodeChar]
  simp only [Char.toNat_val]
  by_cases one : char.toNat ≤ 127
  · rw [if_pos one,List.singleton_append,scan_one rest (by omega),Char.ofNat_toNat]
  rw [if_neg one]
  by_cases two : char.toNat ≤ 2047
  · rw [if_pos two]
    exact (scan_two rest (by omega) (by omega)).trans (by rw [Char.ofNat_toNat])
  rw [if_neg two]
  by_cases three : char.toNat ≤ 65535
  · rw [if_pos three]
    exact (scan_three rest (by omega) (by omega) (by omega)).trans (by rw [Char.ofNat_toNat])
  rw [if_neg three]
  exact (scan_four rest (by omega) (by omega)).trans (by rw [Char.ofNat_toNat])

theorem scan_encode (text : String) : scan (encode text) = text.toList.map some := by
  rw [encode]
  induction text.toList with
  | nil => rw [List.flatMap_nil,scan,List.map_nil]
  | cons char rest ih => rw [List.flatMap_cons,scan_utf8EncodeChar,ih,List.map_cons]

theorem decodeLossy_encode (text : String) : decodeLossy (encode text) = text := by
  rw [decodeLossy,scan_encode,List.map_map]
  exact (congrArg String.ofList (List.map_id text.toList)).trans String.ofList_toList

theorem decode?_encode (text : String) : decode? (encode text) = some text := by
  have whole (chars : List Char) : (chars.map some).mapM id = some chars := by
    induction chars with
    | nil => rfl
    | cons char rest ih => rw [List.map_cons,List.mapM_cons,ih]; rfl
  rw [decode?,scan_encode,whole,Option.map_some,String.ofList_toList]

section Ascii

variable {first byte low high : UInt8} {count : Nat} {rest tail bytes : List UInt8}

theorem le_foldl_bits (tail : List UInt8) (start : Nat) :
    start * 64 ^ tail.length ≤ tail.foldl (fun value byte => value * 64 + byte.toNat % 64) start := by
  induction tail generalizing start with
  | nil => simp
  | cons byte tail ih =>
    rw [List.foldl_cons,List.length_cons,Nat.pow_succ',← Nat.mul_assoc]
    exact Nat.le_trans (Nat.mul_le_mul_right _ (Nat.le_add_right _ _)) (ih _)

theorem continuation_bounds (taken : continuation (count + 1) low high rest = byte :: tail) :
    low.toNat ≤ byte.toNat ∧ byte.toNat ≤ high.toNat := by
  cases rest with
  | nil => cases taken
  | cons next rest =>
    rw [continuation] at taken
    split at taken
    · rename_i within
      obtain ⟨rfl,-⟩ := List.cons.inj taken
      exact ⟨UInt8.le_iff_toNat_le.mp within.1,UInt8.le_iff_toNat_le.mp within.2⟩
    · cases taken

/-- A character of several bytes is not one of those that take one. -/
theorem le_assembled (known : lead first = some (count,low,high))
    (taken : continuation count low high rest = tail) (whole : tail.length = count) :
    128 ≤ tail.foldl (fun value byte => value * 64 + byte.toNat % 64) (leadBits first tail.length) := by
  rw [lead_eq] at known
  obtain ⟨byte,more,rfl⟩ : ∃ byte more, tail = byte :: more := by
    cases tail with
    | nil =>
      rw [List.length_nil] at whole
      subst whole
      split_ifs at known <;> cases known
    | cons byte more => exact ⟨byte,more,rfl⟩
  refine Nat.le_trans ?_ (le_foldl_bits more _)
  have short : more.length + 1 = count := whole
  rw [leadBits,List.length_cons,short]
  have limits : Word.limit 5 = 32 ∧ Word.limit 4 = 16 ∧ Word.limit 3 = 8 := ⟨rfl,rfl,rfl⟩
  -- With two bytes the first one carries enough, with more the first two do.
  split_ifs at known
  all_goals
    simp only [Option.some.injEq,Prod.mk.injEq] at known
    obtain ⟨rfl,rfl,rfl⟩ := known
    have bounds := continuation_bounds taken
    simp only [UInt8.reduceToNat] at bounds
    simp only [Nat.reduceEqDiff] at short
    simp only [short,Nat.reducePow,Nat.reduceSub,limits]
    omega

theorem utf8EncodeChar_ascii {char : Char} (ascii : char.toNat < 128) :
    String.utf8EncodeChar char = [UInt8.ofNat char.toNat] := by
  rw [String.utf8EncodeChar]
  simp only [Char.toNat_val]
  rw [if_pos (Nat.le_of_lt_succ ascii)]

theorem toNat_charOfNat (value : Nat) : (Char.ofNat value).toNat = value ∨ (Char.ofNat value).toNat = 0 := by
  by_cases valid : value.isValidChar
  · left
    rw [Char.ofNat,dif_pos valid]
    rfl
  · right
    rw [Char.ofNat,dif_neg valid]
    rfl

/-- What is read as a text of characters that take one byte is nothing else. -/
theorem eq_encode_of_decodeLossy {text : String} (ascii : ∀ char ∈ text.toList, 0 < char.toNat ∧ char.toNat < 128)
    (decoded : decodeLossy bytes = text) : bytes = encode text := by
  have chars : (scan bytes).map (·.getD replacement) = text.toList := by
    rw [← decoded,decodeLossy,String.toList_ofList]
  rw [encode]
  generalize text.toList = list at ascii chars
  clear decoded text
  subst chars
  have wide : ¬ replacement.toNat < 128 := by decide
  fun_induction scan bytes with
  | case1 => rfl
  | case2 first rest small ih =>
    rw [List.map_cons,List.forall_mem_cons] at ascii
    obtain ⟨here,others⟩ := ascii
    have code : (Char.ofNat first.toNat).toNat = first.toNat :=
      (toNat_charOfNat first.toNat).resolve_right (Nat.ne_of_gt here.1)
    rw [List.map_cons,List.flatMap_cons,← ih others,utf8EncodeChar_ascii here.2,Option.getD_some,code,
      UInt8.ofNat_toNat,List.singleton_append]
  | case3 first rest _ none ih => exact absurd (ascii _ List.mem_cons_self).2 wide
  | case4 first rest big count low high known tail ih =>
    have here := ascii _ List.mem_cons_self
    split at here
    · rename_i whole
      have large := le_assembled known rfl whole
      rcases toNat_charOfNat (tail.foldl (fun value byte => value * 64 + byte.toNat % 64)
        (leadBits first tail.length)) with same | zero
      · exact absurd (same ▸ here.2) (Nat.not_lt.mpr large)
      · exact absurd here.1 (zero ▸ Nat.lt_irrefl 0)
    · exact absurd here.2 wide

theorem decodeLossy_eq_iff {text : String} (ascii : ∀ char ∈ text.toList, 0 < char.toNat ∧ char.toNat < 128) :
    decodeLossy bytes = text ↔ bytes = encode text := by
  refine ⟨eq_encode_of_decodeLossy ascii,?_⟩
  rintro rfl
  exact decodeLossy_encode text

end Ascii
theorem zero_ne_ofNat {value : Nat} (large : 128 ≤ value) (small : value < 256) : 0 ≠ UInt8.ofNat value := by
  intro same
  have code := congrArg UInt8.toNat same
  rw [toNat_ofNat small] at code
  have zero : (0 : UInt8).toNat = 0 := rfl
  omega

theorem eq_of_zero_mem {char : Char} (zero : 0 ∈ String.utf8EncodeChar char) : char = '\x00' := by
  rw [String.utf8EncodeChar] at zero
  simp only [Char.toNat_val] at zero
  by_cases one : char.toNat ≤ 127
  · rw [if_pos one,List.mem_singleton] at zero
    have code := congrArg UInt8.toNat zero
    rw [toNat_ofNat (by omega)] at code
    exact Char.toNat_inj.mp code.symm
  · -- Every byte of a longer character has its top bit set.
    rw [if_neg one] at zero
    split_ifs at zero <;> simp only [List.mem_cons,List.not_mem_nil,or_false] at zero
    · rcases zero with same | same
      all_goals exact absurd same (zero_ne_ofNat (by omega) (by omega))
    · rcases zero with same | same | same
      all_goals exact absurd same (zero_ne_ofNat (by omega) (by omega))
    · rcases zero with same | same | same | same
      all_goals exact absurd same (zero_ne_ofNat (by omega) (by omega))

theorem not_mem_encode {text : String} (free : '\x00' ∉ text.toList) : 0 ∉ encode text := by
  intro zero
  obtain ⟨char,listed,inside⟩ := List.mem_flatMap.mp zero
  rw [eq_of_zero_mem inside] at listed
  exact free listed

theorem length_scan_le (bytes : List UInt8) : (scan bytes).length ≤ bytes.length := by
  fun_induction scan bytes with
  | case1 => exact Nat.le_refl 0
  | case2 first rest _ ih => exact Nat.succ_le_succ ih
  | case3 first rest _ _ ih => exact Nat.succ_le_succ ih
  | case4 first rest _ count low high _ tail ih =>
    rw [List.length_drop] at ih
    rw [List.length_cons,List.length_cons]
    omega

/-- However damaged the bytes are, the text read from them is at most four times as long. -/
theorem utf8ByteSize_decodeLossy_le (bytes : List UInt8) :
    (decodeLossy bytes).utf8ByteSize ≤ 4 * bytes.length := by
  have chars (list : List Char) : (list.flatMap String.utf8EncodeChar).length ≤ 4 * list.length := by
    induction list with
    | nil => exact Nat.le_refl 0
    | cons char rest ih =>
      have short := Char.utf8Size_le_four char
      rw [List.flatMap_cons,List.length_append,String.length_utf8EncodeChar,List.length_cons]
      omega
  calc (decodeLossy bytes).utf8ByteSize
      = (((scan bytes).map (·.getD replacement)).flatMap String.utf8EncodeChar).length := by
        rw [← length_encode,encode,decodeLossy,String.toList_ofList]
    _ ≤ 4 * ((scan bytes).map (·.getD replacement)).length := chars _
    _ ≤ 4 * bytes.length := by
        rw [List.length_map]
        exact Nat.mul_le_mul_left 4 (length_scan_le bytes)

end LoadMap.Text.Utf8
