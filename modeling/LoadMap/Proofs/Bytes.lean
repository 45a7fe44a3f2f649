import LoadMap.Bytes
import Mathlib.Algebra.Order.Ring.Nat

/-! What stands where in the bytes of a file, and what is read there. -/
namespace LoadMap

namespace Word

theorem limit_32 : limit 32 = 4294967296 := rfl

theorem limit_64 : limit 64 = 18446744073709551616 := rfl

end Word

namespace Bytes

theorem length_toList (bytes : ByteArray) : bytes.data.toList.length = bytes.size := by
  rw [Array.length_toList,ByteArray.size_data]

theorem getElem?_eq (bytes : ByteArray) (offset : Nat) : bytes[offset]? = bytes.data.toList[offset]? := by
  rw [Array.getElem?_toList]
  rfl

theorem toList_eq (bytes : ByteArray) : bytes.toList = bytes.data.toList := by
  have loop (place : Nat) (done : List UInt8) : ByteArray.toList.loop bytes place done =
      done.reverse ++ bytes.data.toList.drop place := by
    fun_induction ByteArray.toList.loop bytes place done with
    | case1 place done inside ih =>
      have there : place < bytes.data.toList.length := by rwa [length_toList]
      have byte : bytes.get! place = bytes.data.toList[place] := getElem!_pos bytes.data place inside
      rw [ih,List.reverse_cons,List.append_assoc,List.singleton_append,byte,List.getElem_cons_drop]
    | case2 place done outside =>
      have beyond : bytes.data.toList.length ≤ place := by
        rw [length_toList]
        omega
      rw [List.drop_eq_nil_of_le beyond,List.append_nil]
  exact loop 0 []

/-- The bytes of a number, the lowest first. -/
def digits : (count value : Nat) → List UInt8
  | 0, _ => []
  | count + 1, value => UInt8.ofNat (value % 256) :: digits count (value / 256)

@[simp] theorem length_digits (count value : Nat) : (digits count value).length = count := by
  induction count generalizing value with
  | zero => rfl
  | succ count ih => rw [digits,List.length_cons,ih]

theorem digits_add (first second value : Nat) :
    digits (first + second) value = digits first value ++ digits second (value / 256 ^ first) := by
  induction first generalizing value with
  | zero => simp [digits]
  | succ first ih =>
    rw [Nat.succ_add,digits,digits,ih,List.cons_append,Nat.div_div_eq_div_mul,Nat.pow_succ',Nat.mul_comm 256]

theorem digits_mod (count value : Nat) : digits count (value % 256 ^ count) = digits count value := by
  induction count generalizing value with
  | zero => rfl
  | succ count ih =>
    have low : value % 256 ^ (count + 1) % 256 = value % 256 :=
      Nat.mod_mod_of_dvd value (Dvd.intro_left _ (Nat.pow_succ ..).symm)
    have high : value % 256 ^ (count + 1) / 256 = value / 256 % 256 ^ count := by
      rw [Nat.pow_succ',Nat.mod_mul_right_div_self]
    rw [digits,digits,low,high,ih]

theorem length_flatMap_of_equal {α : Type} {entries : List α} {bytesOf : α → List UInt8} {width : Nat}
    (equal : ∀ entry ∈ entries, (bytesOf entry).length = width) :
    (entries.flatMap bytesOf).length = width * entries.length := by
  induction entries with
  | nil => rfl
  | cons entry rest ih =>
    obtain ⟨first,others⟩ := List.forall_mem_cons.mp equal
    rw [List.flatMap_cons,List.length_append,first,ih others,List.length_cons,Nat.mul_succ,Nat.add_comm]

/-- The given bytes stand in a file from an offset on. -/
def Holds (bytes : ByteArray) (offset : Nat) (part : List UInt8) : Prop :=
  offset ≤ bytes.size ∧ part <+: bytes.data.toList.drop offset

instance (bytes : ByteArray) (offset : Nat) (part : List UInt8) : Decidable (Holds bytes offset part) :=
  inferInstanceAs (Decidable (_ ∧ _))

section Holds

variable {bytes : ByteArray} {offset : Nat} {part left right : List UInt8}

theorem Holds.inside (holds : Holds bytes offset part) : offset + part.length ≤ bytes.size := by
  obtain ⟨begins,stands⟩ := holds
  have short := stands.length_le
  rw [List.length_drop,length_toList] at short
  omega

theorem holds_append : Holds bytes offset (left ++ right) ↔
    Holds bytes offset left ∧ Holds bytes (offset + left.length) right := by
  constructor
  · intro holds
    have inside := holds.inside
    obtain ⟨begins,rest,stands⟩ := holds
    rw [List.length_append] at inside
    refine ⟨⟨begins,right ++ rest,by rw [← stands,List.append_assoc]⟩,by omega,rest,?_⟩
    rw [← List.drop_drop,← stands,List.append_assoc,List.drop_left]
  · rintro ⟨⟨begins,before,first⟩,-,rest,second⟩
    refine ⟨begins,rest,?_⟩
    rw [← List.drop_drop,← first,List.drop_left] at second
    rw [← first,← second,List.append_assoc]

theorem holds_cons {byte : UInt8} : Holds bytes offset (byte :: part) ↔
    bytes[offset]? = some byte ∧ Holds bytes (offset + 1) part := by
  rw [← List.singleton_append,holds_append,List.length_singleton]
  refine and_congr_left fun _ => ?_
  rw [getElem?_eq,← Nat.add_zero offset,← List.getElem?_drop,Nat.add_zero,Holds]
  cases rest : bytes.data.toList.drop offset with
  | nil => simp
  | cons first more =>
    have begins : offset < bytes.data.toList.length := by
      by_contra beyond
      rw [List.drop_eq_nil_of_le (by omega)] at rest
      cases rest
    rw [length_toList] at begins
    simp [begins.le,eq_comm]

/-- In a row of equal parts each stands where its number says. -/
theorem Holds.entry {α : Type} {entries : List α} {bytesOf : α → List UInt8} {width index : Nat} {entry : α}
    (holds : Holds bytes offset (entries.flatMap bytesOf))
    (equal : ∀ entry ∈ entries, (bytesOf entry).length = width) (found : entries[index]? = some entry) :
    Holds bytes (offset + width * index) (bytesOf entry) := by
  induction entries generalizing offset index with
  | nil => cases found
  | cons first rest ih =>
    obtain ⟨head,tail⟩ := holds_append.mp (List.flatMap_cons ▸ holds)
    obtain ⟨wide,others⟩ := List.forall_mem_cons.mp equal
    rw [wide] at tail
    cases index with
    | zero =>
      obtain rfl := Option.some.inj found
      exact head
    | succ index =>
      have there := ih tail others found
      rwa [Nat.add_assoc,Nat.add_comm width,← Nat.mul_succ] at there

theorem Holds.littleEndian {count value : Nat} (holds : Holds bytes offset (digits count value))
    (small : value < 256 ^ count) : littleEndian bytes offset count = value := by
  induction count generalizing offset value with
  | zero => simp_all [Bytes.littleEndian]
  | succ count ih =>
    obtain ⟨first,rest⟩ := holds_cons.mp holds
    have less : value / 256 < 256 ^ count := by
      rw [Nat.div_lt_iff_lt_mul (by decide),← pow_succ]
      exact small
    rw [Bytes.littleEndian,first,ih rest less,Option.getD_some,UInt8.toNat_ofNat',
      Nat.mod_mod_of_dvd _ (dvd_refl 256),Nat.mod_add_div]

theorem Holds.number {what : String} {count value : Nat} (holds : Holds bytes offset (digits count value))
    (small : value < 256 ^ count) : number what count bytes offset = .ok value := by
  have inside := holds.inside
  rw [length_digits] at inside
  rw [Bytes.number,if_pos inside,holds.littleEndian small]

theorem Holds.block? (holds : Holds bytes offset part) :
    block? bytes offset (offset + part.length) = some part.toByteArray := by
  rw [Bytes.block?,if_pos ⟨Nat.le_add_right _ _,holds.inside⟩]
  obtain ⟨-,rest,stands⟩ := holds
  apply congrArg some
  apply ByteArray.ext
  rw [ByteArray.data_extract,List.data_toByteArray,← Array.toList_inj,Array.toList_extract,
    List.extract_eq_take_drop,← stands,Nat.add_sub_cancel_left,List.take_left]

theorem Holds.zero? (holds : Holds bytes offset (part ++ [0])) (nonzero : 0 ∉ part) :
    zero? bytes offset = some (offset + part.length) := by
  induction part generalizing offset with
  | nil =>
    obtain ⟨last,-⟩ := holds_cons.mp holds
    obtain ⟨inside,byte⟩ := getElem?_eq_some_iff.mp last
    rw [Bytes.zero?,dif_pos inside,if_pos byte]
    rfl
  | cons first part ih =>
    obtain ⟨here,rest⟩ := holds_cons.mp holds
    obtain ⟨inside,byte⟩ := getElem?_eq_some_iff.mp here
    rw [List.mem_cons,not_or] at nonzero
    rw [Bytes.zero?,dif_pos inside,if_neg (by rw [byte]; exact Ne.symm nonzero.1),ih rest nonzero.2,
      List.length_cons]
    congr 1
    omega

theorem Holds.cString (holds : Holds bytes offset (part ++ [0])) (nonzero : 0 ∉ part) :
    cString bytes offset = .ok (Text.Utf8.decodeLossy part) := by
  have text := (holds_append.mp holds).1
  have block := text.block?
  rw [Bytes.block?,if_pos ⟨Nat.le_add_right _ _,text.inside⟩,Option.some.injEq] at block
  rw [Bytes.cString,if_pos holds.1,holds.zero? nonzero]
  dsimp only
  rw [block,toList_eq,List.data_toByteArray]

end Holds

theorem bind_eq_ok_iff {ε α β : Type} {action : Except ε α} {more : α → Except ε β} {result : β} :
    action >>= more = .ok result ↔ ∃ value, action = .ok value ∧ more value = .ok result := by
  cases action <;> simp [bind,Except.bind]

section Checked

variable {what : String} {count offset value left right table size index : Nat} {bytes : ByteArray}

theorem number_eq_ok_iff : number what count bytes offset = .ok value ↔
    offset + count ≤ bytes.size ∧ littleEndian bytes offset count = value := by
  rw [number]
  split <;> simp_all

theorem sum_eq_ok_iff : sum left right = .ok value ↔ left + right < Word.limit 64 ∧ left + right = value := by
  rw [sum]
  split <;> simp_all

theorem sum_value (made : sum left right = .ok value) : value = left + right :=
  (sum_eq_ok_iff.mp made).2.symm

theorem entry_eq_ok_iff : entry table size index = .ok value ↔
    table + size * index < Word.limit 64 ∧ table + size * index = value := by
  rw [entry]
  split <;> simp_all

theorem littleEndian_lt (bytes : ByteArray) (offset count : Nat) :
    littleEndian bytes offset count < 256 ^ count := by
  induction count generalizing offset with
  | zero => exact Nat.one_pos
  | succ count ih =>
    have low := (bytes[offset]?.getD 0).toNat_lt
    have high := ih (offset + 1)
    rw [littleEndian,Nat.pow_succ]
    omega

end Checked

section Read

variable {bytes block : ByteArray} {offset stop count : Nat} {part : List UInt8} {what text : String}

theorem Holds.getElem? (holds : Holds bytes offset part) {index : Nat} (less : index < part.length) :
    bytes[offset + index]? = some part[index] := by
  obtain ⟨-,rest,stands⟩ := holds
  rw [getElem?_eq,← List.getElem?_drop,← stands,List.getElem?_append_left less,List.getElem?_eq_getElem less]

theorem holds_extract (order : offset ≤ stop) (inside : stop ≤ bytes.size) :
    Holds bytes offset (bytes.extract offset stop).data.toList := by
  refine ⟨order.trans inside,?_⟩
  rw [ByteArray.data_extract,Array.toList_extract,List.extract_eq_take_drop]
  exact List.take_prefix _ _

theorem block?_eq_some_iff : block? bytes offset (offset + count) = some block ↔
    block.size = count ∧ Holds bytes offset block.data.toList := by
  constructor
  · intro read
    rw [block?] at read
    split at read
    · rename_i inside
      cases read
      refine ⟨?_,holds_extract inside.1 inside.2⟩
      rw [ByteArray.size_extract]
      omega
    · cases read
  · rintro ⟨rfl,holds⟩
    have read := holds.block?
    rw [length_toList] at read
    rw [read]
    apply congrArg some
    apply ByteArray.ext
    rw [List.data_toByteArray]

theorem holds_digits (inside : offset + count ≤ bytes.size) :
    Holds bytes offset (digits count (littleEndian bytes offset count)) := by
  induction count generalizing offset with
  | zero => exact ⟨inside,List.nil_prefix⟩
  | succ count ih =>
    have byte : bytes[offset]? = some bytes[offset] := getElem?_pos _ _ (by omega)
    have low := bytes[offset].toNat_lt
    have first : (bytes[offset].toNat + 256 * littleEndian bytes (offset + 1) count) % 256 = bytes[offset].toNat := by
      omega
    have rest : (bytes[offset].toNat + 256 * littleEndian bytes (offset + 1) count) / 256 =
        littleEndian bytes (offset + 1) count := by omega
    rw [digits,littleEndian,byte,Option.getD_some,first,rest,holds_cons,UInt8.ofNat_toNat]
    exact ⟨byte,ih (by omega)⟩

theorem number_eq_ok_iff_holds {value : Nat} : number what count bytes offset = .ok value ↔
    value < 256 ^ count ∧ Holds bytes offset (digits count value) := by
  constructor
  · intro read
    obtain ⟨inside,rfl⟩ := number_eq_ok_iff.mp read
    exact ⟨littleEndian_lt bytes offset count,holds_digits inside⟩
  · rintro ⟨small,holds⟩
    exact holds.number small

theorem zero?_eq_some (found : zero? bytes offset = some stop) :
    ∃ part, 0 ∉ part ∧ Holds bytes offset (part ++ [0]) ∧ stop = offset + part.length := by
  fun_induction zero? bytes offset with
  | case1 offset inside byte =>
    cases found
    refine ⟨[],List.not_mem_nil,holds_cons.mpr ⟨?_,inside,List.nil_prefix⟩,rfl⟩
    rw [getElem?_pos bytes stop inside,byte]
  | case2 offset inside byte ih =>
    obtain ⟨part,free,holds,rfl⟩ := ih found
    refine ⟨bytes[offset] :: part,?_,holds_cons.mpr ⟨getElem?_pos bytes offset inside,holds⟩,?_⟩
    · simp [Ne.symm byte,free]
    · rw [List.length_cons]
      omega
  | case3 => cases found

theorem cString_eq_ok_iff : cString bytes offset = .ok text ↔
    ∃ part, 0 ∉ part ∧ Holds bytes offset (part ++ [0]) ∧ Text.Utf8.decodeLossy part = text := by
  constructor
  · intro read
    cases found : zero? bytes offset with
    | none =>
      rw [cString,found] at read
      split at read <;> cases read
    | some stop =>
      obtain ⟨part,free,holds,-⟩ := zero?_eq_some found
      exact ⟨part,free,holds,Except.ok.inj ((holds.cString free).symm.trans read)⟩
  · rintro ⟨part,free,holds,rfl⟩
    exact holds.cString free

end Read

end Bytes
end LoadMap
