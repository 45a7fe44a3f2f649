import LoadMap.Text.Ascii
import LoadMap.Text.Lowercase

/-! Laws of lower-casing. It does not see the case of ASCII letters, not even where it looks at the
neighbours of a character, and what is lowered is lowered for good. -/
namespace LoadMap.Text

open CaseTable

def IsCapital (char : Char) : Prop := 65 ≤ char.toNat ∧ char.toNat ≤ 90

def IsSmall (char : Char) : Prop := 97 ≤ char.toNat ∧ char.toNat ≤ 122

theorem toNat_toLower (char : Char) :
    char.toLower.toNat = if 65 ≤ char.toNat ∧ char.toNat ≤ 90 then char.toNat + 32 else char.toNat := by
  unfold Char.toLower
  by_cases capital : char.val ≥ 'A'.val ∧ char.val ≤ 'Z'.val
  · rw [dif_pos capital]
    simp only [ge_iff_le,UInt32.le_iff_toNat_le] at capital
    simp only [← Char.toNat_val,UInt32.toNat_add] at capital ⊢
    simp at capital ⊢
    grind
  · rw [dif_neg capital]
    simp only [ge_iff_le,UInt32.le_iff_toNat_le] at capital
    simp at capital ⊢
    grind

theorem toLower_cases (char : Char) :
    IsCapital char ∧ IsSmall char.toLower ∨ ¬ IsCapital char ∧ char.toLower = char := by
  have code := toNat_toLower char
  by_cases capital : 65 ≤ char.toNat ∧ char.toNat ≤ 90
  · rw [if_pos capital] at code
    exact .inl ⟨capital,by rw [IsSmall]; omega⟩
  · rw [if_neg capital] at code
    exact .inr ⟨capital,Char.toNat_inj.mp code⟩

theorem toLower_toLower (char : Char) : char.toLower.toLower = char.toLower := by
  rcases toLower_cases char with ⟨-,small⟩ | ⟨-,same⟩
  · rcases toLower_cases char.toLower with ⟨capital,-⟩ | ⟨-,same⟩
    · simp only [IsCapital,IsSmall] at small capital
      omega
    · exact same
  · rw [same,same]

theorem toLower_comp : Char.toLower ∘ Char.toLower = Char.toLower := funext toLower_toLower

theorem Ascii.lower_lower (text : String) : lower (lower text) = lower text := by
  rw [lower,lower,String.toList_ofList,List.map_map,toLower_comp]

/-- What cannot tell a small ASCII letter from a capital does not see the case of a letter. -/
theorem view_toLower {α : Type} {view : Char → α} {value : α}
    (letter : ∀ char, IsCapital char ∨ IsSmall char → view char = value) (char : Char) :
    view char.toLower = view char := by
  rcases toLower_cases char with ⟨capital,small⟩ | ⟨-,same⟩
  · rw [letter char (.inl capital),letter _ (.inr small)]
  · rw [same]

theorem isCased_letter (char : Char) (letter : IsCapital char ∨ IsSmall char) : isCased char = true := by
  have capitals : (0x41,0x5A) ∈ casedRanges := by decide +kernel
  have smalls : (0x61,0x7A) ∈ casedRanges := by decide +kernel
  rw [isCased,within,List.any_eq_true]
  rcases letter with ⟨low,high⟩ | ⟨low,high⟩
  · exact ⟨_,capitals,by simp [low,high]⟩
  · exact ⟨_,smalls,by simp [low,high]⟩

theorem isIgnorable_letter (char : Char) (letter : IsCapital char ∨ IsSmall char) :
    isIgnorable char = false := by
  have apart : ∀ range ∈ ignorableRanges,
      range.2 < 65 ∨ 90 < range.1 ∧ range.2 < 97 ∨ 122 < range.1 := by decide +kernel
  rw [isIgnorable,within,List.any_eq_false]
  intro range listed inside
  simp only [Bool.and_eq_true,decide_eq_true_eq] at inside
  have outside := apart range listed
  simp only [IsCapital,IsSmall] at letter
  omega

theorem meetsCase_map (chars : List Char) : meetsCase (chars.map Char.toLower) = meetsCase chars := by
  have same : isIgnorable ∘ Char.toLower = isIgnorable := by
    funext char
    rw [Function.comp_apply,view_toLower isIgnorable_letter]
  rw [meetsCase,meetsCase,List.dropWhile_map,same]
  cases chars.dropWhile isIgnorable with
  | nil => rfl
  | cons char rest => exact view_toLower isCased_letter char

theorem lowerFrom_letter {char : Char} (letter : IsCapital char ∨ IsSmall char) (before after : List Char) :
    lowerFrom before (char :: after) = char.toLower :: lowerFrom (char :: before) after := by
  have ascii : char.toNat < 0x80 := by
    simp only [IsCapital,IsSmall] at letter
    omega
  have sigma : char ≠ '\u03A3' := by
    rintro rfl
    exact absurd ascii (by decide)
  have dotted : char ≠ '\u0130' := by
    rintro rfl
    exact absurd ascii (by decide)
  simp only [lowerFrom,sigma,dotted,ascii,if_true,if_false,List.singleton_append]

theorem lowerFrom_map (before chars : List Char) :
    lowerFrom (before.map Char.toLower) (chars.map Char.toLower) = lowerFrom before chars := by
  induction chars generalizing before with
  | nil => rfl
  | cons char after ih =>
    rcases toLower_cases char with ⟨capital,small⟩ | ⟨-,same⟩
    · rw [List.map_cons,lowerFrom_letter (.inr small),lowerFrom_letter (.inl capital),toLower_toLower,
        ← List.map_cons,ih]
    · rw [List.map_cons,lowerFrom,lowerFrom,← List.map_cons,ih,meetsCase_map,meetsCase_map]
      simp only [same]

theorem lowerFrom_eq_nil {before chars : List Char} : lowerFrom before chars = [] ↔ chars = [] := by
  cases chars with
  | nil => simp [lowerFrom]
  | cons char after =>
    rw [lowerFrom]
    split <;> (try split) <;> (try split) <;> simp

theorem lowercase_lower (name : String) : lowercase (Ascii.lower name) = lowercase name := by
  rw [lowercase,lowercase,Ascii.lower,String.toList_ofList]
  exact congrArg String.ofList (lowerFrom_map [] name.toList)

namespace CaseTable

def LowerRow.Covers (row : LowerRow) (code : Nat) : Prop :=
  row.first ≤ code ∧ code ≤ row.last ∧ (code - row.first) % row.step = 0

/-- The numbers that a row leads to lie apart from those that another row covers. -/
def LowerRow.apart (row other : LowerRow) : Bool :=
  Nat.blt other.last (row.first + row.shift).toNat || Nat.blt (row.last + row.shift).toNat other.first ||
    (other.step == 2 && (row.step == 2 || row.first == row.last) &&
      ((row.first + row.shift).toNat + other.first) % 2 == 1)

/-- A row leads to characters, none of them the one whose small form is two characters. -/
def LowerRow.sound (row : LowerRow) : Bool :=
  0 ≤ row.first + row.shift &&
    (Nat.blt (row.last + row.shift).toNat 0x130 || Nat.blt 0x130 (row.first + row.shift).toNat) &&
    (Nat.blt (row.last + row.shift).toNat 0xD800 || Nat.blt 0xDFFF (row.first + row.shift).toNat &&
      Nat.blt (row.last + row.shift).toNat 0x110000)

theorem lowerRows_apart : lowerRows.all (fun row => lowerRows.all row.apart) = true := by decide +kernel

theorem lowerRows_sound : lowerRows.all LowerRow.sound = true := by decide +kernel

/-- One row of the table is ASCII, and no row leads to a character before the small letters. -/
theorem lowerRows_bounds : ∀ row ∈ lowerRows,
    (row.first = 0x41 ∧ row.last = 0x5A ∨ 0x80 ≤ row.first) ∧ 97 ≤ row.first + row.shift := by decide +kernel

theorem not_covers {row other : LowerRow} (listed : row ∈ lowerRows) (kept : other ∈ lowerRows) {code : Nat}
    (covers : row.Covers code) : ¬ other.Covers (code + row.shift).toNat := by
  have apart := List.all_eq_true.mp (List.all_eq_true.mp lowerRows_apart row listed) other kept
  have sound := List.all_eq_true.mp lowerRows_sound row listed
  simp only [LowerRow.apart,LowerRow.sound,Bool.or_eq_true,Bool.and_eq_true,Nat.blt_eq,beq_iff_eq,
    decide_eq_true_eq] at apart sound
  obtain ⟨⟨begins,-⟩,-⟩ := sound
  obtain ⟨low,high,even⟩ := covers
  rintro ⟨first,last,also⟩
  rcases apart with (below | above) | ⟨⟨second,single⟩,parity⟩
  · omega
  · omega
  · rw [second] at also
    rcases single with step | point
    · rw [step] at even
      omega
    · omega

/-- The table has no small form for a small form. -/
theorem lowerOf_cases (code : Nat) :
    lowerOf code = code ∧ (∀ row ∈ lowerRows, ¬ row.Covers code) ∨
      lowerOf code ≠ 0x130 ∧ (lowerOf code < 0xD800 ∨ 0xDFFF < lowerOf code ∧ lowerOf code < 0x110000) ∧
        ∀ row ∈ lowerRows, ¬ row.Covers (lowerOf code) := by
  rw [lowerOf]
  cases found : lowerRows.find? fun row =>
      row.first ≤ code && code ≤ row.last && (code - row.first) % row.step == 0 with
  | none =>
    refine .inl ⟨rfl,fun row listed covers => ?_⟩
    have missed := List.find?_eq_none.mp found row listed
    simp only [Bool.and_eq_true,decide_eq_true_eq,beq_iff_eq] at missed
    exact missed ⟨⟨covers.1,covers.2.1⟩,covers.2.2⟩
  | some row =>
    have listed := List.mem_of_find?_eq_some found
    have covers := List.find?_some found
    have sound := List.all_eq_true.mp lowerRows_sound row listed
    simp only [Bool.and_eq_true,decide_eq_true_eq,beq_iff_eq] at covers
    simp only [LowerRow.sound,Bool.or_eq_true,Bool.and_eq_true,Nat.blt_eq,decide_eq_true_eq] at sound
    dsimp only
    refine .inr ⟨by omega,by omega,fun other kept => ?_⟩
    exact not_covers listed kept ⟨covers.1.1,covers.1.2,covers.2⟩

theorem lowerOf_eq {code : Nat} (uncovered : ∀ row ∈ lowerRows, ¬ row.Covers code) : lowerOf code = code := by
  rw [lowerOf,List.find?_eq_none.mpr]
  intro row listed covers
  simp only [Bool.and_eq_true,decide_eq_true_eq,beq_iff_eq] at covers
  exact uncovered row listed ⟨covers.1.1,covers.1.2,covers.2⟩

end CaseTable

/-- A character that lower-casing leaves as it is, wherever it stands. -/
def IsLowered (char : Char) : Prop :=
  char.toNat ≠ 0x130 ∧ ∀ row ∈ lowerRows, ¬ row.Covers char.toNat

theorem IsLowered.not_capital {char : Char} (lowered : IsLowered char) : ¬ IsCapital char := by
  rintro ⟨low,high⟩
  have listed : ⟨0x41,0x5A,1,32⟩ ∈ lowerRows := List.mem_cons_self
  exact lowered.2 _ listed ⟨low,high,Nat.mod_one _⟩

theorem lowerFrom_cons_lowered {char : Char} (lowered : IsLowered char) (before after : List Char) :
    lowerFrom before (char :: after) = char :: lowerFrom (char :: before) after := by
  have greek : ∃ row ∈ lowerRows,
      row.first ≤ 0x3A3 ∧ 0x3A3 ≤ row.last ∧ (0x3A3 - row.first) % row.step = 0 := by decide +kernel
  have sigma : char ≠ '\u03A3' := by
    rintro rfl
    obtain ⟨row,listed,covers⟩ := greek
    exact lowered.2 row listed covers
  have dotted : char ≠ '\u0130' := by
    rintro rfl
    exact lowered.1 (by decide)
  have small : char.toLower = char := by
    rcases toLower_cases char with ⟨capital,-⟩ | ⟨-,same⟩
    · exact absurd capital lowered.not_capital
    · exact same
  rw [lowerFrom]
  simp only [sigma,dotted,if_false,small,lowerOf_eq lowered.2,Char.ofNat_toNat,ite_self,List.singleton_append]

theorem lowerFrom_lowered (before : List Char) {chars : List Char} (lowered : ∀ char ∈ chars, IsLowered char) :
    lowerFrom before chars = chars := by
  induction chars generalizing before with
  | nil => rfl
  | cons char after ih =>
    rw [lowerFrom_cons_lowered (lowered char List.mem_cons_self),
      ih (char :: before) fun other listed => lowered other (List.mem_cons_of_mem char listed)]

theorem isLowered_toLower {char : Char} (ascii : char.toNat < 0x80) : IsLowered char.toLower := by
  rcases toLower_cases char with ⟨-,low,high⟩ | ⟨capital,same⟩
  · refine ⟨by omega,fun row listed ⟨low,high,_⟩ => ?_⟩
    have known := (lowerRows_bounds row listed).1
    omega
  · rw [IsCapital] at capital
    rw [same]
    refine ⟨by omega,fun row listed ⟨low,high,_⟩ => ?_⟩
    have known := (lowerRows_bounds row listed).1
    omega

theorem isLowered_ofNat {char : Char} (dotted : char ≠ '\u0130') :
    IsLowered (Char.ofNat (lowerOf char.toNat)) := by
  rcases lowerOf_cases char.toNat with ⟨same,uncovered⟩ | ⟨other,scalar,uncovered⟩
  · rw [same,Char.ofNat_toNat]
    exact ⟨fun code => dotted (Char.toNat_inj.mp code),uncovered⟩
  · have valid : (lowerOf char.toNat).isValidChar := scalar
    have code : (Char.ofNat (lowerOf char.toNat)).toNat = lowerOf char.toNat := by
      rw [Char.ofNat,dif_pos valid]
      rfl
    exact ⟨by rw [code]; exact other,by rw [code]; exact uncovered⟩

theorem isLowered_lowerFrom (before chars : List Char) : ∀ char ∈ lowerFrom before chars, IsLowered char := by
  have special : ∀ code ∈ ['\u03C2','\u03C3','i','\u0307'].map Char.toNat,
      code ≠ 0x130 ∧ ∀ row ∈ lowerRows, code < row.first ∨ row.last < code := by decide +kernel
  have lowered : ∀ char ∈ ['\u03C2','\u03C3','i','\u0307'], IsLowered char := by
    intro char listed
    obtain ⟨other,outside⟩ := special char.toNat (List.mem_map_of_mem listed)
    refine ⟨other,fun row kept ⟨low,high,_⟩ => ?_⟩
    have apart := outside row kept
    omega
  induction chars generalizing before with
  | nil => simp [lowerFrom]
  | cons char after ih =>
    intro made listed
    rw [lowerFrom] at listed
    rcases List.mem_append.mp listed with here | there
    · by_cases sigma : char = '\u03A3'
      · rw [if_pos sigma] at here
        refine lowered made ?_
        rw [List.mem_singleton.mp here]
        cases meetsCase before && !meetsCase after <;> simp
      rw [if_neg sigma] at here
      by_cases dotted : char = '\u0130'
      · rw [if_pos dotted] at here
        exact lowered made (List.mem_append_right ['\u03C2','\u03C3'] here)
      rw [if_neg dotted] at here
      by_cases ascii : char.toNat < 0x80
      · rw [if_pos ascii] at here
        rw [List.mem_singleton.mp here]
        exact isLowered_toLower ascii
      · rw [if_neg ascii] at here
        rw [List.mem_singleton.mp here]
        exact isLowered_ofNat dotted
    · exact ih (char :: before) made there

theorem lowercase_lowercase (text : String) : lowercase (lowercase text) = lowercase text := by
  rw [lowercase,lowercase,String.toList_ofList,lowerFrom_lowered [] (isLowered_lowerFrom [] text.toList)]

section Breaks

variable {mark : Char}

/-- A character at which the look at the neighbours of another ends: it counts, and it has no case. -/
def IsBreak (char : Char) : Prop := isIgnorable char = false ∧ isCased char = false

theorem IsBreak.not_meetsCase (ends : IsBreak mark) (chars : List Char) : meetsCase (mark :: chars) = false := by
  rw [meetsCase,List.dropWhile_cons_of_neg (by simp [ends.1])]
  exact ends.2

theorem IsBreak.meetsCase_append (ends : IsBreak mark) (chars rest : List Char) :
    meetsCase (chars ++ mark :: rest) = meetsCase chars := by
  induction chars with
  | nil => exact ends.not_meetsCase rest
  | cons char chars ih =>
    by_cases passed : isIgnorable char = true
    · simpa only [meetsCase,List.cons_append,List.dropWhile_cons_of_pos passed] using ih
    · simp only [meetsCase,List.cons_append,List.dropWhile_cons_of_neg passed]

theorem IsBreak.lowerFrom_beyond (ends : IsBreak mark) (before beyond chars : List Char) :
    lowerFrom (before ++ mark :: beyond) chars = lowerFrom before chars := by
  induction chars generalizing before with
  | nil => rfl
  | cons char after ih =>
    have next := ih (char :: before)
    rw [List.cons_append] at next
    rw [lowerFrom,lowerFrom,next,ends.meetsCase_append]

/-- The parts of a text on the two sides of a break are lowered each by itself. -/
theorem IsBreak.lowerFrom_append (ends : IsBreak mark) (lowered : IsLowered mark) (before left right : List Char) :
    lowerFrom before (left ++ mark :: right) = lowerFrom before left ++ mark :: lowerFrom [] right := by
  induction left generalizing before with
  | nil =>
    rw [List.nil_append,lowerFrom_cons_lowered lowered]
    exact congrArg (mark :: ·) (ends.lowerFrom_beyond [] before right)
  | cons char left ih =>
    rw [List.cons_append,lowerFrom,lowerFrom,ih,ends.meetsCase_append,List.append_assoc]

end Breaks

section Marks

variable {mark : Char}

theorem toLower_mark {char : Char} (low : mark.toNat < 97) (same : char.toLower = mark) : char = mark := by
  rcases toLower_cases char with ⟨-,small,-⟩ | ⟨-,stays⟩
  · rw [same] at small
    omega
  · rw [← stays,same]

theorem lowerOf_small (code : Nat) : lowerOf code = code ∨ 97 ≤ lowerOf code := by
  rw [lowerOf]
  cases found : lowerRows.find? fun row =>
      row.first ≤ code && code ≤ row.last && (code - row.first) % row.step == 0 with
  | none => exact .inl rfl
  | some row =>
    have least := (lowerRows_bounds row (List.mem_of_find?_eq_some found)).2
    have covers := List.find?_some found
    simp only [Bool.and_eq_true,decide_eq_true_eq] at covers
    dsimp only
    refine .inr ?_
    omega

/-- Lower-casing makes no character that stands before the letters. -/
theorem mem_of_lowerFrom (low : mark.toNat < 65) (some : mark.toNat ≠ 0) {before chars : List Char}
    (member : mark ∈ lowerFrom before chars) : mark ∈ chars := by
  induction chars generalizing before with
  | nil => exact member
  | cons char after ih =>
    have special : ∀ made ∈ ['\u03C2','\u03C3','i','\u0307'], mark ≠ made := by
      rintro made listed rfl
      have high : ∀ code ∈ ['\u03C2','\u03C3','i','\u0307'].map Char.toNat, 65 ≤ code := by decide
      have least := high mark.toNat (List.mem_map_of_mem listed)
      omega
    simp only [List.mem_cons,List.not_mem_nil,or_false,forall_eq_or_imp,forall_eq] at special
    rw [lowerFrom,List.mem_append] at member
    rcases member with here | there
    · refine List.mem_cons.mpr (.inl ?_)
      split at here
      · split at here <;> simp [special] at here
      split at here
      · simp [special] at here
      split at here
      · exact (toLower_mark (by omega) (List.mem_singleton.mp here).symm).symm
      · rw [List.mem_singleton.mp here] at low some ⊢
        rcases lowerOf_small char.toNat with same | high
        · rw [same,Char.ofNat_toNat]
        · have code : (Char.ofNat (lowerOf char.toNat)).toNat = lowerOf char.toNat ∨
              (Char.ofNat (lowerOf char.toNat)).toNat = 0 := by
            by_cases valid : (lowerOf char.toNat).isValidChar
            · rw [Char.ofNat,dif_pos valid]
              exact .inl rfl
            · rw [Char.ofNat,dif_neg valid]
              exact .inr rfl
          omega
    · exact List.mem_cons_of_mem char (ih there)

theorem mem_of_lowercase (low : mark.toNat < 65) (some : mark.toNat ≠ 0) {text : String}
    (member : mark ∈ (lowercase text).toList) : mark ∈ text.toList := by
  rw [lowercase,String.toList_ofList] at member
  exact mem_of_lowerFrom low some member

end Marks

end LoadMap.Text
