import LoadMap.Json.Printer
import LoadMap.Json.Reader
import Mathlib.Data.List.TakeDrop
import Mathlib.Data.Option.Basic

/-! Strings and whole numbers are read as they were written, whatever is escaped on the way and whatever
follows them. -/
namespace LoadMap.Json

variable {rest after chars : List Char} {char : Char} {piece : Piece} {pieces : List Piece}

theorem hexValue?_hexDigit : ∀ value < 16, hexValue? (hexDigit value) = some value := by
  decide

/-- A character is escaped by a name or by its number, or written as it is. -/
theorem escape_cases (char : Char) :
    (∃ name, name ≠ 'u' ∧ namedEscape? name = some char ∧ escape char = ['\\',name]) ∨
    (char.toNat < 32 ∧
      escape char = ['\\','u','0','0',hexDigit (char.toNat / 16),hexDigit (char.toNat % 16)]) ∨
    (char ≠ '"' ∧ char ≠ '\\' ∧ 32 ≤ char.toNat ∧ escape char = [char]) := by
  unfold escape
  split
  · exact .inl ⟨'"',by decide,rfl,rfl⟩
  · exact .inl ⟨'\\',by decide,rfl,rfl⟩
  · exact .inl ⟨'n',by decide,rfl,rfl⟩
  · exact .inl ⟨'r',by decide,rfl,rfl⟩
  · exact .inl ⟨'t',by decide,rfl,rfl⟩
  · rename_i quote slash _ _ _
    split
    · rename_i code
      obtain rfl : char = '\x08' := Char.toNat_inj.mp code
      exact .inl ⟨'b',by decide,rfl,rfl⟩
    · split
      · rename_i code
        obtain rfl : char = '\x0c' := Char.toNat_inj.mp code
        exact .inl ⟨'f',by decide,rfl,rfl⟩
      · split
        · rename_i small
          exact .inr (.inl ⟨small,rfl⟩)
        · rename_i large
          exact .inr (.inr ⟨quote,slash,Nat.le_of_not_lt large,rfl⟩)

def Stands (piece : Piece) (char : Char) : Prop :=
  piece = .char char ∨ piece = .unit char.toNat ∧ char.toNat < 32

theorem pieces?_escape (char : Char) (read : pieces? rest = some (pieces,after)) :
    ∃ piece, Stands piece char ∧ pieces? (escape char ++ rest) = some (piece :: pieces,after) := by
  obtain ⟨name,plain,named,same⟩ | ⟨small,same⟩ | ⟨quote,slash,large,same⟩ := escape_cases char
  · refine ⟨.char char,.inl rfl,?_⟩
    rw [same,List.cons_append,List.cons_append,List.nil_append,pieces?]
    · rw [named]
      simp [read]
    · intro a b c d others known
      exact absurd known plain
  · refine ⟨.unit char.toNat,.inr ⟨rfl,small⟩,?_⟩
    have high := hexValue?_hexDigit (char.toNat / 16) (by omega)
    have low := hexValue?_hexDigit (char.toNat % 16) (Nat.mod_lt _ (by decide))
    have zero : hexValue? '0' = some 0 := rfl
    have code : char.toNat / 16 * 16 + char.toNat % 16 = char.toNat := Nat.div_add_mod' _ _
    rw [same]
    simp only [List.cons_append,List.nil_append]
    rw [pieces?]
    simp [read,high,low,zero,code]
  · refine ⟨.char char,.inl rfl,?_⟩
    rw [same,List.singleton_append,pieces?]
    · have printable : guard (32 ≤ char.toNat) = some () := if_pos large
      rw [read,printable]
      rfl
    · exact quote
    · intro a b c d others known
      exact absurd known slash
    · intro other others known
      exact absurd known slash

theorem joinPieces?_cons (stands : Stands piece char) (joined : joinPieces? pieces = some chars) :
    joinPieces? (piece :: pieces) = some (char :: chars) := by
  obtain rfl | ⟨rfl,small⟩ := stands
  · rw [joinPieces?,joined,Option.map_some]
  · have single : ¬ (0xD800 ≤ char.toNat ∧ char.toNat < 0xE000) := by omega
    have joins : joinPieces? (.unit char.toNat :: pieces) = (joinPieces? pieces).map (char :: ·) := by
      cases pieces with
      | nil => simp [joinPieces?,single]
      | cons other more =>
        cases other with
        | char next => simp [joinPieces?,single]
        | unit low =>
          have apart : ¬ (0xD800 ≤ char.toNat ∧ char.toNat < 0xDC00 ∧ 0xDC00 ≤ low ∧ low < 0xE000) := by
            omega
          rw [joinPieces?,if_neg apart,if_neg single,Char.ofNat_toNat]
    rw [joins,joined,Option.map_some]

theorem string?_escape (text rest : List Char) :
    ∃ pieces, pieces? (text.flatMap escape ++ '"' :: rest) = some (pieces,rest) ∧
      joinPieces? pieces = some text := by
  induction text with
  | nil => exact ⟨[],rfl,rfl⟩
  | cons char text ih =>
    obtain ⟨pieces,read,joined⟩ := ih
    obtain ⟨piece,stands,more⟩ := pieces?_escape char read
    refine ⟨piece :: pieces,?_,joinPieces?_cons stands joined⟩
    rw [List.flatMap_cons,List.append_assoc,more]

theorem string?_quote (text : String) (rest : List Char) :
    string? (text.toList.flatMap escape ++ '"' :: rest) = some (some text,rest) := by
  obtain ⟨pieces,read,joined⟩ := string?_escape text.toList rest
  simp [string?,read,joined]

/-- What may stand behind a value: nothing, white space, or what goes on with the document. -/
def Stops (rest : List Char) : Prop :=
  ∀ char ∈ rest.head?, isSpace char ∨ char ∈ [',',']','\x7d']

theorem Stops.not_number (stops : Stops (char :: rest)) :
    char.isDigit = false ∧ char ≠ '.' ∧ char ≠ 'e' ∧ char ≠ 'E' := by
  have ends := stops char rfl
  have among : char ∈ [' ','\n','\t','\r',',',']','\x7d'] := by
    simpa [isSpace,or_assoc] using ends
  have apart : ∀ char ∈ [' ','\n','\t','\r',',',']','\x7d'],
      char.isDigit = false ∧ char ≠ '.' ∧ char ≠ 'e' ∧ char ≠ 'E' := by
    simp only [List.forall_mem_cons]
    exact ⟨by decide,by decide,by decide,by decide,by decide,by decide,by decide,nofun⟩
  exact apart char among

theorem digits_append (all : ∀ char ∈ chars, char.isDigit) (stops : Stops rest) :
    digits (chars ++ rest) = (chars,rest) := by
  rw [digits,List.span_eq_takeWhile_dropWhile,List.takeWhile_append_of_pos all,
    List.dropWhile_append_of_pos all]
  cases rest with
  | nil => simp
  | cons char more => simp [stops.not_number.1]

/-- The digits of a positive number do not begin with a zero. -/
theorem toDigits_head {value : Nat} (positive : 0 < value) (more : List Char) :
    Nat.toDigits 10 value ≠ '0' :: more := by
  induction value using Nat.strongRecOn generalizing more with
  | ind value ih =>
    intro same
    by_cases small : value < 10
    · have first : ∀ value < 10, 0 < value → Nat.digitChar value ≠ '0' := by decide
      rw [Nat.toDigits_of_lt_base small] at same
      exact first value small positive (List.cons.inj same).1
    · have large : 10 ≤ value := Nat.le_of_not_lt small
      rw [Nat.toDigits_of_base_le (by decide) large] at same
      obtain ⟨nothing,-⟩ | ⟨others,front,-⟩ := List.append_eq_cons_iff.mp same
      · exact Nat.toDigits_ne_nil nothing
      · exact ih (value / 10) (by omega) (by omega) others front

theorem whole?_toDigits (value : Nat) (stops : Stops rest) :
    whole? (Nat.toDigits 10 value ++ rest) = some (Nat.toDigits 10 value,rest) := by
  have all : ∀ char ∈ Nat.toDigits 10 value, char.isDigit := fun char member =>
    Nat.isDigit_of_mem_toDigits (by decide) (by decide) member
  rw [whole?,digits_append all stops]
  split
  · rename_i nothing
    exact absurd (congrArg Prod.fst nothing) Nat.toDigits_ne_nil
  · rename_i next more others same
    have digits := congrArg Prod.fst same
    rcases Nat.eq_zero_or_pos value with rfl | positive
    · cases digits
    · exact absurd digits (toDigits_head positive _)
  · rfl

theorem number?_ofNat (value : Nat) (stops : Stops rest) :
    number? ((toString value).toList ++ rest) = some (.ofNat value,rest) := by
  have whole := whole?_toDigits value stops
  have fraction : fraction? rest = some ([],rest) := by
    cases rest with
    | nil => rfl
    | cons char more =>
      rw [fraction?]
      intro others same
      exact stops.not_number.2.1 (List.cons.inj same).1
  have exponent : exponent? rest = some ([],rest) := by
    cases rest with
    | nil => rfl
    | cons char more => simp [exponent?,stops.not_number]
  have unsigned : ∀ others, Nat.toDigits 10 value ++ rest ≠ '-' :: others := by
    intro others same
    obtain ⟨nothing,-⟩ | ⟨more,front,-⟩ := List.append_eq_cons_iff.mp same
    · exact Nat.toDigits_ne_nil nothing
    · have digit : '-'.isDigit :=
        Nat.isDigit_of_mem_toDigits (by decide) (by decide) (front ▸ List.mem_cons_self)
      cases digit
  rw [ofNat,Nat.toString_eq_ofList_toDigits,String.toList_ofList,number?]
  · simp [whole,fraction,exponent]
  · exact unsigned

end LoadMap.Json
