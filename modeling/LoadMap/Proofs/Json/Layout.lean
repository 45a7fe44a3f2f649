import LoadMap.Proofs.Json.Token
import Mathlib.Data.List.DropRight

/-! Documents are read as they were written, however their parts are laid out: the two ways to write
JSON differ only in the white space between the parts. -/
namespace LoadMap.Json

def Blank (chars : List Char) : Prop := ∀ char ∈ chars, isSpace char

theorem blank_nil : Blank [] := by
  intro char member
  cases member

theorem blank_newline (level : Nat) : Blank (newline level) := by
  intro char member
  rcases List.mem_cons.mp member with rfl | indent
  · rfl
  · rw [List.eq_of_mem_replicate indent]
    rfl

/-- Which white space stands before a part at some level, and between a key and its value. -/
structure Layout where
  line : Nat → List Char
  space : List Char
  line_blank : ∀ level, Blank (line level)
  space_blank : Blank space

namespace Layout

def block (layout : Layout) (first last : Char) (level : Nat) : List (List Char) → List Char
  | [] => [first,last]
  | parts =>
    first :: commas (parts.map (layout.line (level + 1) ++ ·)) ++ layout.line level ++ [last]

mutual
def chars (layout : Layout) (level : Nat) : Json → List Char
  | .array items => layout.block '[' ']' level (layout.items (level + 1) items)
  | .object fields => layout.block '\x7b' '\x7d' level (layout.fields (level + 1) fields)
  | .null => compactChars .null
  | .unreadable => compactChars .unreadable
  | .bool value => compactChars (.bool value)
  | .number literal => literal.toList
  | .string text => quote text

def items (layout : Layout) (level : Nat) : List Json → List (List Char)
  | [] => []
  | item :: rest => layout.chars level item :: layout.items level rest

def fields (layout : Layout) (level : Nat) : List (String × Json) → List (List Char)
  | [] => []
  | (key,value) :: rest =>
    (quote key ++ ':' :: layout.space ++ layout.chars level value) :: layout.fields level rest
end

def dense : Layout where
  line _ := []
  space := []
  line_blank _ := blank_nil
  space_blank := blank_nil

def spread : Layout where
  line := newline
  space := [' ']
  line_blank := blank_newline
  space_blank := by simp [Blank,isSpace]

theorem block_dense (first last : Char) (level : Nat) (parts : List (List Char)) :
    dense.block first last level parts = first :: commas parts ++ [last] := by
  cases parts <;> simp [block,dense,commas]

theorem block_spread (first last : Char) (level : Nat) (parts : List (List Char)) :
    spread.block first last level parts = Json.block first last level parts := by
  cases parts <;> rfl

theorem block_cons (layout : Layout) (first last : Char) (level : Nat) (part : List Char)
    (parts : List (List Char)) : layout.block first last level (part :: parts) =
      first :: (commas ((part :: parts).map (layout.line (level + 1) ++ ·)) ++
        (layout.line level ++ [last])) := by
  rw [block,List.cons_append,List.cons_append,List.append_assoc]
  exact List.cons_ne_nil part parts

mutual
theorem chars_dense (level : Nat) (value : Json) : dense.chars level value = compactChars value := by
  match value with
  | .array items => rw [chars,block_dense,items_dense (level + 1) items,compactChars]
  | .object fields => rw [chars,block_dense,fields_dense (level + 1) fields,compactChars]
  | .null | .unreadable | .bool _ => rw [chars]
  | .number _ | .string _ => rw [chars,compactChars]

theorem items_dense (level : Nat) (items : List Json) : dense.items level items = compactItems items := by
  match items with
  | [] => rfl
  | item :: rest => rw [Layout.items,chars_dense level item,items_dense level rest,compactItems]

theorem fields_dense (level : Nat) (fields : List (String × Json)) :
    dense.fields level fields = compactFields fields := by
  match fields with
  | [] => rfl
  | (key,value) :: rest =>
    rw [Layout.fields,chars_dense level value,fields_dense level rest,compactFields]
    simp [dense]
end

mutual
theorem chars_spread (level : Nat) (value : Json) : spread.chars level value = prettyChars level value := by
  match value with
  | .array items => rw [chars,block_spread,items_spread (level + 1) items,prettyChars]
  | .object fields => rw [chars,block_spread,fields_spread (level + 1) fields,prettyChars]
  | .null | .unreadable | .bool _ | .number _ | .string _ => rw [chars,prettyChars]

theorem items_spread (level : Nat) (items : List Json) :
    spread.items level items = prettyItems level items := by
  match items with
  | [] => rfl
  | item :: rest => rw [Layout.items,chars_spread level item,items_spread level rest,prettyItems]

theorem fields_spread (level : Nat) (fields : List (String × Json)) :
    spread.fields level fields = prettyFields level fields := by
  match fields with
  | [] => rfl
  | (key,value) :: rest =>
    rw [Layout.fields,chars_spread level value,fields_spread level rest,prettyFields]
    simp [spread]
end

end Layout

variable {layout : Layout} {value : Json} {chars rest gap : List Char} {steps level : Nat}

theorem dropSpace_gap (blank : Blank gap) (chars : List Char) :
    dropSpace (gap ++ chars) = dropSpace chars :=
  List.dropWhile_append_of_pos blank

theorem dropSpace_cons {char : Char} (solid : isSpace char = false) :
    dropSpace (char :: rest) = char :: rest := by
  rw [dropSpace,List.dropWhile_cons,solid]
  rfl

theorem dropSpace_twice (chars : List Char) : dropSpace (dropSpace chars) = dropSpace chars :=
  List.dropWhile_idempotent _ chars

theorem value?_dropSpace (steps : Nat) (chars : List Char) :
    value? steps (dropSpace chars) = value? steps chars := by
  cases steps with
  | zero => rw [value?,value?]
  | succ steps => rw [value?,dropSpace_twice,value?]

theorem items?_dropSpace (steps : Nat) (chars : List Char) :
    items? steps (dropSpace chars) = items? steps chars := by
  cases steps with
  | zero => rw [items?,items?]
  | succ steps => rw [items?,value?_dropSpace,items?]

theorem fields?_dropSpace (steps : Nat) (chars : List Char) :
    fields? steps (dropSpace chars) = fields? steps chars := by
  cases steps with
  | zero => rw [fields?,fields?]
  | succ steps => rw [fields?,dropSpace_twice,fields?]

theorem value?_gap (blank : Blank gap) (chars : List Char) :
    value? steps (gap ++ chars) = value? steps chars := by
  rw [← value?_dropSpace,dropSpace_gap blank,value?_dropSpace]

theorem fields?_gap (blank : Blank gap) (chars : List Char) :
    fields? steps (gap ++ chars) = fields? steps chars := by
  rw [← fields?_dropSpace,dropSpace_gap blank,fields?_dropSpace]

/-- The values that are written without loss: texts all of them, and numbers that are natural. -/
inductive Plain : Json → Prop
  | null : Plain .null
  | bool (value : Bool) : Plain (.bool value)
  | number (value : Nat) : Plain (.number (toString value))
  | string (text : String) : Plain (.string text)
  | array {items : List Json} (parts : ∀ item ∈ items, Plain item) : Plain (.array items)
  | object {fields : List (String × Json)} (parts : ∀ field ∈ fields, Plain field.2) :
      Plain (.object fields)

/-- A value is read where it was written, in as many steps as it has characters. -/
def Reads (layout : Layout) (value : Json) : Prop :=
  ∀ level steps rest, (layout.chars level value).length ≤ steps → Stops rest →
    value? (steps + 1) (layout.chars level value ++ rest) = some (value,rest)

theorem stops_of_blank (blank : Blank gap) (char : Char) (rest : List Char)
    (mark : char ∈ [',',']','\x7d']) : Stops (gap ++ char :: rest) := by
  intro first head
  cases gap with
  | nil =>
    cases head
    exact .inr mark
  | cons other more =>
    cases head
    exact .inl (blank _ List.mem_cons_self)

section Parts

variable {after more last : List Char} {item first : Json} {items others : List Json}
  {key : String} {fields : List (Option String × Json)} {field : String × Json}
  {entries : List (String × Json)}

theorem items?_last (read : value? steps chars = some (item,after)) (ends : dropSpace after = ']' :: rest) :
    items? (steps + 1) chars = some ([item],rest) := by
  rw [items?,read]
  simp only [ends]

theorem items?_next (read : value? steps chars = some (item,after)) (goes : dropSpace after = ',' :: more)
    (others : items? steps more = some (items,rest)) :
    items? (steps + 1) chars = some (item :: items,rest) := by
  rw [items?,read]
  simp only [goes,others,Option.map_some]

theorem items?_read (blank : Blank gap) (ends : Blank last)
    (reads : ∀ item ∈ first :: others, Reads layout item)
    (enough : (commas ((layout.items level (first :: others)).map (gap ++ ·))).length < steps) :
    items? (steps + 1) (commas ((layout.items level (first :: others)).map (gap ++ ·)) ++
      (last ++ ']' :: rest)) = some (first :: others,rest) := by
  induction others generalizing first steps with
  | nil =>
    obtain ⟨steps,rfl⟩ := Nat.exists_eq_succ_of_ne_zero (Nat.ne_zero_of_lt enough)
    simp only [Layout.items,List.map_cons,List.map_nil,commas,List.length_append,List.append_assoc]
      at enough ⊢
    have stops := stops_of_blank ends ']' rest (by simp)
    have read := (value?_gap blank _).trans
      (reads first List.mem_cons_self level steps _ (by omega) stops)
    refine items?_last read ?_
    rw [dropSpace_gap ends,dropSpace_cons rfl]
  | cons second others ih =>
    obtain ⟨steps,rfl⟩ := Nat.exists_eq_succ_of_ne_zero (Nat.ne_zero_of_lt enough)
    simp only [Layout.items,List.map_cons,commas,List.length_append,List.length_cons,
      List.append_assoc,List.cons_append] at enough ih ⊢
    have stops := fun more => stops_of_blank blank_nil ',' more (by simp)
    have read := fun more => (value?_gap blank _).trans
      (reads first List.mem_cons_self level steps _ (by omega) (stops more))
    refine items?_next (read _) (dropSpace_cons rfl) (ih (fun item member => ?_) (by omega))
    exact reads item (List.mem_cons_of_mem _ member)

theorem value?_array (read : items? steps chars = some (items,rest)) :
    value? (steps + 1) ('[' :: chars) = some (.array items,rest) := by
  rw [value?,dropSpace_cons rfl]
  rw [← items?_dropSpace] at read
  simp only
  split
  · -- What closes at once holds no items, in however many steps.
    rename_i closed
    rw [closed] at read
    cases steps with
    | zero => cases read
    | succ steps => cases steps <;> cases read
  · rw [read,Option.map_some]

theorem objectOf_texts (entries : List (String × Json)) :
    objectOf (entries.map fun entry => (some entry.1,entry.2)) = .object entries := by
  have whole : (entries.map fun entry => (some entry.1,entry.2)).mapM
      (fun field : Option String × Json => field.1.map (·,field.2)) = some entries := by
    induction entries with
    | nil => rfl
    | cons entry entries ih => simp [ih]
  unfold objectOf
  split
  · rename_i fields same
    rw [Option.some.inj (same.symm.trans whole)]
  · rename_i same
    cases same.symm.trans whole

theorem value?_object
    (read : fields? steps chars = some (entries.map fun entry => (some entry.1,entry.2),rest)) :
    value? (steps + 1) ('\x7b' :: chars) = some (.object entries,rest) := by
  rw [value?,dropSpace_cons rfl]
  rw [← fields?_dropSpace] at read
  simp only
  split
  · rename_i closed
    rw [closed] at read
    cases steps with
    | zero => cases read
    | succ steps => cases read
  · rw [read,Option.map_some,objectOf_texts]

theorem fields?_last (read : value? steps chars = some (item,after))
    (ends : dropSpace after = '\x7d' :: rest) :
    fields? (steps + 1) (quote key ++ ':' :: chars) = some ([(some key,item)],rest) := by
  rw [fields?,quote,List.cons_append,List.cons_append,dropSpace_cons rfl,List.append_assoc]
  simp only [List.singleton_append,string?_quote]
  rw [dropSpace_cons rfl]
  simp only [read,ends]

theorem fields?_next (read : value? steps chars = some (item,after)) (goes : dropSpace after = ',' :: more)
    (others : fields? steps more = some (fields,rest)) :
    fields? (steps + 1) (quote key ++ ':' :: chars) = some ((some key,item) :: fields,rest) := by
  rw [fields?,quote,List.cons_append,List.cons_append,dropSpace_cons rfl,List.append_assoc]
  simp only [List.singleton_append,string?_quote]
  rw [dropSpace_cons rfl]
  simp only [read,goes,others,Option.map_some]

theorem fields?_read (blank : Blank gap) (ends : Blank last)
    (reads : ∀ entry ∈ field :: entries, Reads layout entry.2)
    (enough : (commas ((layout.fields level (field :: entries)).map (gap ++ ·))).length < steps) :
    fields? (steps + 1) (commas ((layout.fields level (field :: entries)).map (gap ++ ·)) ++
      (last ++ '\x7d' :: rest)) =
      some ((field :: entries).map fun entry => (some entry.1,entry.2),rest) := by
  obtain ⟨key,value⟩ := field
  induction entries generalizing key value steps with
  | nil =>
    obtain ⟨steps,rfl⟩ := Nat.exists_eq_succ_of_ne_zero (Nat.ne_zero_of_lt enough)
    simp only [Layout.fields,List.map_cons,List.map_nil,commas,List.length_append,List.length_cons,
      List.append_assoc,List.cons_append] at enough ⊢
    have first : Reads layout value := reads _ List.mem_cons_self
    have stops := stops_of_blank ends '\x7d' rest (by simp)
    have read := (value?_gap layout.space_blank _).trans (first level steps _ (by omega) stops)
    rw [fields?_gap blank]
    refine fields?_last read ?_
    rw [dropSpace_gap ends,dropSpace_cons rfl]
  | cons second entries ih =>
    obtain ⟨steps,rfl⟩ := Nat.exists_eq_succ_of_ne_zero (Nat.ne_zero_of_lt enough)
    obtain ⟨next,other⟩ := second
    simp only [Layout.fields,List.map_cons,commas,List.length_append,List.length_cons,
      List.append_assoc,List.cons_append] at enough ih ⊢
    have first : Reads layout value := reads _ List.mem_cons_self
    have stops := fun more => stops_of_blank blank_nil ',' more (by simp)
    have read := fun more => (value?_gap layout.space_blank _).trans
      (first level steps _ (by omega) (stops more))
    rw [fields?_gap blank]
    refine fields?_next (read _) (dropSpace_cons rfl)
      (ih next other (fun entry member => ?_) (by omega))
    exact reads entry (List.mem_cons_of_mem _ member)

end Parts

theorem value?_string (text : String) (steps : Nat) (rest : List Char) :
    value? (steps + 1) (quote text ++ rest) = some (.string text,rest) := by
  rw [value?,quote,List.cons_append,List.cons_append,dropSpace_cons rfl,List.append_assoc]
  simp only [List.singleton_append,string?_quote,Option.map_some]

theorem value?_digit {digit : Char} (isDigit : digit.isDigit) :
    value? (steps + 1) (digit :: rest) = number? (digit :: rest) := by
  have solid : isSpace digit = false := by
    rw [Bool.eq_false_iff]
    intro space
    have among : digit ∈ [' ','\n','\t','\r'] := by simpa [isSpace,or_assoc] using space
    have apart : ∀ char ∈ [' ','\n','\t','\r'], char.isDigit = false := by
      simp only [List.forall_mem_cons]
      exact ⟨rfl,rfl,rfl,rfl,nofun⟩
    rw [apart digit among] at isDigit
    cases isDigit
  rw [value?,dropSpace_cons solid]
  split
  case h_7 => rfl
  all_goals
    rename_i same
    cases same
    cases isDigit

theorem value?_number (value steps : Nat) (stops : Stops rest) :
    value? (steps + 1) ((toString value).toList ++ rest) = some (.number (toString value),rest) := by
  have front : ∃ digit more, (toString value).toList = digit :: more ∧ digit.isDigit := by
    rw [Nat.toString_eq_ofList_toDigits,String.toList_ofList]
    obtain ⟨digit,more,same⟩ := List.exists_cons_of_ne_nil (Nat.toDigits_ne_nil (n := value) (b := 10))
    have member : digit ∈ Nat.toDigits 10 value := same ▸ List.mem_cons_self
    exact ⟨digit,more,same,Nat.isDigit_of_mem_toDigits (by decide) (by decide) member⟩
  obtain ⟨digit,more,same,isDigit⟩ := front
  rw [same,List.cons_append,value?_digit isDigit,← List.cons_append,← same,number?_ofNat value stops,
    ofNat]

theorem Plain.reads (plain : Plain value) : Reads layout value := by
  induction plain with
  | null =>
    intro level steps rest enough stops
    rw [Layout.chars]
    rfl
  | bool value =>
    intro level steps rest enough stops
    rw [Layout.chars]
    cases value <;> rfl
  | number value =>
    intro level steps rest enough stops
    rw [Layout.chars]
    exact value?_number value steps stops
  | string text =>
    intro level steps rest enough stops
    rw [Layout.chars]
    exact value?_string text steps rest
  | @array items parts ih =>
    intro level steps rest enough stops
    cases items with
    | nil =>
      rw [Layout.chars]
      rfl
    | cons first others =>
      rw [Layout.chars,Layout.items,Layout.block_cons,← Layout.items] at enough ⊢
      simp only [List.length_cons,List.length_append,List.length_nil] at enough
      obtain ⟨steps,rfl⟩ := Nat.exists_eq_succ_of_ne_zero (Nat.ne_zero_of_lt enough)
      simp only [List.append_assoc,List.cons_append,List.nil_append]
      apply value?_array
      exact items?_read (layout.line_blank _) (layout.line_blank _) ih (by omega)
  | @object fields parts ih =>
    intro level steps rest enough stops
    cases fields with
    | nil =>
      rw [Layout.chars]
      rfl
    | cons first others =>
      obtain ⟨key,value⟩ := first
      rw [Layout.chars,Layout.fields,Layout.block_cons,← Layout.fields] at enough ⊢
      simp only [List.length_cons,List.length_append,List.length_nil] at enough
      obtain ⟨steps,rfl⟩ := Nat.exists_eq_succ_of_ne_zero (Nat.ne_zero_of_lt enough)
      simp only [List.append_assoc,List.cons_append,List.nil_append]
      apply value?_object
      exact fields?_read (layout.line_blank _) (layout.line_blank _) ih (by omega)

theorem Plain.read?_chars (plain : Plain value) (layout : Layout) (blank : Blank gap) :
    read? (String.ofList (layout.chars 0 value ++ gap)) = some value := by
  have reads : Reads layout value := plain.reads
  have ends : Stops gap := fun first head => .inl (blank first (List.mem_of_mem_head? head))
  have long : (layout.chars 0 value).length ≤ (layout.chars 0 value ++ gap).length := by
    rw [List.length_append]
    exact Nat.le_add_right ..
  have spent : dropSpace gap = [] := by
    rw [← List.append_nil gap,dropSpace_gap blank]
    rfl
  rw [read?,String.toList_ofList,reads 0 _ gap long ends]
  simp only [Option.bind_eq_bind,Option.bind_some,spent,if_true]

/-- What is written in one line or over several is read back. -/
theorem Plain.read?_written (plain : Plain value) :
    read? value.compact = some value ∧ read? value.pretty = some value := by
  rw [compact,pretty,← Layout.chars_dense 0,← Layout.chars_spread]
  have dense := plain.read?_chars Layout.dense blank_nil
  have spread := plain.read?_chars Layout.spread blank_nil
  rw [List.append_nil] at dense spread
  exact ⟨dense,spread⟩

end LoadMap.Json
