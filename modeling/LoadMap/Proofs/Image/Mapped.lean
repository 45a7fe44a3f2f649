import LoadMap.Image.ImportTable
import LoadMap.Proofs.Bytes.Padding

/-! The loader's view of an image with zeros behind the file. The same addresses are mapped, and the tables of imports
that could be followed in the file are the same. Zeros end a name that the end of the file ended, so the name of a
section can become empty, which does not make it another one of those that are looked for. -/
namespace LoadMap.Image.LoaderView

open LoadMap.Bytes

variable {short long : ByteArray}

/-- Sections that differ in their names at most, and of which both or none hold the API set schema. -/
structure Section.Alike (one other : Section) : Prop where
  same : other = { one with name := other.name }
  schema : other.name = ".apiset" ↔ one.name = ".apiset"

/-- Views of a file and of a longer one that map the same addresses. -/
structure Longer (short long : ByteArray) (one other : LoaderView) : Prop where
  bytes : one.bytes = short
  same : other = { one with bytes := long, sections := other.sections }
  sections : List.Forall₂ Section.Alike one.sections other.sections

inductive Outcome.Longer (short long : ByteArray) : Outcome → Outcome → Prop
  | view {one other : LoaderView} (longer : one.Longer short long other) : Longer short long (.view one) (.view other)
  | otherFormat : Longer short long .otherFormat .otherFormat

theorem checked_eq_ok_iff {α : Type} {outcome : Except Fault α} {value : α} :
    checked outcome = .ok value ↔ outcome = .ok value := by
  cases outcome with
  | ok given => rw [checked,Except.ok.injEq,Except.ok.injEq]
  | error fault => exact iff_of_false nofun nofun

theorem persists_checked {α : Type} {one other : Except Fault α} (persists : Persists Eq one other) :
    Persists Eq (checked one) (checked other) := by
  rw [persists_eq_iff]
  intro value made
  exact checked_eq_ok_iff.mpr (persists.eq_ok (checked_eq_ok_iff.mp made))

section Headers

variable (padded : Padded short long)
include padded

/-- A name that begins in the file is the same in the longer one, where zeros end it. -/
theorem nameAt_inside {offset : Nat} (inside : offset ≤ short.size) : nameAt long offset = nameAt short offset := by
  rw [nameAt,nameAt,if_pos inside,if_pos (inside.trans padded.size_le)]
  have stop : (zero? long offset).getD long.size = (zero? short offset).getD short.size := by
    cases found : zero? short offset with
    | some stop =>
      rw [padded.zero? found]
      rfl
    | none => exact padded.zero?_behind found inside
  have bound : (zero? short offset).getD short.size ≤ short.size := by
    cases found : zero? short offset with
    | some stop => exact (zero?_bounds found).2.1.le
    | none => exact Nat.le_refl _
  dsimp only
  rw [stop,padded.extract bound]

/-- A name that begins behind the file is empty, or none at all. -/
theorem nameAt_behind {offset : Nat} (beyond : short.size < offset) (name : String) :
    (nameAt long offset).toOption.getD name = "" ∨ (nameAt long offset).toOption.getD name = name := by
  rw [nameAt]
  split
  · rename_i inside
    have stop : (zero? long offset).getD long.size = offset := by
      rw [zero?]
      split
      · rename_i within
        have zero : long[offset] = 0 := by
          have there := padded.getElem?_behind beyond.le within
          rw [getElem?_pos long _ within] at there
          exact Option.some.inj there
        rw [if_pos zero]
        rfl
      · rename_i past
        exact (Nat.le_of_not_lt past).antisymm inside
    have nothing : (long.extract offset offset).toList = [] := by
      rw [toList_eq,ByteArray.data_extract,Array.toList_extract,List.extract_eq_take_drop,Nat.sub_self,List.take_zero]
    have text : Text.Utf8.decode? [] = some "" := by simp [Text.Utf8.decode?,Text.Utf8.scan]
    dsimp only
    rw [stop,nothing,text]
    exact .inl rfl
  · exact .inr rfl

theorem nameAt_padded (offset : Nat) : Persists Eq (nameAt short offset) (nameAt long offset) := by
  by_cases inside : offset ≤ short.size
  · rw [nameAt_inside padded inside]
    exact persists_self _
  · rw [nameAt,if_neg inside]
    exact persists_error _

theorem sectionName_padded (strings : Nat) (field : ByteArray) :
    Persists (fun one other => other = ".apiset" ↔ one = ".apiset") (sectionName short strings field)
      (sectionName long strings field) := by
  rw [sectionName,sectionName]
  split
  · rename_i name _
    cases placed : namePlace? name with
    | error failure => exact persists_error failure
    | ok place? =>
      cases place? with
      | none => exact persists_ok Iff.rfl
      | some place =>
        refine persists_ok ?_
        by_cases inside : strings + place ≤ short.size
        · rw [nameAt_inside padded inside]
        · -- Such a name would be a slash and a number, or nothing at all.
          have plain : name ≠ ".apiset" := by
            rintro rfl
            cases placed
          have none : nameAt short (strings + place) = refuse "name out of bounds" := by rw [nameAt,if_neg inside]
          have stays : ((nameAt short (strings + place)).toOption.getD name) = name := by
            rw [none]
            rfl
          rw [stays]
          rcases nameAt_behind padded (Nat.lt_of_not_le inside) name with empty | same
          · rw [empty]
            exact iff_of_false (by decide) plain
          · rw [same]
  · split
    · exact persists_error _
    · exact persists_ok Iff.rfl

theorem sectionAt_padded (strings table index : Nat) :
    Persists Section.Alike (sectionAt short strings table index) (sectionAt long strings table index) := by
  rw [sectionAt,sectionAt]
  cases found : block? short (table + 40 * index) (table + 40 * index + 40) with
  | none => exact persists_error _
  | some entry =>
    rw [padded.block? found]
    exact (sectionName_padded padded _ _).bind fun one other alike => persists_ok ⟨rfl,alike⟩

theorem optionsAt_padded (header : Nat) : Persists Eq (optionsAt short header) (optionsAt long header) := by
  rw [optionsAt,optionsAt]
  refine (persists_checked (padded.number _ _ _)).next fun magic => ?_
  split
  · exact persists_self _
  · dsimp only
    generalize (if magic = 523 then 112 else 96) = fields
    cases found : block? short header (header + fields) with
    | none => exact persists_error _
    | some block =>
      rw [padded.block? found]
      dsimp only
      refine persists_unless id fun _ => Persists.next (persists_mapM_same fun index _ => ?_) fun _ => persists_self _
      refine (persists_checked (padded.number _ _ _)).next fun address => ?_
      exact (persists_checked (padded.number _ _ _)).next fun size => persists_self _

theorem parse_padded : Persists (Outcome.Longer short long) (parse short) (parse long) := by
  have longer := padded.size_le
  rw [parse,parse]
  refine persists_unless (fun stop => by omega) fun _ => ?_
  refine (persists_checked (padded.number _ _ _)).next fun start => ?_
  dsimp only
  cases signed : block? short start (start + 4) with
  | none => exact persists_error _
  | some mark =>
    have before : start ≤ short.size := (block?_bounds signed).trans' (Nat.le_add_right _ _)
    rw [padded.block? signed,padded.extract before]
    refine persists_if id fun _ => persists_unless id fun _ => (persists_self _).next fun _ => ?_
    cases found : block? short (start + 4) (start + 24) with
    | none => exact persists_error _
    | some header =>
      rw [padded.block? found]
      dsimp only
      split
      on_goal 1 => refine (persists_self _).next fun options? => ?_
      on_goal 2 => refine (optionsAt_padded padded _).next fun options? => ?_
      all_goals
        cases options? with
        | none => exact persists_ok .otherFormat
        | some options =>
          have room := Nat.div_le_div_right (c := 40) longer
          refine persists_unless (fun stop => by omega) fun _ => ?_
          refine (persists_mapM fun index _ => sectionAt_padded padded _ _ _).bind fun sections others alike => ?_
          exact persists_ok (.view ⟨rfl,rfl,alike⟩)

end Headers

theorem find?_alike {parts others : List Section} (alike : List.Forall₂ Section.Alike parts others)
    {covers : Section → Bool} {place : Section → Nat}
    (nameless : ∀ part other : Section, part.Alike other → covers other = covers part ∧ place other = place part) :
    (others.find? covers).map place = (parts.find? covers).map place := by
  induction alike with
  | nil => rfl
  | @cons part other parts others here rest ih =>
    obtain ⟨both,there⟩ := nameless part other here
    cases covered : covers part with
    | true => rw [List.find?_cons_of_pos (both.trans covered),List.find?_cons_of_pos covered,Option.map_some,
        Option.map_some,there]
    | false =>
      have past : ¬ covers other = true := by
        rw [both,covered]
        decide
      rw [List.find?_cons_of_neg past,List.find?_cons_of_neg (by rw [covered]; decide),ih]

theorem any_alike {parts others : List Section} (alike : List.Forall₂ Section.Alike parts others) :
    others.any (·.name = ".apiset") = parts.any (·.name = ".apiset") := by
  induction alike with
  | nil => rfl
  | cons here rest ih => rw [List.any_cons,List.any_cons,ih,decide_eq_decide.mpr here.schema]

section Addresses

variable {one other : LoaderView} (longer : one.Longer short long other)
include longer

theorem Longer.file : other.bytes = long := by
  rw [longer.same]

theorem Longer.is64 : other.is64 = one.is64 := by
  rw [longer.same]

theorem Longer.offset? (address : Nat) : other.offset? address = one.offset? address := by
  have alignment : other.fileAlignment = one.fileAlignment := by rw [longer.same]
  rw [LoaderView.offset?,LoaderView.offset?,alignment]
  split
  · refine find?_alike longer.sections fun part renamed alike => ?_
    rw [alike.same]
    exact ⟨rfl,rfl⟩
  · rfl

theorem Longer.offsetOf (what : String) (address : Nat) : other.offsetOf what address = one.offsetOf what address := by
  rw [LoaderView.offsetOf,LoaderView.offsetOf,longer.offset?]

theorem Longer.directory? (index : Nat) : other.directory? index = one.directory? index := by
  rw [longer.same]
  rfl

end Addresses
end LoadMap.Image.LoaderView

namespace LoadMap.Image.ImportTable

open LoadMap.Bytes LoadMap.Image.LoaderView

variable {short long : ByteArray} {one other : LoaderView} (padded : Padded short long)
  (longer : one.Longer short long other)
include padded longer

theorem entryAt_padded (offset : Nat) : Persists Eq (entryAt one offset) (entryAt other offset) := by
  rw [entryAt,entryAt,longer.bytes,longer.file]
  cases found : block? short offset (offset + 20) with
  | none => exact persists_error _
  | some block =>
    rw [padded.block? found]
    exact persists_self _

theorem thunksAt_padded (offset : Nat) : Persists Eq (thunksAt one offset) (thunksAt other offset) := by
  have size : thunkSize other = thunkSize one := by rw [thunkSize,thunkSize,longer.is64]
  rw [thunksAt,thunksAt,longer.bytes,longer.file,size]
  refine persists_collect (fun index => ?_) (Nat.succ_le_succ padded.size_le) (.inr ⟨short.size,by omega,by omega,?_⟩)
  · exact (persists_checked (padded.number _ _ _)).next fun value => persists_self _
  · -- The entry with the number of the last byte would lie behind the file.
    intro entry read
    obtain ⟨value,number,-⟩ := bind_eq_ok_iff.mp read
    have inside := (number_eq_ok_iff.mp (checked_eq_ok_iff.mp number)).1
    unfold thunkSize at inside
    split at inside <;> omega

theorem functionOf_padded (dll : String) (thunk : Nat) :
    Persists Eq (functionOf one dll thunk) (functionOf other dll thunk) := by
  have size : thunkSize other = thunkSize one := by rw [thunkSize,thunkSize,longer.is64]
  rw [functionOf,functionOf,longer.bytes,longer.file,size,longer.offset?]
  split
  · exact persists_self _
  · split
    · exact persists_self _
    · refine (persists_checked (padded.number _ _ _)).next fun number => ?_
      exact (nameAt_padded padded _).next fun name => persists_self _

theorem functionsOf_padded (entry : Entry) : Persists Eq (functionsOf one entry) (functionsOf other entry) := by
  rw [functionsOf,functionsOf,longer.offsetOf]
  refine (persists_self _).next fun place => ?_
  have past := padded.size_le
  dsimp only
  rw [longer.bytes,longer.file]
  refine persists_unless (fun stop => by omega) fun _ => ?_
  refine (nameAt_padded padded place).next fun dll => ?_
  rw [longer.offset?,longer.offset?,longer.offsetOf]
  have rest (functions : List TableImport) :
      Persists Eq (do
          discard (thunksAt one (← one.offsetOf "import address table" entry.addresses))
          return functions : Result (List TableImport))
        (do
          discard (thunksAt other (← one.offsetOf "import address table" entry.addresses))
          return functions) :=
    (persists_self _).next fun table => (thunksAt_padded padded longer table).discard.next fun _ => persists_self _
  split
  · exact (persists_self _).next fun functions => rest functions
  · refine (thunksAt_padded padded longer _).next fun thunks => ?_
    refine (persists_mapM_same fun thunk _ => functionOf_padded padded longer dll thunk).next fun listed => ?_
    exact (persists_self _).next fun functions => rest functions

theorem read_padded : Persists Eq (read one) (read other) := by
  rw [read,read,longer.directory?]
  split
  · exact persists_self _
  · rename_i address _ _
    rw [longer.offsetOf]
    refine (persists_self _).next fun table => ?_
    have room := Nat.succ_le_succ padded.size_le
    rw [longer.bytes,longer.file]
    refine Persists.next (persists_collect (fun index => entryAt_padded padded longer _) room
      (.inr ⟨short.size,by omega,by omega,fun entry read => ?_⟩)) fun entries => ?_
    · rw [entryAt,longer.bytes] at read
      cases found : block? short (table + 20 * short.size) (table + 20 * short.size + 20) with
      | none =>
        rw [found] at read
        cases read
      | some block =>
        have inside := block?_bounds found
        omega
    · exact (persists_mapM_same fun entry _ => functionsOf_padded padded longer entry).next fun _ => persists_self _

theorem checkRuntime_padded : Persists Eq (checkRuntime one) (checkRuntime other) := by
  have past := padded.size_le
  rw [checkRuntime,checkRuntime,longer.directory?]
  split
  · exact persists_self _
  · rw [longer.offsetOf,longer.bytes,longer.file]
    refine (persists_self _).next fun header => ?_
    cases found : block? short header (header + 72) with
    | none => exact persists_error _
    | some block =>
      rw [padded.block? found]
      dsimp only
      rw [longer.offsetOf]
      refine (persists_self _).next fun root => ?_
      refine persists_unless (fun stop => by omega) fun _ => ?_
      refine (persists_checked (padded.number _ _ _)).next fun length => ?_
      cases text : block? short (root + 16) (root + 16 + length + 4) with
      | none => exact persists_error _
      | some version =>
        rw [padded.block? text]
        exact persists_self _

theorem checkResources_padded : Persists Eq (checkResources one) (checkResources other) := by
  have past := padded.size_le
  rw [checkResources,checkResources,longer.directory?]
  split
  · exact persists_self _
  · rw [longer.offsetOf,longer.bytes,longer.file]
    refine (persists_self _).next fun start => ?_
    exact persists_unless (fun stop => by omega) fun _ => persists_self _

end LoadMap.Image.ImportTable
