import LoadMap.Image.DelayImport
import LoadMap.Proofs.Bytes.Table
import LoadMap.Proofs.Image.Headers
import LoadMap.Proofs.Text.Utf8

/-! Delay-load tables as they are laid out in an image, for any content and at any place, and what is read of them:
with relative addresses the list that they were written for. -/
namespace LoadMap.Image

open Bytes (Holds digits bind_eq_ok_iff)

section Places

/-- The bytes stand in the file where the address leads. -/
def HoldsAt (image : Image) (address : Nat) (part : List UInt8) : Prop :=
  address < Word.limit 32 ∧ ∃ offset ∈ image.offset? address, Holds image.bytes offset part

instance (image : Image) (address : Nat) (part : List UInt8) : Decidable (image.HoldsAt address part) :=
  inferInstanceAs (Decidable (_ ∧ _))

def NumberAt (image : Image) (address count value : Nat) : Prop :=
  value < 256 ^ count ∧ image.HoldsAt address (digits count value)

instance (image : Image) (address count value : Nat) : Decidable (image.NumberAt address count value) :=
  inferInstanceAs (Decidable (_ ∧ _))

/-- A text stands there, closed by a zero that is not part of it. -/
def TextAt (image : Image) (address : Nat) (text : String) : Prop :=
  '\x00' ∉ text.toList ∧ image.HoldsAt address (Text.Utf8.encode text ++ [0])

instance (image : Image) (address : Nat) (text : String) : Decidable (image.TextAt address text) :=
  inferInstanceAs (Decidable (_ ∧ _))

variable {image : Image} {address value : Nat} {text : String}

theorem NumberAt.u32At (stands : image.NumberAt address 4 value) : image.u32At address = .ok value := by
  obtain ⟨small,-,offset,found,holds⟩ := stands
  simp only [Image.u32At,offsetOf,Option.mem_def.mp found,bind,Except.bind,Bytes.u32,holds.number small]

theorem NumberAt.u64At (stands : image.NumberAt address 8 value) : image.u64At address = .ok value := by
  obtain ⟨small,-,offset,found,holds⟩ := stands
  simp only [Image.u64At,offsetOf,Option.mem_def.mp found,bind,Except.bind,Bytes.u64,holds.number small]

theorem NumberAt.thunkValue (stands : image.NumberAt address image.thunkSize value) :
    image.thunkValue address = .ok value := by
  rw [thunkSize] at stands
  rw [Image.thunkValue]
  cases wide : image.is64 with
  | true => exact (show image.NumberAt address 8 value by simpa [wide] using stands).u64At
  | false => exact (show image.NumberAt address 4 value by simpa [wide] using stands).u32At

theorem TextAt.cStringAt (stands : image.TextAt address text) : image.cStringAt address = .ok text := by
  obtain ⟨free,-,offset,found,holds⟩ := stands
  simp only [Image.cStringAt,offsetOf,Option.mem_def.mp found,bind,Except.bind,
    holds.cString (Text.Utf8.not_mem_encode free),Text.Utf8.decodeLossy_encode]

theorem addressSum_eq {displacement : Nat} (low : address + displacement < Word.limit 32) :
    addressSum address displacement = .ok (address + displacement) := if_pos low

theorem addressEntry_eq {table size index : Nat} (low : table + size * index < Word.limit 32) :
    addressEntry table size index = .ok (table + size * index) := by
  rw [addressEntry,if_pos (Nat.lt_of_le_of_lt (Nat.le_add_left _ _) low),addressSum_eq low]

end Places

namespace Delayed

section Layout

/-- The addresses in the tables count from the start of the image; or, in the older form, from zero, for an image
that is loaded where it prefers to be. -/
inductive Form
  | relative
  | absolute

/-- What is added to the address of something in the image when it is written down. -/
def Form.origin (image : Image) : Form → Nat
  | .relative => 0
  | .absolute => image.base

/-- Bit 0 of the attributes of a descriptor. -/
def Form.bit : Form → Nat
  | .relative => 1
  | .absolute => 0

/-- A function, by its number or by a name. In front of the name stands a hint, at the given address. -/
inductive Entry
  | ordinal (number : Nat)
  | named (hint : Nat) (text : String)

/-- The functions of one module. A table at address zero is one that is not there. -/
structure Descriptor where
  nameAddress : Nat
  dll : String
  tableAddress : Nat
  entries : List Entry

def Entry.function : Entry → ImportedFunction
  | .ordinal number => { name? := none, ordinal? := some number }
  | .named _ text => { name? := some text, ordinal? := none }

def Descriptor.imports (descriptor : Descriptor) : ImportDescriptor :=
  { dll := descriptor.dll, delay := true, functions := descriptor.entries.map Entry.function }

/-- A table of equal entries, each in its place, with an end mark behind the last when there are fewer entries than
the limit. Entries past the limit may stand anywhere. -/
structure Table {α : Type} (stands : Nat → α → Prop) (ends : Nat → Prop) (address size : Nat)
    (entries : List α) : Prop where
  listed : ∀ index (less : index < entries.length), index < tableLimit →
    stands (address + size * index) entries[index]
  ended : entries.length < tableLimit → ends (address + size * entries.length)

instance {α : Type} {stands : Nat → α → Prop} {ends : Nat → Prop} {address size : Nat} {entries : List α}
    [∀ place entry, Decidable (stands place entry)] [∀ place, Decidable (ends place)] :
    Decidable (Table stands ends address size entries) :=
  decidable_of_iff
    ((∀ index (less : index < entries.length), index < tableLimit → stands (address + size * index) entries[index]) ∧
      (entries.length < tableLimit → ends (address + size * entries.length)))
    ⟨fun both => ⟨both.1,both.2⟩,fun table => ⟨table.listed,table.ended⟩⟩

/-- The top bit of an entry tells a number from the address of a hint. -/
def Entry.Stands (image : Image) (thunks : Form) (place : Nat) : Entry → Prop
  | .ordinal number => number < Word.limit 16 ∧ image.NumberAt place image.thunkSize (image.ordinalFlag + number)
  | .named hint text => 0 < hint ∧ thunks.origin image + hint < Word.limit 31 ∧
      image.NumberAt place image.thunkSize (thunks.origin image + hint) ∧ image.TextAt (hint + 2) text

instance (image : Image) (thunks : Form) (place : Nat) : (entry : Entry) → Decidable (entry.Stands image thunks place)
  | .ordinal _ => inferInstanceAs (Decidable (_ ∧ _))
  | .named _ _ => inferInstanceAs (Decidable (_ ∧ _))

/-- The fields of a descriptor in one form, the entries of its table in the same or another. -/
structure Descriptor.Stands (image : Image) (fields thunks : Form) (place : Nat) (descriptor : Descriptor) :
    Prop where
  attributes : ∃ attributes, attributes % 2 = fields.bit ∧ image.NumberAt place 4 attributes
  nameField : 0 < descriptor.nameAddress ∧
    image.NumberAt (place + 4) 4 (fields.origin image + descriptor.nameAddress)
  name : image.TextAt descriptor.nameAddress descriptor.dll
  tableField : image.NumberAt (place + 16) 4
    (if descriptor.tableAddress = 0 then 0 else fields.origin image + descriptor.tableAddress)
  table : if descriptor.tableAddress = 0 then descriptor.entries = []
    else Table (Entry.Stands image thunks) (fun place => image.NumberAt place image.thunkSize 0)
      descriptor.tableAddress image.thunkSize descriptor.entries

def EndStands (image : Image) (place : Nat) : Prop :=
  (∃ attributes, image.NumberAt place 4 attributes) ∧ image.NumberAt (place + 4) 4 0

/-- The image has a table of these descriptors, or none for no descriptors. -/
def Stored (image : Image) (fields thunks : Form) (descriptors : List Descriptor) : Prop :=
  match image.directory? delayImportDirectory with
  | none => descriptors = []
  | some directory =>
    Table (Descriptor.Stands image fields thunks) (EndStands image) directory.address 32 descriptors

end Layout

section Reading

variable {image : Image} {fields thunks : Form} {table index : Nat}

/-- What is read of an entry: its name is looked for where the entry says, as if that were a relative address. -/
def Entry.read (image : Image) (thunks : Form) : Entry → Except Fault ImportedFunction
  | .ordinal number => .ok { name? := none, ordinal? := some number }
  | .named hint _ => do
    let name ← image.cStringAt (thunks.origin image + hint + 2)
    return { name? := some name, ordinal? := none }

def Descriptor.read (image : Image) (thunks : Form) (descriptor : Descriptor) : Except Fault ImportDescriptor := do
  let functions ← (descriptor.entries.take tableLimit).mapM (Entry.read image thunks)
  return { dll := descriptor.dll, delay := true, functions }

theorem ordinalFlag_ge (image : Image) : Word.limit 31 ≤ image.ordinalFlag := by
  rw [ordinalFlag]
  split <;> decide

theorem ordinalFlag_mod (image : Image) (number : Nat) :
    (image.ordinalFlag + number) % Word.limit 16 = number % Word.limit 16 := by
  have whole : Word.limit 16 ∣ image.ordinalFlag := by
    rw [ordinalFlag]
    split <;> decide
  rw [Nat.add_mod,Nat.mod_eq_zero_of_dvd whole,Nat.zero_add,Nat.mod_mod]

theorem thunkAt_eq {entry : Entry} (stands : entry.Stands image thunks (table + image.thunkSize * index)) :
    image.thunkAt table index = some <$> entry.read image thunks := by
  have flag := ordinalFlag_ge image
  have positive : 0 < Word.limit 31 := by decide
  cases entry with
  | ordinal number =>
    obtain ⟨small,holds⟩ := stands
    have place := addressEntry_eq holds.2.1
    simp only [thunkAt,place,holds.thunkValue,bind,Except.bind]
    rw [if_neg (by omega),if_pos (Nat.le_add_right _ _),ordinalFlag_mod,Nat.mod_eq_of_lt small]
    rfl
  | named hint text =>
    obtain ⟨hinted,low,holds,-⟩ := stands
    have place := addressEntry_eq holds.2.1
    have behind : thunks.origin image + hint + 2 < Word.limit 32 :=
      Nat.lt_of_lt_of_le (Nat.add_lt_add_right low 2) (by decide)
    -- Below the limit the address has no top bit, and no other bit of it is lost.
    simp only [thunkAt,place,holds.thunkValue,bind,Except.bind]
    rw [if_neg (by omega),if_neg (by omega),Nat.mod_eq_of_lt low,addressSum_eq behind]
    simp only [Entry.read,bind,Except.bind]
    cases image.cStringAt (thunks.origin image + hint + 2) <;> rfl

theorem thunks_eq {entries : List Entry}
    (stands : Table (Entry.Stands image thunks) (fun place => image.NumberAt place image.thunkSize 0) table
      image.thunkSize entries) :
    image.thunks table = (entries.take tableLimit).mapM (Entry.read image thunks) := by
  rw [Image.thunks]
  refine Bytes.collect_eq_mapM (fun index less more => thunkAt_eq (stands.listed index less more)) fun less => ?_
  have holds := stands.ended less
  simp only [thunkAt,addressEntry_eq holds.2.1,holds.thunkValue,bind,Except.bind,if_true]
  rfl

theorem relativeTo_add {base address : Nat} (low : address < Word.limit 32) :
    relativeTo base (base + address) = address := by
  have apart : base + address + Word.limit 64 - base = address + Word.limit 64 := by omega
  have whole : Word.limit 64 % Word.limit 32 = 0 := by decide
  rw [relativeTo,apart,Nat.add_mod,whole,Nat.add_zero,Nat.mod_mod,Nat.mod_eq_of_lt low]

theorem relative_origin (image : Image) {attributes address : Nat} (form : attributes % 2 = fields.bit)
    (low : address < Word.limit 32) :
    (if attributes % 2 = 1 then fields.origin image + address
      else relativeTo image.base (fields.origin image + address)) = address := by
  rw [form]
  cases fields with
  | relative => rw [Form.bit,if_pos rfl,Form.origin,Nat.zero_add]
  | absolute => rw [Form.bit,if_neg (by decide),Form.origin,relativeTo_add low]

theorem delayDescriptorAt_eq {descriptor : Descriptor}
    (stands : descriptor.Stands image fields thunks (table + 32 * index)) :
    image.delayDescriptorAt table index = some <$> descriptor.read image thunks := by
  obtain ⟨attributes,form,attributesAt⟩ := stands.attributes
  obtain ⟨named,nameFieldAt⟩ := stands.nameField
  have tableFieldAt := stands.tableField
  have name := relative_origin image form stands.name.2.1
  have place := addressEntry_eq attributesAt.2.1
  have namePlace := addressSum_eq nameFieldAt.2.1
  have tablePlace := addressSum_eq tableFieldAt.2.1
  rw [delayDescriptorAt,Descriptor.read]
  simp only [place,attributesAt.u32At,namePlace,nameFieldAt.u32At,bind,Except.bind]
  rw [if_neg (by omega)]
  simp only [tablePlace,tableFieldAt.u32At,name,stands.name.cStringAt]
  have functions := stands.table
  by_cases none : descriptor.tableAddress = 0
  · rw [if_pos none] at functions ⊢
    rw [functions]
    rfl
  · rw [if_neg none] at functions tableFieldAt ⊢
    have low : descriptor.tableAddress < Word.limit 32 :=
      Nat.lt_of_le_of_lt (Nat.le_add_left _ (fields.origin image)) tableFieldAt.1
    rw [if_neg (by omega),relative_origin image form low,thunks_eq functions]
    cases (descriptor.entries.take tableLimit).mapM (Entry.read image thunks) <;> rfl

theorem delayImports_eq {descriptors : List Descriptor} (stored : Stored image fields thunks descriptors) :
    image.delayImports = (descriptors.take tableLimit).mapM (Descriptor.read image thunks) := by
  rw [Stored] at stored
  rw [delayImports]
  cases present : image.directory? delayImportDirectory with
  | none =>
    rw [present] at stored
    rw [stored]
    rfl
  | some directory =>
    rw [present] at stored
    refine Bytes.collect_eq_mapM (fun index less more => delayDescriptorAt_eq (stored.listed index less more)) ?_
    intro less
    obtain ⟨⟨attributes,attributesAt⟩,nameFieldAt⟩ := stored.ended less
    simp only [delayDescriptorAt,addressEntry_eq attributesAt.2.1,attributesAt.u32At,addressSum_eq nameFieldAt.2.1,
      nameFieldAt.u32At,bind,Except.bind,if_true]
    rfl

/-- A descriptor with the functions that are looked at. -/
def Descriptor.limited (descriptor : Descriptor) : Descriptor :=
  { descriptor with entries := descriptor.entries.take tableLimit }

theorem Entry.read_eq_ok_iff {entry : Entry} : entry.read image thunks = .ok entry.function ↔
    ∀ hint text, entry = .named hint text → image.cStringAt (thunks.origin image + hint + 2) = .ok text := by
  cases entry with
  | ordinal number => exact iff_of_true rfl nofun
  | named hint text =>
    rw [Entry.read,Entry.function]
    cases read : image.cStringAt (thunks.origin image + hint + 2) <;>
      simp_all [bind,Except.bind,pure,Except.pure]

theorem Descriptor.read_eq_ok_iff {descriptor : Descriptor} :
    descriptor.read image thunks = .ok descriptor.limited.imports ↔
      ∀ hint text, .named hint text ∈ descriptor.entries.take tableLimit →
        image.cStringAt (thunks.origin image + hint + 2) = .ok text := by
  have functions : descriptor.read image thunks = .ok descriptor.limited.imports ↔
      (descriptor.entries.take tableLimit).mapM (Entry.read image thunks) =
        .ok ((descriptor.entries.take tableLimit).map Entry.function) := by
    rw [Descriptor.read,Descriptor.imports,Descriptor.limited]
    cases (descriptor.entries.take tableLimit).mapM (Entry.read image thunks) <;>
      simp [bind,Except.bind,pure,Except.pure]
  rw [functions,Bytes.mapM_eq_ok_map_iff]
  simp only [Entry.read_eq_ok_iff]
  exact ⟨fun all hint text listed => all _ listed hint text rfl,
    fun all entry listed hint text same => all hint text (same ▸ listed)⟩

/-- What was written is read, as long as the names are found where the entries, in the form they have, seem to say. -/
theorem delayImports_eq_ok_iff {descriptors : List Descriptor} (stored : Stored image fields thunks descriptors) :
    image.delayImports = .ok ((descriptors.take tableLimit).map (·.limited.imports)) ↔
      ∀ descriptor ∈ descriptors.take tableLimit, ∀ hint text,
        .named hint text ∈ descriptor.entries.take tableLimit →
          image.cStringAt (thunks.origin image + hint + 2) = .ok text := by
  rw [delayImports_eq stored,Bytes.mapM_eq_ok_map_iff]
  simp only [Descriptor.read_eq_ok_iff]

theorem Table.stands_of_mem {α : Type} {stands : Nat → α → Prop} {ends : Nat → Prop} {address size : Nat}
    {entries : List α} {entry : α} (whole : Table stands ends address size entries)
    (listed : entry ∈ entries.take tableLimit) : ∃ place, stands place entry := by
  obtain ⟨index,less,rfl⟩ := List.getElem_of_mem listed
  rw [List.length_take] at less
  rw [List.getElem_take]
  exact ⟨_,whole.listed index (by omega) (by omega)⟩

theorem names_of_stored {descriptors : List Descriptor} (stored : Stored image fields .relative descriptors) :
    ∀ descriptor ∈ descriptors.take tableLimit, ∀ hint text,
      .named hint text ∈ descriptor.entries.take tableLimit →
        image.cStringAt (Form.relative.origin image + hint + 2) = .ok text := by
  intro descriptor listed hint text member
  rw [Stored] at stored
  split at stored
  · rw [stored] at listed
    cases listed
  · obtain ⟨place,stands⟩ := stored.stands_of_mem listed
    have functions := stands.table
    split at functions
    · rw [functions] at member
      cases member
    · obtain ⟨place,-,-,-,name⟩ := functions.stands_of_mem member
      rw [Form.origin,Nat.zero_add]
      exact name.cStringAt

end Reading

section Forms

variable {image older newer : Image} {thunks : Form} {descriptors : List Descriptor}

/-- A list of delay imports is read as it was written with relative addresses, for words of either size and
wherever its tables and texts stand. -/
theorem delayImports_of_stored (stored : Stored image .relative .relative descriptors)
    (few : descriptors.length ≤ tableLimit)
    (short : ∀ descriptor ∈ descriptors, descriptor.entries.length ≤ tableLimit) :
    image.delayImports = .ok (descriptors.map Descriptor.imports) := by
  have limited : ∀ descriptor ∈ descriptors, descriptor.limited.imports = descriptor.imports := by
    intro descriptor listed
    rw [Descriptor.limited,List.take_of_length_le (short descriptor listed)]
  have read := (delayImports_eq_ok_iff stored).mpr (names_of_stored stored)
  rwa [List.take_of_length_le few,List.map_congr_left limited] at read

def shellDescriptor : Descriptor where
  nameAddress := 0x1040
  dll := "shell32.dll"
  tableAddress := 0x105C
  entries := [.named 0x104C "ShellExecuteW",.ordinal 7]

/-- The descriptor and the one that closes the table, the two names, and the table of functions. -/
def shellTables (width : Nat) (origin thunkOrigin flag attributes : Nat) : List UInt8 :=
  digits 4 attributes ++ digits 4 (origin + 0x1040) ++ zeros 8 ++ digits 4 (origin + 0x105C) ++ zeros 44 ++
    Text.Utf8.encode "shell32.dll" ++ zeros 3 ++ Text.Utf8.encode "ShellExecuteW" ++ zeros 1 ++
    digits width (thunkOrigin + 0x104C) ++ digits width (flag + 7) ++ zeros width

def shellImage (is64 : Bool) (fields thunks : Form) : Image :=
  let empty : Image := ofParts is64 0x400000 [] [] []
  ofParts is64 0x400000 (List.replicate 13 ⟨0,0⟩ ++ [⟨0x1000,0x40⟩])
    [{ virtualAddress := 0x1000, virtualSize := 0x100, rawOffset := 0x160, rawSize := 0x100 }]
    (zeros (if is64 then 0 else 16) ++
      shellTables empty.thunkSize (fields.origin empty) (thunks.origin empty) empty.ordinalFlag fields.bit)

theorem shellImage_parsed (is64 : Bool) (fields thunks : Form) :
    parse (shellImage is64 fields thunks).bytes = .ok (shellImage is64 fields thunks) := by
  refine parse_ofParts ⟨?_,by decide,by decide,by decide,by decide⟩ _
  cases is64 <;> decide

theorem shellImage_stored (is64 : Bool) (fields thunks : Form) :
    Stored (shellImage is64 fields thunks) fields thunks [shellDescriptor] := by
  let image := shellImage is64 fields thunks
  have bit : fields.bit % 2 = fields.bit := by cases fields <;> rfl
  have stands : image.NumberAt 0x1000 4 fields.bit ∧ image.NumberAt 0x1004 4 (fields.origin image + 0x1040) ∧
      image.TextAt 0x1040 "shell32.dll" ∧ image.NumberAt 0x1010 4 (fields.origin image + 0x105C) ∧
      Table (Entry.Stands image thunks) (fun place => image.NumberAt place image.thunkSize 0) 0x105C image.thunkSize
        shellDescriptor.entries ∧ image.NumberAt 0x1020 4 0 ∧ image.NumberAt 0x1024 4 0 := by
    cases is64 <;> cases fields <;> cases thunks <;> decide +kernel
  obtain ⟨attributes,nameField,name,tableField,table,ended⟩ := stands
  refine ⟨fun index less _ => ?_,fun _ => ⟨⟨0,ended.1⟩,ended.2⟩⟩
  obtain rfl : index = 0 := Nat.lt_one_iff.mp less
  exact ⟨⟨_,bit,attributes⟩,⟨Nat.succ_pos _,nameField⟩,name,tableField,table⟩

def shellImports : ImportDescriptor where
  dll := "shell32.dll"
  delay := true
  functions := [⟨some "ShellExecuteW",none⟩,⟨none,some 7⟩]

theorem delayImports_of_stored_shell :
    Stored (shellImage true .relative .relative) .relative .relative [shellDescriptor] ∧
      (shellImage true .relative .relative).delayImports = .ok [shellImports] ∧
      Stored (shellImage false .relative .relative) .relative .relative [shellDescriptor] ∧
      (shellImage false .relative .relative).delayImports = .ok [shellImports] := by
  have wide := shellImage_stored true .relative .relative
  have narrow := shellImage_stored false .relative .relative
  exact ⟨wide,delayImports_of_stored wide (by decide) (by decide),
    narrow,delayImports_of_stored narrow (by decide) (by decide)⟩

/-- The older form, with absolute addresses in the descriptors, reads like the newer one when the tables of functions
have relative addresses. When these are absolute too, it does so only if each name is also found where its absolute
address would lead as a relative one; so for functions without names. -/
theorem delayImports_of_older (old : Stored older .absolute thunks descriptors)
    (new : Stored newer .relative .relative descriptors) :
    (older.delayImports = newer.delayImports ↔
      ∀ descriptor ∈ descriptors.take tableLimit, ∀ hint text,
        .named hint text ∈ descriptor.entries.take tableLimit →
          older.cStringAt (thunks.origin older + hint + 2) = .ok text) ∧
      (thunks = .relative → older.delayImports = newer.delayImports) := by
  have read := (delayImports_eq_ok_iff new).mpr (names_of_stored new)
  rw [read,delayImports_eq_ok_iff old]
  refine ⟨Iff.rfl,?_⟩
  rintro rfl
  exact names_of_stored old

theorem delayImports_of_older_shell : Stored (shellImage false .absolute .relative) .absolute .relative [shellDescriptor] ∧
    Stored (shellImage false .relative .relative) .relative .relative [shellDescriptor] ∧
    (shellImage false .absolute .relative).delayImports = (shellImage false .relative .relative).delayImports := by
  have older := shellImage_stored false .absolute .relative
  have newer := shellImage_stored false .relative .relative
  exact ⟨older,newer,(delayImports_of_older older newer).2 rfl⟩

theorem shellImage_nowhere : (shellImage false .absolute .absolute).cStringAt 0x40104E =
    .error (.notMapped "string" 0x40104E) := by
  have nowhere : (shellImage false .absolute .absolute).offset? 0x40104E = none := by decide +kernel
  rw [cStringAt,offsetOf,nowhere]
  rfl

/-- With absolute addresses in the tables of functions too, their names are lost, and with them the whole list. -/
theorem absolute_names_lost :
    parse (shellImage false .absolute .absolute).bytes = .ok (shellImage false .absolute .absolute) ∧
    Stored (shellImage false .absolute .absolute) .absolute .absolute [shellDescriptor] ∧
    parse (shellImage false .relative .relative).bytes = .ok (shellImage false .relative .relative) ∧
    Stored (shellImage false .relative .relative) .relative .relative [shellDescriptor] ∧
    (shellImage false .relative .relative).delayImports = .ok [shellImports] ∧
    (shellImage false .absolute .absolute).delayImports = .error (.notMapped "string" 0x40104E) := by
  have older := shellImage_stored false .absolute .absolute
  have newer := shellImage_stored false .relative .relative
  refine ⟨shellImage_parsed _ _ _,older,shellImage_parsed _ _ _,newer,?_,?_⟩
  · exact (delayImports_eq_ok_iff newer).mpr (names_of_stored newer)
  · have first : Entry.read (shellImage false .absolute .absolute) .absolute (.named 0x104C "ShellExecuteW") =
        .error (.notMapped "string" 0x40104E) := by
      have place : Form.absolute.origin (shellImage false .absolute .absolute) + 0x104C + 2 = 0x40104E := rfl
      rw [Entry.read,place,shellImage_nowhere]
      rfl
    rw [delayImports_eq older]
    simp only [shellDescriptor,Descriptor.read,tableLimit,List.take_succ_cons,List.take_nil,List.mapM_cons,first,bind,
      Except.bind]

end Forms

end Delayed
end LoadMap.Image
