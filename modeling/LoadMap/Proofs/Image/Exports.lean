import LoadMap.Binary
import LoadMap.Proofs.ApiSet.Schema
import LoadMap.Proofs.Bytes.Table
import LoadMap.Proofs.Image.Headers
import LoadMap.Proofs.Text.Utf8

/-! The export listing of an image against its export directory: one symbol for each function that has an address, or
none at all when something in the directory cannot be read. -/
namespace LoadMap.Image.ExportTable

open Bytes (littleEndian bind_eq_ok_iff)

section Directory

/-- An export directory: its place, its fields, and the tables they lead to. -/
structure Directory where
  address : Nat
  size : Nat
  nameAddress : Nat
  base : Nat
  functions : List Nat
  /-- The address of each name, with the index of the function it names. -/
  names : List (Nat × Nat)

namespace Directory

def TablesAt (view : SectionView) (directory : Directory) (header : ByteArray) : Prop :=
  littleEndian header 12 4 = directory.nameAddress ∧ littleEndian header 16 4 = directory.base ∧
    view.table? (littleEndian header 28 4) 4 (littleEndian header 20 4) = some directory.functions ∧
    ∃ places ∈ view.table? (littleEndian header 32 4) 4 (littleEndian header 24 4),
    ∃ indices ∈ view.table? (littleEndian header 36 4) 2 (littleEndian header 24 4),
      places.zip indices = directory.names

/-- The directory can be opened: it stands in the image, and so do its tables. -/
def Stands (view : SectionView) (directory : Directory) : Prop :=
  view.directory? exportDirectory = some (directory.address,directory.size) ∧ directory.address ≠ 0 ∧
    ∃ header ∈ view.tail? directory.address 40 4, directory.TablesAt view header

instance (view : SectionView) (directory : Directory) (header : ByteArray) :
    Decidable (directory.TablesAt view header) :=
  inferInstanceAs (Decidable (_ ∧ _ ∧ _ ∧ ∃ places ∈ _, ∃ indices ∈ _, List.zip places indices = _))

instance (view : SectionView) (directory : Directory) : Decidable (directory.Stands view) :=
  inferInstanceAs (Decidable (_ ∧ _ ∧ ∃ header ∈ _, directory.TablesAt view header))

/-- What lies in the directory is no function, but tells where one is. -/
def Inside (directory : Directory) (address : Nat) : Prop :=
  directory.address ≤ address ∧ address < directory.address + directory.size

instance (directory : Directory) (address : Nat) : Decidable (directory.Inside address) :=
  inferInstanceAs (Decidable (_ ∧ _))

/-- The address of the name of a function; of several names the first counts. -/
def nameAt? (directory : Directory) (index : Nat) : Option Nat :=
  (directory.names.find? (·.2 = index)).map (·.1)

def forwarderAt? (directory : Directory) (address : Nat) : Option Nat :=
  if directory.Inside address then some address else none

/-- All that has to be a text is one, and all numbers are words. -/
structure Readable (view : SectionView) (directory : Directory) : Prop where
  name : directory.nameAddress ≠ 0 → ∃ text, view.cString? directory.nameAddress = some text
  names : ∀ name ∈ directory.names, name.2 < directory.functions.length → ∃ text, view.cString? name.1 = some text
  forwarders : ∀ address ∈ directory.functions, address ≠ 0 → directory.Inside address →
    ∃ text, view.cString? address = some text
  ordinals : ∀ index address, directory.functions[index]? = some address → address ≠ 0 →
    directory.base + index < Word.limit 32

/-- The text at an address; no text where there is no address. -/
def Spelled (view : SectionView) (text? : Option String) : Option Nat → Prop
  | none => text? = none
  | some address => ∃ text, view.cString? address = some text ∧ text? = some text

/-- The symbol of the function with the given index. -/
structure Exports (view : SectionView) (directory : Directory) (index : Nat) (symbol : ExportedSymbol) : Prop where
  address : directory.functions[index]? = some symbol.address
  filled : symbol.address ≠ 0
  ordinal : symbol.ordinal = directory.base + index
  name : Spelled view symbol.name? (directory.nameAt? index)
  forwarder : Spelled view symbol.forwardedTo? (directory.forwarderAt? symbol.address)

/-- The functions that have an address, each once and in order. -/
structure Listed (view : SectionView) (directory : Directory) (symbols : List ExportedSymbol) : Prop where
  ordered : symbols.Pairwise (·.ordinal < ·.ordinal)
  sound : ∀ symbol ∈ symbols, ∃ index, directory.Exports view index symbol
  complete : ∀ index address, directory.functions[index]? = some address → address ≠ 0 →
    ∃ symbol ∈ symbols, directory.Exports view index symbol

end Directory
end Directory

section Reading

variable {view : SectionView} {directory : Directory}

def Directory.contents (view : SectionView) (directory : Directory) : Contents where
  dllName? := view.cString? directory.nameAddress
  base := directory.base
  address := directory.address
  size := directory.size
  functions := directory.functions
  names := directory.names

theorem named_iff {address : Nat} {text? : Option String} :
    (address ≠ 0 → ∃ text, text? = some text) ↔ ¬ (text?.isNone = true ∧ address ≠ 0) := by
  cases text? <;> simp

theorem contents_eq_ok_iff (stands : directory.Stands view) {contents? : Option Contents} :
    contents view = .ok contents? ↔
      (directory.nameAddress ≠ 0 → ∃ text, view.cString? directory.nameAddress = some text) ∧
        contents? = some (directory.contents view) := by
  obtain ⟨listed,placed,header,found,named,based,functions,places,placesAt,indices,indicesAt,names⟩ := stands
  rw [contents,listed]
  -- Neither of the first two cases is there: no directory, and one at the address zero.
  split
  · rename_i same
    cases same
  · rename_i same
    obtain ⟨zero,-⟩ := Prod.mk.inj (Option.some.inj same)
    exact absurd zero placed
  · rename_i address size _ same
    obtain ⟨rfl,rfl⟩ := Prod.mk.inj (Option.some.inj same)
    simp only [Option.mem_def.mp found,functions,Option.mem_def.mp placesAt,Option.mem_def.mp indicesAt,named,based,
      names]
    rw [named_iff]
    split
    · rename_i missing
      exact iff_of_false nofun fun named => named.1 missing
    · rename_i named
      rw [Except.ok.injEq,eq_comm,and_iff_right named]
      rfl

theorem forwarder_eq_ok_iff {address : Nat} {text? : Option String} :
    forwarder view (directory.contents view) address = .ok text? ↔
      (directory.Inside address → ∃ text, view.cString? address = some text) ∧
        text? = (directory.forwarderAt? address).bind view.cString? := by
  have inside_iff : (directory.address ≤ address ∧ address - directory.address < directory.size) ↔
      directory.Inside address := by
    rw [Directory.Inside]
    omega
  rw [forwarder,Directory.forwarderAt?]
  simp only [Directory.contents,inside_iff]
  by_cases inside : directory.Inside address
  · rw [if_pos inside,if_pos inside,Option.bind_some]
    cases view.cString? address <;> simp [SectionView.refuse,inside,eq_comm]
  · rw [if_neg inside,if_neg inside,Option.bind_none,Except.ok.injEq,eq_comm]
    exact (and_iff_right fun there => absurd there inside).symm

/-- What comes of the entry of a function, with its index. -/
def Directory.symbolAt (view : SectionView) (directory : Directory) (names : List (Nat × String)) (entry : Nat × Nat) :
    Option ExportedSymbol :=
  if entry.1 = 0 then none
  else some {
    ordinal := directory.base + entry.2, name? := names.lookup entry.2, address := entry.1
    forwardedTo? := (directory.forwarderAt? entry.1).bind view.cString? }

theorem symbolOf_eq_ok_iff {names : List (Nat × String)} {entry : Nat × Nat} {symbol? : Option ExportedSymbol} :
    symbolOf view (directory.contents view) names entry.2 entry.1 = .ok symbol? ↔
      (entry.1 ≠ 0 → (directory.Inside entry.1 → ∃ text, view.cString? entry.1 = some text) ∧
        directory.base + entry.2 < Word.limit 32) ∧ symbol? = directory.symbolAt view names entry := by
  rw [symbolOf,Directory.symbolAt]
  by_cases gap : entry.1 = 0
  · rw [if_pos gap,if_pos gap]
    exact ⟨fun made => ⟨fun filled => absurd gap filled,(Except.ok.inj made).symm⟩,fun made => made.2 ▸ rfl⟩
  · rw [if_neg gap,if_neg gap,bind_eq_ok_iff]
    simp only [forwarder_eq_ok_iff,ne_eq,gap,not_false_eq_true,forall_const]
    by_cases word : directory.base + entry.2 < Word.limit 32
    · have small : (directory.contents view).base + entry.2 < Word.limit 32 := word
      simp only [small,if_true]
      constructor
      · rintro ⟨_,⟨read,rfl⟩,made⟩
        exact ⟨⟨read,word⟩,(Except.ok.inj made).symm⟩
      · rintro ⟨⟨read,-⟩,rfl⟩
        exact ⟨_,⟨read,rfl⟩,rfl⟩
    · have large : ¬ (directory.contents view).base + entry.2 < Word.limit 32 := word
      simp only [large,if_false]
      refine iff_of_false ?_ fun made => word made.1.2
      rintro ⟨_,-,made⟩
      cases made

/-- The names with an index that counts, each read. -/
def Directory.readNames (view : SectionView) (directory : Directory) : List (Nat × String) :=
  (directory.names.filter (·.2 < directory.functions.length)).map fun name => (name.2,(view.cString? name.1).getD "")

theorem readNames_eq_ok_iff {names : List (Nat × String)} : readNames view (directory.contents view) = .ok names ↔
    (∀ name ∈ directory.names, name.2 < directory.functions.length → ∃ text, view.cString? name.1 = some text) ∧
      names = directory.readNames view := by
  rw [readNames]
  refine (Bytes.mapM_eq_ok_iff_of_each (fun name => ∃ text, view.cString? name.1 = some text)
    (fun name => (name.2,(view.cString? name.1).getD "")) fun name read => ?_).trans (and_congr_left fun _ => ?_)
  · dsimp only
    cases view.cString? name.1 <;> simp [SectionView.refuse,eq_comm]
  · simp only [List.mem_filter,decide_eq_true_eq,and_imp]
    rfl

theorem lookup_readNames {index : Nat} (inside : index < directory.functions.length) :
    (directory.readNames view).lookup index =
      (directory.nameAt? index).map fun address => (view.cString? address).getD "" := by
  rw [Directory.readNames,Directory.nameAt?,Option.map_map]
  -- Only names of other indices are left out, so the first name of this index stays the first.
  induction directory.names with
  | nil => rfl
  | cons name names ih =>
    rw [List.find?_cons]
    by_cases named : name.2 = index
    · subst named
      rw [List.filter_cons_of_pos (by simpa using inside),List.map_cons,List.lookup_cons]
      simp
    · simp only [named,decide_false]
      rw [← ih,List.filter_cons]
      split
      · rw [List.map_cons,List.lookup_cons]
        have other : (index == name.2) = false := beq_false_of_ne (Ne.symm named)
        simp only [other]
      · rfl

/-- The symbols in the order of their functions. -/
def Directory.symbols (view : SectionView) (directory : Directory) : List ExportedSymbol :=
  directory.functions.zipIdx.filterMap (directory.symbolAt view (directory.readNames view))

/-- What is asked of the functions, entry by entry. -/
theorem each_entry_iff : (∀ entry ∈ directory.functions.zipIdx, entry.1 ≠ 0 →
      (directory.Inside entry.1 → ∃ text, view.cString? entry.1 = some text) ∧
        directory.base + entry.2 < Word.limit 32) ↔
    (∀ address ∈ directory.functions, address ≠ 0 → directory.Inside address →
        ∃ text, view.cString? address = some text) ∧
      ∀ index address, directory.functions[index]? = some address → address ≠ 0 →
        directory.base + index < Word.limit 32 := by
  constructor
  · intro each
    refine ⟨fun address listed filled => ?_,fun index address found filled => ?_⟩
    · obtain ⟨index,found⟩ := List.mem_iff_getElem?.mp listed
      exact (each (address,index) (List.mem_zipIdx_iff_getElem?.mpr found) filled).1
    · exact (each (address,index) (List.mem_zipIdx_iff_getElem?.mpr found) filled).2
  · rintro ⟨forwarders,ordinals⟩ entry listed filled
    have found := List.mem_zipIdx_iff_getElem?.mp listed
    exact ⟨forwarders entry.1 (List.mem_of_getElem? found) filled,ordinals entry.2 entry.1 found filled⟩

instance (view : SectionView) (directory : Directory) : Decidable (directory.Readable view) := by
  refine decidable_of_iff
    ((directory.nameAddress ≠ 0 → (view.cString? directory.nameAddress).isSome) ∧
      (∀ name ∈ directory.names, name.2 < directory.functions.length → (view.cString? name.1).isSome) ∧
      ∀ entry ∈ directory.functions.zipIdx, entry.1 ≠ 0 →
        (directory.Inside entry.1 → (view.cString? entry.1).isSome) ∧ directory.base + entry.2 < Word.limit 32) ?_
  simp only [Option.isSome_iff_exists]
  rw [each_entry_iff]
  exact ⟨fun ⟨name,names,forwarders,ordinals⟩ => ⟨name,names,forwarders,ordinals⟩,
    fun ⟨name,names,forwarders,ordinals⟩ => ⟨name,names,forwarders,ordinals⟩⟩

theorem read_eq_ok_iff (stands : directory.Stands view) {answer : Option String × List ExportedSymbol} :
    read view = .ok answer ↔
      directory.Readable view ∧ answer = (view.cString? directory.nameAddress,directory.symbols view) := by
  have symbols_eq : ((directory.contents view).functions.zipIdx.map fun entry =>
      directory.symbolAt view (directory.readNames view) entry).filterMap id = directory.symbols view := by
    rw [List.filterMap_map]
    rfl
  rw [read,bind_eq_ok_iff]
  constructor
  · rintro ⟨_,opened,made⟩
    obtain ⟨name,rfl⟩ := (contents_eq_ok_iff stands).mp opened
    obtain ⟨_,namesRead,made⟩ := bind_eq_ok_iff.mp made
    obtain ⟨names,rfl⟩ := readNames_eq_ok_iff.mp namesRead
    obtain ⟨_,symbolsRead,made⟩ := bind_eq_ok_iff.mp made
    obtain ⟨each,rfl⟩ := (Bytes.mapM_eq_ok_iff_of_each _ _ fun _ _ => symbolOf_eq_ok_iff).mp symbolsRead
    obtain ⟨forwarders,ordinals⟩ := each_entry_iff.mp each
    rw [symbols_eq] at made
    exact ⟨⟨name,names,forwarders,ordinals⟩,(Except.ok.inj made).symm⟩
  · rintro ⟨readable,rfl⟩
    refine ⟨_,(contents_eq_ok_iff stands).mpr ⟨readable.name,rfl⟩,?_⟩
    refine bind_eq_ok_iff.mpr ⟨_,readNames_eq_ok_iff.mpr ⟨readable.names,rfl⟩,?_⟩
    refine bind_eq_ok_iff.mpr ⟨_,(Bytes.mapM_eq_ok_iff_of_each _ _ fun _ _ => symbolOf_eq_ok_iff).mpr ⟨?_,rfl⟩,?_⟩
    · exact each_entry_iff.mpr ⟨readable.forwarders,readable.ordinals⟩
    · rw [symbols_eq]
      rfl

end Reading

section Listing

variable {view : SectionView} {directory : Directory}

theorem spelled_iff {address? : Option Nat} {text? : Option String}
    (readable : ∀ address ∈ address?, ∃ text, view.cString? address = some text) :
    Directory.Spelled view text? address? ↔ text? = address?.bind view.cString? := by
  cases address? with
  | none => rfl
  | some address =>
    obtain ⟨text,read⟩ := readable address rfl
    simp [Directory.Spelled,read]

theorem pairwise_zipIdx (functions : List Nat) : functions.zipIdx.Pairwise (·.2 < ·.2) := by
  rw [← List.pairwise_map,List.zipIdx_map_snd]
  exact List.pairwise_lt_range'

theorem name_iff (readable : directory.Readable view) {index : Nat} (inside : index < directory.functions.length)
    {name? : Option String} :
    Directory.Spelled view name? (directory.nameAt? index) ↔ name? = (directory.readNames view).lookup index := by
  have known : ∀ address ∈ directory.nameAt? index, ∃ text, view.cString? address = some text := by
    intro address named
    obtain ⟨name,found,rfl⟩ := Option.map_eq_some_iff.mp (Option.mem_def.mp named)
    have same : name.2 = index := by simpa using List.find?_some found
    exact readable.names name (List.mem_of_find?_eq_some found) (same ▸ inside)
  rw [spelled_iff known,lookup_readNames inside]
  cases named : directory.nameAt? index with
  | none => rfl
  | some address =>
    obtain ⟨text,read⟩ := known address named
    simp [read]

theorem forwarder_iff (readable : directory.Readable view) {address : Nat} (listed : address ∈ directory.functions)
    (filled : address ≠ 0) {text? : Option String} : Directory.Spelled view text? (directory.forwarderAt? address) ↔
      text? = (directory.forwarderAt? address).bind view.cString? := by
  refine spelled_iff fun other there => ?_
  rw [Directory.forwarderAt?] at there
  split at there
  · rename_i inside
    cases there
    exact readable.forwarders address listed filled inside
  · cases there

theorem exports_iff (readable : directory.Readable view) {index : Nat} {symbol : ExportedSymbol} :
    directory.Exports view index symbol ↔ ∃ address, directory.functions[index]? = some address ∧
      directory.symbolAt view (directory.readNames view) (address,index) = some symbol := by
  constructor
  · rintro ⟨found,filled,ordinal,name,forwarder⟩
    have inside := (List.getElem?_eq_some_iff.mp found).1
    rw [name_iff readable inside] at name
    rw [forwarder_iff readable (List.mem_of_getElem? found) filled] at forwarder
    refine ⟨_,found,?_⟩
    rw [Directory.symbolAt,if_neg filled,← ordinal,← name,← forwarder]
  · rintro ⟨address,found,made⟩
    rw [Directory.symbolAt] at made
    split at made
    · cases made
    · rename_i filled
      cases made
      have inside := (List.getElem?_eq_some_iff.mp found).1
      exact ⟨found,filled,rfl,(name_iff readable inside).mpr rfl,
        (forwarder_iff readable (List.mem_of_getElem? found) filled).mpr rfl⟩

theorem listed_symbols (readable : directory.Readable view) : directory.Listed view (directory.symbols view) where
  ordered := by
    refine (pairwise_zipIdx directory.functions).filterMap _ ?_
    intro one other before symbol made later also
    rw [Directory.symbolAt] at made also
    split at made
    · cases made
    split at also
    · cases also
    cases made
    cases also
    exact Nat.add_lt_add_left before _
  sound symbol listed := by
    obtain ⟨entry,entered,made⟩ := List.mem_filterMap.mp listed
    exact ⟨entry.2,(exports_iff readable).mpr ⟨entry.1,List.mem_zipIdx_iff_getElem?.mp entered,made⟩⟩
  complete index address found filled := by
    obtain ⟨symbol,made⟩ : ∃ symbol, directory.symbolAt view (directory.readNames view) (address,index) = some symbol :=
      ⟨_,if_neg filled⟩
    have entered : (address,index) ∈ directory.functions.zipIdx := List.mem_zipIdx_iff_getElem?.mpr found
    exact ⟨symbol,List.mem_filterMap.mpr ⟨_,entered,made⟩,(exports_iff readable).mpr ⟨address,found,made⟩⟩

end Listing
end LoadMap.Image.ExportTable

namespace LoadMap.Binary

open LoadMap.Image
open Bytes (bind_eq_ok_iff)
open ApiSet (ofFault_eq_ok_iff)

/-- What all readers but that of the exports make of a file. -/
structure Readings (content : ByteArray) where
  loader : LoaderView
  table : List TableImport
  image : Image
  sections : SectionView
  delayed : List ImportDescriptor
  schema? : Option ApiSetMap
  begins : Bytes.startsWith content dosSignature = true
  loads : LoaderView.parse content = .ok (.view loader)
  tableRead : ImportTable.read loader = .ok table
  runtime : ImportTable.checkRuntime loader = .ok ()
  resources : ImportTable.checkResources loader = .ok ()
  parsed : Image.parse content = .ok image
  sectionsRead : SectionView.parse content = .ok sections
  delayedRead : image.delayImports = .ok delayed
  schemaRead : schemaOf loader = .ok schema?

variable {content : ByteArray}

def Readings.binary (readings : Readings content) (path : Path) (dllName? : Option String)
    (exports : List ExportedSymbol) : Binary where
  path := path
  recognized := true
  is64 := readings.image.is64
  dllName? := dllName?
  imports := groupImports readings.table ++ readings.delayed
  exports := exports
  manifest? := Resource.manifest? readings.sections
  schema? := readings.schema?

theorem Readings.ofBytes_eq (readings : Readings content) (path : Path) : ofBytes path content =
    .ok (readings.binary path (exportsOf readings.sections).1 (exportsOf readings.sections).2) := by
  rw [ofBytes,if_pos readings.begins,readings.loads]
  simp only [bind,Except.bind,readings.tableRead,readings.runtime,readings.resources,readings.parsed,
    readings.sectionsRead,readings.delayedRead,readings.schemaRead,Result.ofFault]
  rfl

theorem exists_readings {path : Path} {binary : Binary} (made : ofBytes path content = .ok binary)
    (recognized : binary.recognized = true) : Nonempty (Readings content) := by
  rw [ofBytes] at made
  split at made
  · rename_i begins
    obtain ⟨loads,loaded,made⟩ := bind_eq_ok_iff.mp made
    cases loads with
    | otherFormat =>
      cases made
      cases recognized
    | view loader =>
      obtain ⟨table,tableRead,made⟩ := bind_eq_ok_iff.mp made
      obtain ⟨_,runtime,made⟩ := bind_eq_ok_iff.mp made
      obtain ⟨_,resources,made⟩ := bind_eq_ok_iff.mp made
      obtain ⟨image,parsed,made⟩ := bind_eq_ok_iff.mp made
      obtain ⟨sections,sectionsRead,made⟩ := bind_eq_ok_iff.mp made
      obtain ⟨delayed,delayedRead,made⟩ := bind_eq_ok_iff.mp made
      obtain ⟨schema?,schemaRead,-⟩ := bind_eq_ok_iff.mp made
      exact ⟨{
        loader,table,image,sections,delayed,schema?,begins,tableRead,runtime,resources,sectionsRead,schemaRead
        loads := loaded,parsed := ofFault_eq_ok_iff.mp parsed,delayedRead := ofFault_eq_ok_iff.mp delayedRead }⟩
  · cases made
    cases recognized

theorem Readings.holds (readings : Readings content) (property : SectionView → Prop) [DecidablePred property]
    (all : (SectionView.parse content).toOption.all (fun view => decide (property view)) = true) :
    property readings.sections := by
  simpa [readings.sectionsRead,Except.toOption] using all

/-- A file with the given sections is taken with this listing, unless another part of it fails; what is said of the
other parts does not depend on the listing. -/
def TakenWith (view : SectionView) (dllName? : Option String) (exports : List ExportedSymbol) : Prop :=
  ∀ (content : ByteArray) (readings : Readings content) (path : Path), readings.sections = view →
    ofBytes path content = .ok (readings.binary path dllName? exports)

theorem takenWith_exportsOf (view : SectionView) : TakenWith view (exportsOf view).1 (exportsOf view).2 := by
  rintro content readings path rfl
  exact readings.ofBytes_eq path

end LoadMap.Binary

namespace LoadMap.Image.ExportTable

open Binary (TakenWith takenWith_exportsOf Readings exists_readings)

theorem exports_listed {view : SectionView} {directory : Directory} (stands : directory.Stands view) :
    (directory.Readable view → ∃ symbols, directory.Listed view symbols ∧
      read view = .ok (view.cString? directory.nameAddress,symbols) ∧
      TakenWith view (view.cString? directory.nameAddress) symbols) ∧
    (¬ directory.Readable view → (∃ failure, read view = .error failure) ∧ TakenWith view none []) := by
  constructor
  · intro readable
    have made := (read_eq_ok_iff stands).mpr ⟨readable,rfl⟩
    have taken := takenWith_exportsOf view
    rw [Binary.exportsOf,made] at taken
    exact ⟨_,listed_symbols readable,made,taken⟩
  · intro unreadable
    cases made : read view with
    | ok answer => exact absurd ((read_eq_ok_iff stands).mp made).1 unreadable
    | error failure =>
      have taken := takenWith_exportsOf view
      rw [Binary.exportsOf,made] at taken
      exact ⟨⟨failure,rfl⟩,taken⟩

section Files

open Bytes (digits)

theorem exists_ok_of_any {α : Type} {outcome : Result α} {property : α → Prop} [DecidablePred property]
    (all : outcome.toOption.any (fun value => decide (property value)) = true) :
    ∃ value, outcome = .ok value ∧ property value := by
  cases outcome with
  | ok value => exact ⟨value,rfl,of_decide_eq_true all⟩
  | error failure => cases all

/-- A directory with the tables of three functions: one with a name, a gap, and one that another module has. -/
def threePart (base : Nat) : List UInt8 :=
  zeros 12 ++ [0x1048,base,3,3,0x1028,0x1034,0x1040].flatMap (digits 4) ++ [0x2000,0,0x1054].flatMap (digits 4) ++
    [0x104E,0x1048,0x9000].flatMap (digits 4) ++ [0,0,9].flatMap (digits 2) ++ zeros 2 ++
    Text.Utf8.encode "m.dll" ++ [0] ++ Text.Utf8.encode "Alpha" ++ [0] ++ Text.Utf8.encode "o.Real" ++ [0]

def threeFile (base : Nat) : ByteArray :=
  (ofParts false 0x400000 [⟨0x1000,0x5B⟩]
    [{ virtualAddress := 0x1000, virtualSize := 0x5B, rawOffset := 0xE8, rawSize := 0x5B }] (threePart base)).bytes

def three (base : Nat) : Directory where
  address := 0x1000
  size := 0x5B
  nameAddress := 0x1048
  base := base
  functions := [0x2000,0,0x1054]
  names := [(0x104E,0),(0x1048,0),(0x9000,9)]

def threeView (base : Nat) : SectionView where
  bytes := threeFile base
  directories := [(0x1000,0x5B)]
  sections := [{
    name := List.replicate 8 0, virtualAddress := 0x1000, virtualSize := 0x5B, rawOffset := 0xE8, rawSize := 0x5B }]

theorem exports_listed_three :
    (∃ readings : Readings (threeFile 5), (three 5).Stands readings.sections ∧ ∃ symbols,
      (three 5).Listed readings.sections symbols ∧
      symbols = [⟨5,some "Alpha",0x2000,none⟩,⟨7,none,0x1054,some "o.Real"⟩] ∧
      Binary.ofBytes ⟨"m"⟩ (threeFile 5) = .ok (readings.binary ⟨"m"⟩ (some "m.dll") symbols)) ∧
    (three 0xFFFFFFFE).Stands (threeView 0xFFFFFFFE) ∧ (∃ failure, read (threeView 0xFFFFFFFE) = .error failure) ∧
      TakenWith (threeView 0xFFFFFFFE) none [] := by
  constructor
  · have run : ∃ binary, Binary.ofBytes ⟨"m"⟩ (threeFile 5) = .ok binary ∧ binary.recognized = true ∧
        binary.dllName? = some "m.dll" ∧
        binary.exports = [⟨5,some "Alpha",0x2000,none⟩,⟨7,none,0x1054,some "o.Real"⟩] :=
      exists_ok_of_any (by decide +kernel)
    obtain ⟨binary,made,recognized,named,exports⟩ := run
    obtain ⟨readings⟩ := exists_readings made recognized
    obtain ⟨stands,readable⟩ :=
      readings.holds (fun view => (three 5).Stands view ∧ (three 5).Readable view) (by decide +kernel)
    obtain ⟨symbols,listed,-,taken⟩ := (exports_listed stands).1 readable
    have same := taken _ readings ⟨"m"⟩ rfl
    obtain rfl := Except.ok.inj (made.symm.trans same)
    exact ⟨readings,stands,symbols,listed,exports,by rw [same,← named]; rfl⟩
  · have stands : (three 0xFFFFFFFE).Stands (threeView 0xFFFFFFFE) := by decide +kernel
    exact ⟨stands,(exports_listed stands).2 (by decide +kernel)⟩

end Files
end LoadMap.Image.ExportTable
