import LoadMap.Image.DelayImport
import LoadMap.Image.Runtime
import LoadMap.Proofs.Bytes.Range

/-! Whatever bytes an image is read from: offsets stay within their words, reads within the file, and a table is
read whole or not at all. -/
namespace LoadMap.Image

open Bytes (InRange Whole inRange_number inRange_sum inRange_entry inRange_cString bind_eq_ok_iff sum_value
  number_bounds)
open Word (limit_64)

variable {bytes : ByteArray} {image : Image}

theorem u32_lt {offset value : Nat} (read : Bytes.u32 bytes offset = .ok value) : value < 4294967296 :=
  (number_bounds read).2

theorem u16_lt {offset value : Nat} (read : Bytes.u16 bytes offset = .ok value) : value < 65536 :=
  (number_bounds read).2

section Parse

theorem directoryAt_inRange {table index : Nat} (small : table + 8 * index + 4 < Word.limit 64) :
    InRange (directoryAt bytes table index) := by
  rw [directoryAt]
  refine (inRange_entry (by omega)).bind fun entry made => inRange_number.bind fun address _ => ?_
  obtain rfl := (Bytes.entry_eq_ok_iff.mp made).2
  exact (inRange_sum small).bind fun place _ => inRange_number.bind fun size _ => failsOnly_ok _

theorem sectionAt_inRange {table index : Nat} (small : table + 40 * index + 20 < Word.limit 64) :
    InRange (sectionAt bytes table index) := by
  rw [sectionAt]
  refine (inRange_entry (by omega)).bind fun entry made => ?_
  obtain rfl := (Bytes.entry_eq_ok_iff.mp made).2
  refine (inRange_sum (by omega)).bind fun _ _ => inRange_number.bind fun _ _ => ?_
  refine (inRange_sum (by omega)).bind fun _ _ => inRange_number.bind fun _ _ => ?_
  refine (inRange_sum (by omega)).bind fun _ _ => inRange_number.bind fun _ _ => ?_
  exact (inRange_sum small).bind fun _ _ => inRange_number.bind fun _ _ => failsOnly_ok _

theorem optionalHeader_inRange {header : Nat} (small : header + 108 < Word.limit 64) :
    InRange (optionalHeader bytes header) := by
  rw [optionalHeader]
  refine inRange_number.bind fun magic _ => ?_
  split
  · refine (inRange_sum (by omega)).bind fun _ _ => inRange_number.bind fun base _ => ?_
    exact (inRange_sum (by omega)).bind fun place _ => failsOnly_ok _
  · refine (inRange_sum (by omega)).bind fun _ _ => inRange_number.bind fun base _ => ?_
    exact (inRange_sum small).bind fun place _ => failsOnly_ok _
  · exact failsOnly_error (by simp)

/-- The two forms of the optional header: a magic number, the preferred address, and behind it the number of
directories. -/
inductive OptionalAt (bytes : ByteArray) (header : Nat) : (is64 : Bool) → (base countOffset : Nat) → Prop
  | narrow {base : Nat} (magic : Bytes.u16 bytes header = .ok 0x10B)
      (preferred : Bytes.u32 bytes (header + 28) = .ok base) : OptionalAt bytes header false base (header + 92)
  | wide {base : Nat} (magic : Bytes.u16 bytes header = .ok 0x20B)
      (preferred : Bytes.u64 bytes (header + 24) = .ok base) : OptionalAt bytes header true base (header + 108)

theorem optionalHeader_ok {header base countOffset : Nat} {is64 : Bool}
    (read : optionalHeader bytes header = .ok (is64,base,countOffset)) :
    OptionalAt bytes header is64 base countOffset := by
  obtain ⟨magic,known,read⟩ := bind_eq_ok_iff.mp read
  split at read
  · obtain ⟨place,made,read⟩ := bind_eq_ok_iff.mp read
    obtain rfl := sum_value made
    obtain ⟨value,number,read⟩ := bind_eq_ok_iff.mp read
    obtain ⟨stop,made,read⟩ := bind_eq_ok_iff.mp read
    obtain rfl := sum_value made
    cases read
    exact .narrow known number
  · obtain ⟨place,made,read⟩ := bind_eq_ok_iff.mp read
    obtain rfl := sum_value made
    obtain ⟨value,number,read⟩ := bind_eq_ok_iff.mp read
    obtain ⟨stop,made,read⟩ := bind_eq_ok_iff.mp read
    obtain rfl := sum_value made
    cases read
    exact .wide known number
  · cases read

theorem OptionalAt.bounds {header base countOffset : Nat} {is64 : Bool}
    (stands : OptionalAt bytes header is64 base countOffset) :
    base < Word.limit 64 ∧ countOffset ≤ header + 108 := by
  cases stands with
  | narrow magic preferred =>
    have low := u32_lt preferred
    rw [limit_64]
    omega
  | wide magic preferred => exact ⟨(number_bounds preferred).2,Nat.le_refl _⟩

theorem parse_inRange (bytes : ByteArray) : InRange (parse bytes) := by
  have limit := limit_64
  rw [parse]
  split
  · refine inRange_number.bind fun start first => ?_
    have low := u32_lt first
    refine (inRange_sum (by omega)).bind fun fileHeader made => ?_
    obtain rfl := sum_value made
    split
    · refine (inRange_sum (by omega)).bind fun _ _ => inRange_number.bind fun sectionCount second => ?_
      refine (inRange_sum (by omega)).bind fun _ _ => inRange_number.bind fun headerSize third => ?_
      have few := u16_lt second
      have short := u16_lt third
      refine (inRange_sum (by omega)).bind fun header made => ?_
      obtain rfl := sum_value made
      refine (optionalHeader_inRange (by omega)).bind fun parts read => ?_
      obtain ⟨is64,base,countOffset⟩ := parts
      have near := (optionalHeader_ok read).bounds.2
      refine inRange_number.bind fun count _ => (inRange_sum (by omega)).bind fun table made => ?_
      obtain rfl := sum_value made
      refine FailsOnly.bind (failsOnly_mapM fun index listed => directoryAt_inRange ?_) fun directories _ => ?_
      · have less := List.mem_range.mp listed
        omega
      refine (inRange_sum (by omega)).bind fun sectionTable made => ?_
      obtain rfl := sum_value made
      refine FailsOnly.bind (failsOnly_mapM fun index listed => sectionAt_inRange ?_) fun sections _ => failsOnly_ok _
      have less := List.mem_range.mp listed
      omega
    · exact failsOnly_error (by simp)
  · exact failsOnly_error (by simp)

/-- A directory and a section as they stand in their tables. -/
structure DirectoryAt (bytes : ByteArray) (entry : Nat) (directory : Directory) : Prop where
  address : Bytes.u32 bytes entry = .ok directory.address
  size : Bytes.u32 bytes (entry + 4) = .ok directory.size

structure SectionAt (bytes : ByteArray) (header : Nat) (part : Section) : Prop where
  virtualSize : Bytes.u32 bytes (header + 8) = .ok part.virtualSize
  virtualAddress : Bytes.u32 bytes (header + 12) = .ok part.virtualAddress
  rawSize : Bytes.u32 bytes (header + 16) = .ok part.rawSize
  rawOffset : Bytes.u32 bytes (header + 20) = .ok part.rawOffset

/-- What is known of an image whose headers could be read. Each number fits its field; and the directories and
sections are all those that the headers announce. -/
structure Headers (bytes : ByteArray) (image : Image) : Prop where
  file : image.bytes = bytes
  base : image.base < Word.limit 64
  directories : ∀ directory ∈ image.directories,
    directory.address < Word.limit 32 ∧ directory.size < Word.limit 32
  sections : ∀ part ∈ image.sections, part.virtualAddress < Word.limit 32 ∧ part.virtualSize < Word.limit 32 ∧
    part.rawOffset < Word.limit 32 ∧ part.rawSize < Word.limit 32
  complete : ∃ start sectionCount headerSize countOffset count,
    Bytes.u32 bytes 0x3C = .ok start ∧ Bytes.u16 bytes (start + 6) = .ok sectionCount ∧
      Bytes.u16 bytes (start + 20) = .ok headerSize ∧
      OptionalAt bytes (start + 24) image.is64 image.base countOffset ∧
      Bytes.u32 bytes countOffset = .ok count ∧
      image.directories.length = min count 16 ∧
      (∀ index directory, image.directories[index]? = some directory →
        DirectoryAt bytes (countOffset + 4 + 8 * index) directory) ∧
      image.sections.length = sectionCount ∧
      ∀ index part, image.sections[index]? = some part →
        SectionAt bytes (start + 24 + headerSize + 40 * index) part

theorem directoryAt_ok {table index : Nat} {directory : Directory}
    (read : directoryAt bytes table index = .ok directory) : DirectoryAt bytes (table + 8 * index) directory := by
  obtain ⟨entry,made,read⟩ := bind_eq_ok_iff.mp read
  obtain rfl := (Bytes.entry_eq_ok_iff.mp made).2
  obtain ⟨address,first,read⟩ := bind_eq_ok_iff.mp read
  obtain ⟨place,made,read⟩ := bind_eq_ok_iff.mp read
  obtain rfl := sum_value made
  obtain ⟨size,second,read⟩ := bind_eq_ok_iff.mp read
  cases read
  exact ⟨first,second⟩

theorem sectionAt_ok {table index : Nat} {part : Section} (read : sectionAt bytes table index = .ok part) :
    SectionAt bytes (table + 40 * index) part := by
  obtain ⟨header,made,read⟩ := bind_eq_ok_iff.mp read
  obtain rfl := (Bytes.entry_eq_ok_iff.mp made).2
  obtain ⟨place,made,read⟩ := bind_eq_ok_iff.mp read
  obtain rfl := sum_value made
  obtain ⟨virtualSize,first,read⟩ := bind_eq_ok_iff.mp read
  obtain ⟨place,made,read⟩ := bind_eq_ok_iff.mp read
  obtain rfl := sum_value made
  obtain ⟨virtualAddress,second,read⟩ := bind_eq_ok_iff.mp read
  obtain ⟨place,made,read⟩ := bind_eq_ok_iff.mp read
  obtain rfl := sum_value made
  obtain ⟨rawSize,third,read⟩ := bind_eq_ok_iff.mp read
  obtain ⟨place,made,read⟩ := bind_eq_ok_iff.mp read
  obtain rfl := sum_value made
  obtain ⟨rawOffset,fourth,read⟩ := bind_eq_ok_iff.mp read
  cases read
  exact ⟨first,second,third,fourth⟩

theorem headers_of_parse (read : parse bytes = .ok image) : Headers bytes image := by
  rw [parse] at read
  split at read
  · obtain ⟨start,startRead,read⟩ := bind_eq_ok_iff.mp read
    obtain ⟨fileHeader,made,read⟩ := bind_eq_ok_iff.mp read
    obtain rfl := sum_value made
    split at read
    · obtain ⟨place,made,read⟩ := bind_eq_ok_iff.mp read
      obtain rfl := sum_value made
      obtain ⟨sectionCount,sectionCountRead,read⟩ := bind_eq_ok_iff.mp read
      obtain ⟨place,made,read⟩ := bind_eq_ok_iff.mp read
      obtain rfl := sum_value made
      obtain ⟨headerSize,headerSizeRead,read⟩ := bind_eq_ok_iff.mp read
      obtain ⟨header,made,read⟩ := bind_eq_ok_iff.mp read
      obtain rfl := sum_value made
      obtain ⟨⟨is64,base,countOffset⟩,optionalRead,read⟩ := bind_eq_ok_iff.mp read
      obtain ⟨count,countRead,read⟩ := bind_eq_ok_iff.mp read
      obtain ⟨table,made,read⟩ := bind_eq_ok_iff.mp read
      obtain rfl := sum_value made
      obtain ⟨directories,directoriesRead,read⟩ := bind_eq_ok_iff.mp read
      obtain ⟨sectionTable,made,read⟩ := bind_eq_ok_iff.mp read
      obtain rfl := sum_value made
      obtain ⟨sections,sectionsRead,read⟩ := bind_eq_ok_iff.mp read
      have directoriesFull := Bytes.mapM_range_eq_ok_iff.mp directoriesRead
      have sectionsFull := Bytes.mapM_range_eq_ok_iff.mp sectionsRead
      cases read
      have optional := optionalHeader_ok optionalRead
      have eachDirectory : ∀ index directory, directories[index]? = some directory →
          DirectoryAt bytes (countOffset + 4 + 8 * index) directory :=
        fun index directory found => directoryAt_ok (directoriesFull.listed index directory found)
      have eachSection : ∀ index part, sections[index]? = some part →
          SectionAt bytes (start + 24 + headerSize + 40 * index) part :=
        fun index part found => sectionAt_ok (sectionsFull.listed index part found)
      refine ⟨rfl,optional.bounds.1,fun directory listed => ?_,fun part listed => ?_,
        start,sectionCount,headerSize,countOffset,count,startRead,sectionCountRead,headerSizeRead,optional,
        countRead,directoriesFull.count,eachDirectory,sectionsFull.count,eachSection⟩
      · obtain ⟨index,found⟩ := List.getElem?_of_mem listed
        have stands := eachDirectory index directory found
        exact ⟨u32_lt stands.address,u32_lt stands.size⟩
      · obtain ⟨index,found⟩ := List.getElem?_of_mem listed
        have stands := eachSection index part found
        exact ⟨u32_lt stands.virtualAddress,u32_lt stands.virtualSize,u32_lt stands.rawOffset,
          u32_lt stands.rawSize⟩
    · obtain ⟨_,thrown,-⟩ := bind_eq_ok_iff.mp read
      cases thrown
  · obtain ⟨_,thrown,-⟩ := bind_eq_ok_iff.mp read
    cases thrown

end Parse

section Readers

theorem offsetOf_inRange (image : Image) (what : String) (address : Nat) : InRange (image.offsetOf what address) := by
  rw [offsetOf]
  split
  · exact failsOnly_ok _
  · exact failsOnly_error (by simp)

theorem u32At_inRange (image : Image) (address : Nat) : InRange (image.u32At address) :=
  (offsetOf_inRange image "u32" address).bind fun _ _ => inRange_number

theorem u64At_inRange (image : Image) (address : Nat) : InRange (image.u64At address) :=
  (offsetOf_inRange image "u64" address).bind fun _ _ => inRange_number

theorem cStringAt_inRange (image : Image) (address : Nat) : InRange (image.cStringAt address) :=
  (offsetOf_inRange image "string" address).bind fun _ _ => inRange_cString

theorem bytesAt_inRange (image : Image) (address length : Nat) : InRange (image.bytesAt address length) := by
  refine (offsetOf_inRange image "data" address).bind fun start _ => ?_
  split
  · exact failsOnly_ok _
  · exact failsOnly_error (by simp)

theorem addressSum_inRange (address displacement : Nat) : InRange (addressSum address displacement) := by
  rw [addressSum]
  split
  · exact failsOnly_ok _
  · exact failsOnly_error (by simp)

theorem addressEntry_inRange (table size index : Nat) : InRange (addressEntry table size index) := by
  rw [addressEntry]
  split
  · exact addressSum_inRange table (size * index)
  · exact failsOnly_error (by simp)

theorem thunkAt_inRange (image : Image) (table index : Nat) : InRange (image.thunkAt table index) := by
  rw [thunkAt]
  refine (addressEntry_inRange table image.thunkSize index).bind fun place _ => ?_
  refine FailsOnly.bind ?_ fun thunk _ => ?_
  · rw [thunkValue]
    split
    · exact u64At_inRange image place
    · exact u32At_inRange image place
  · split
    · exact failsOnly_ok _
    split
    · exact failsOnly_ok _
    · refine (addressSum_inRange (thunk % Word.limit 31) 2).bind fun place _ => ?_
      exact (cStringAt_inRange image place).bind fun name _ => failsOnly_ok _

theorem delayDescriptorAt_inRange (image : Image) (table index : Nat) :
    InRange (image.delayDescriptorAt table index) := by
  rw [delayDescriptorAt]
  refine (addressEntry_inRange table 32 index).bind fun entry _ => ?_
  refine (u32At_inRange image entry).bind fun attributes _ => ?_
  refine (addressSum_inRange entry 4).bind fun place _ => (u32At_inRange image place).bind fun nameField _ => ?_
  split
  · exact failsOnly_ok _
  refine (addressSum_inRange entry 16).bind fun place _ => (u32At_inRange image place).bind fun tableField _ => ?_
  refine (cStringAt_inRange image _).bind fun dll _ => ?_
  split
  · exact failsOnly_ok _
  · exact FailsOnly.bind (failsOnly_collect fun index _ => thunkAt_inRange image _ index) fun functions _ =>
      failsOnly_ok _

theorem delayImports_inRange (image : Image) : InRange image.delayImports := by
  rw [delayImports]
  split
  · exact failsOnly_ok _
  · exact failsOnly_collect fun index _ => delayDescriptorAt_inRange image _ index

theorem metadata?_inRange (image : Image) : InRange image.metadata? := by
  rw [metadata?]
  split
  · exact failsOnly_ok _
  rename_i directory _
  refine (addressSum_inRange directory.address 8).bind fun place _ => ?_
  refine (u32At_inRange image place).bind fun address _ => ?_
  refine (addressSum_inRange directory.address 12).bind fun place _ => ?_
  refine (u32At_inRange image place).bind fun size _ => ?_
  split
  · exact failsOnly_ok _
  · exact (bytesAt_inRange image address size).bind fun block _ => failsOnly_ok _

theorem covers_le {part : Section} {address : Nat} (covered : part.covers address) : part.virtualAddress ≤ address := by
  rw [Section.covers,Bool.and_eq_true] at covered
  exact of_decide_eq_true covered.1

theorem offset?_lt {address offset : Nat} (word : address < Word.limit 32)
    (found : image.offset? address = some offset) : offset < Word.limit 32 := by
  rw [offset?] at found
  split at found
  · rw [Section.offset?] at found
    obtain ⟨⟨-,small⟩,made⟩ := Option.ite_none_right_eq_some.mp found
    exact Option.some.inj made ▸ small
  · obtain ⟨-,made⟩ := Option.ite_none_right_eq_some.mp found
    exact Option.some.inj made ▸ word

theorem bytesAt_ok {address length : Nat} {block : ByteArray} (read : image.bytesAt address length = .ok block) :
    ∃ start, image.offset? address = some start ∧ start + length ≤ image.bytes.size ∧
      block = image.bytes.extract start (start + length) := by
  obtain ⟨start,placed,read⟩ := bind_eq_ok_iff.mp read
  rw [offsetOf] at placed
  split at placed
  · rename_i offset found
    obtain rfl := Except.ok.inj placed
    split at read
    · rename_i part cut
      obtain ⟨⟨-,within⟩,made⟩ := Option.ite_none_right_eq_some.mp cut
      exact ⟨_,found,within,by rw [← Except.ok.inj read,← Option.some.inj made]⟩
    · cases read
  · cases placed

theorem addressSum_ok {address displacement place : Nat} (made : addressSum address displacement = .ok place) :
    place = address + displacement := by
  rw [addressSum] at made
  split at made
  · exact (Except.ok.inj made).symm
  · cases made

theorem addressEntry_ok {table size index place : Nat} (made : addressEntry table size index = .ok place) :
    place = table + size * index := by
  rw [addressEntry] at made
  split at made
  · exact addressSum_ok made
  · cases made

/-- What stands at an entry of a table of functions when it is read: zero is the end mark, a number with the top
bit set is an ordinal, and any other leads to a name. -/
inductive FunctionAt (image : Image) (place : Nat) : Option ImportedFunction → Prop
  | ended (mark : image.thunkValue place = .ok 0) : FunctionAt image place none
  | ordinal {thunk : Nat} (stored : image.thunkValue place = .ok thunk) (filled : thunk ≠ 0)
      (flagged : image.ordinalFlag ≤ thunk) :
      FunctionAt image place (some { name? := none, ordinal? := some (thunk % Word.limit 16) })
  | named {thunk : Nat} {name : String} (stored : image.thunkValue place = .ok thunk) (filled : thunk ≠ 0)
      (plain : thunk < image.ordinalFlag) (text : image.cStringAt (thunk % Word.limit 31 + 2) = .ok name) :
      FunctionAt image place (some { name? := some name, ordinal? := none })

theorem thunkAt_ok {table index : Nat} {function? : Option ImportedFunction}
    (read : image.thunkAt table index = .ok function?) :
    FunctionAt image (table + image.thunkSize * index) function? := by
  rw [thunkAt] at read
  obtain ⟨place,made,read⟩ := bind_eq_ok_iff.mp read
  obtain rfl := addressEntry_ok made
  obtain ⟨thunk,stored,read⟩ := bind_eq_ok_iff.mp read
  split at read
  · rename_i mark
    cases read
    exact .ended (mark ▸ stored)
  · rename_i filled
    split at read
    · rename_i flagged
      cases read
      exact .ordinal stored filled flagged
    · rename_i plain
      obtain ⟨place,made,read⟩ := bind_eq_ok_iff.mp read
      obtain rfl := addressSum_ok made
      obtain ⟨name,text,read⟩ := bind_eq_ok_iff.mp read
      cases read
      exact .named stored filled (Nat.lt_of_not_le plain) text

/-- The address that a field of a descriptor stands for. -/
def fieldAddress (image : Image) (attributes field : Nat) : Nat :=
  if attributes % 2 = 1 then field else relativeTo image.base field

/-- What stands at an entry of the table of delay imports when it is read: no name is the end mark; any other
descriptor has a name and all functions of its own table, or none when it has no table. -/
inductive DescriptorAt (image : Image) (place : Nat) : Option ImportDescriptor → Prop
  | ended (mark : image.u32At (place + 4) = .ok 0) : DescriptorAt image place none
  | listed {attributes nameField tableField : Nat} {dll : String} {functions : List ImportedFunction}
      (form : image.u32At place = .ok attributes)
      (nameStored : image.u32At (place + 4) = .ok nameField) (filled : nameField ≠ 0)
      (tableStored : image.u32At (place + 16) = .ok tableField)
      (name : image.cStringAt (image.fieldAddress attributes nameField) = .ok dll)
      (table : if tableField = 0 then functions = []
        else image.thunks (image.fieldAddress attributes tableField) = .ok functions) :
      DescriptorAt image place (some { dll, delay := true, functions })

theorem delayDescriptorAt_ok {table index : Nat} {descriptor? : Option ImportDescriptor}
    (read : image.delayDescriptorAt table index = .ok descriptor?) :
    DescriptorAt image (table + 32 * index) descriptor? := by
  rw [delayDescriptorAt] at read
  obtain ⟨place,made,read⟩ := bind_eq_ok_iff.mp read
  obtain rfl := addressEntry_ok made
  obtain ⟨attributes,form,read⟩ := bind_eq_ok_iff.mp read
  obtain ⟨place,made,read⟩ := bind_eq_ok_iff.mp read
  obtain rfl := addressSum_ok made
  obtain ⟨nameField,nameStored,read⟩ := bind_eq_ok_iff.mp read
  split at read
  · rename_i mark
    cases read
    exact .ended (mark ▸ nameStored)
  rename_i filled
  obtain ⟨place,made,read⟩ := bind_eq_ok_iff.mp read
  obtain rfl := addressSum_ok made
  obtain ⟨tableField,tableStored,read⟩ := bind_eq_ok_iff.mp read
  obtain ⟨dll,name,read⟩ := bind_eq_ok_iff.mp read
  split at read
  · rename_i absent
    cases read
    exact .listed form nameStored filled tableStored name (by rw [if_pos absent])
  · rename_i present
    obtain ⟨functions,all,read⟩ := bind_eq_ok_iff.mp read
    cases read
    exact .listed form nameStored filled tableStored name (by rw [if_neg present]; exact all)

/-- What the runtime header of an image says: without one, or without an address in it, there is no metadata, and
else the metadata is what lies there. -/
inductive MetadataOf (image : Image) : Option ByteArray → Prop
  | native (absent : image.directory? runtimeDirectory = none) : MetadataOf image none
  | empty {directory : Directory} (present : image.directory? runtimeDirectory = some directory)
      (address : image.u32At (directory.address + 8) = .ok 0) : MetadataOf image none
  | managed {directory : Directory} {address size : Nat} {root : ByteArray}
      (present : image.directory? runtimeDirectory = some directory)
      (start : image.u32At (directory.address + 8) = .ok address) (filled : address ≠ 0)
      (length : image.u32At (directory.address + 12) = .ok size)
      (block : image.bytesAt address size = .ok root) : MetadataOf image (some root)

theorem metadataOf_read {root? : Option ByteArray} (read : image.metadata? = .ok root?) :
    MetadataOf image root? := by
  rw [metadata?] at read
  split at read
  · rename_i absent
    cases read
    exact .native absent
  rename_i directory present
  obtain ⟨place,made,read⟩ := bind_eq_ok_iff.mp read
  obtain rfl := addressSum_ok made
  obtain ⟨address,start,read⟩ := bind_eq_ok_iff.mp read
  obtain ⟨place,made,read⟩ := bind_eq_ok_iff.mp read
  obtain rfl := addressSum_ok made
  obtain ⟨size,length,read⟩ := bind_eq_ok_iff.mp read
  split at read
  · rename_i none
    cases read
    exact .empty present (none ▸ start)
  · rename_i filled
    obtain ⟨root,block,read⟩ := bind_eq_ok_iff.mp read
    cases read
    exact .managed present start filled length block

/-- The metadata of an image is a part of it, with a length that fits in 32 bits. -/
theorem metadata?_ok {root : ByteArray} (read : image.metadata? = .ok (some root)) :
    root.size < Word.limit 32 ∧ ∃ start, start + root.size ≤ image.bytes.size ∧
      root = image.bytes.extract start (start + root.size) := by
  cases metadataOf_read read with
  | @managed _ _ size _ _ _ _ sizeRead blockRead =>
    obtain ⟨start,-,within,made⟩ := bytesAt_ok blockRead
    obtain ⟨offset,-,number⟩ := bind_eq_ok_iff.mp sizeRead
    have length : root.size = size := by
      rw [made,ByteArray.size_extract]
      omega
    rw [length]
    exact ⟨u32_lt number,start,within,made⟩

/-- How an image is read: no difference of addresses is negative, no offset too large for its word, no block
leaves the file, tables with an end mark are read up to it, or refused, and so is each entry of them. -/
structure InBounds (image : Image) : Prop where
  differences : ∀ address part, image.sections.find? (·.covers address) = some part → part.virtualAddress ≤ address
  offsets : ∀ address < Word.limit 32, ∀ offset, image.offset? address = some offset → offset < Word.limit 32
  blocks : ∀ address length, InRange (image.bytesAt address length) ∧
    ∀ block, image.bytesAt address length = .ok block → ∃ start, image.offset? address = some start ∧
      start + length ≤ image.bytes.size ∧ block = image.bytes.extract start (start + length)
  delayImports : InRange image.delayImports
  descriptors : ∀ directory, image.directory? delayImportDirectory = some directory →
    Whole (image.delayDescriptorAt directory.address) tableLimit image.delayImports
  undelayed : image.directory? delayImportDirectory = none → image.delayImports = .ok []
  tables : ∀ table index descriptor?, image.delayDescriptorAt table index = .ok descriptor? →
    DescriptorAt image (table + 32 * index) descriptor?
  functions : ∀ table, Whole (image.thunkAt table) tableLimit (image.thunks table)
  thunks : ∀ table index function?, image.thunkAt table index = .ok function? →
    FunctionAt image (table + image.thunkSize * index) function?
  metadata : InRange image.metadata?
  runtime : ∀ root?, image.metadata? = .ok root? → MetadataOf image root?

theorem inBounds (image : Image) : image.InBounds where
  differences := by
    intro address part found
    have covered := List.find?_some found
    exact covers_le covered
  offsets := fun address word offset => offset?_lt word
  blocks := fun address length => ⟨bytesAt_inRange image address length,fun block => bytesAt_ok⟩
  delayImports := delayImports_inRange image
  descriptors := by
    intro directory present
    rw [Image.delayImports,present]
    exact Bytes.collect_whole (image.delayDescriptorAt directory.address) tableLimit
  undelayed := by
    intro absent
    rw [Image.delayImports,absent]
  tables := fun table index descriptor? => delayDescriptorAt_ok
  functions := fun table => Bytes.collect_whole (image.thunkAt table) tableLimit
  thunks := fun table index function? => thunkAt_ok
  metadata := metadata?_inRange image
  runtime := fun root? => metadataOf_read

end Readers
end LoadMap.Image
