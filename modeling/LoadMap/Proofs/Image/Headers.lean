import LoadMap.Image.Basic
import LoadMap.Proofs.Bytes.Table

/-! The headers of an image written down, and read back: whatever stands behind them, they are those of the image. -/
namespace LoadMap.Image

open Bytes (Holds digits holds_append bind_eq_ok_iff)
open Word (limit_64)

section Layout

def zeros (count : Nat) : List UInt8 := List.replicate count 0

/-- The optional header up to the number of data directories. -/
def optionalFields (is64 : Bool) (base : Nat) : List UInt8 :=
  if is64 then digits 2 0x20B ++ zeros 22 ++ digits 8 base ++ zeros 76
  else digits 2 0x10B ++ zeros 26 ++ digits 4 base ++ zeros 60

def Directory.entry (directory : Directory) : List UInt8 := digits 4 directory.address ++ digits 4 directory.size

def Section.header (part : Section) : List UInt8 :=
  zeros 8 ++ digits 4 part.virtualSize ++ digits 4 part.virtualAddress ++ digits 4 part.rawSize ++
    digits 4 part.rawOffset ++ zeros 16

/-- The fields that are not looked at are zero; the optional header ends with its last directory. -/
def headers (is64 : Bool) (base : Nat) (directories : List Directory) (sections : List Section) : List UInt8 :=
  dosSignature ++ zeros 58 ++ digits 4 64 ++ signature ++ zeros 2 ++ digits 2 sections.length ++ zeros 12 ++
    digits 2 ((optionalFields is64 base).length + 4 + 8 * directories.length) ++ zeros 2 ++
    optionalFields is64 base ++ digits 4 directories.length ++ directories.flatMap Directory.entry ++
    sections.flatMap Section.header

/-- An image in a file that begins with its headers. -/
def ofParts (is64 : Bool) (base : Nat) (directories : List Directory) (sections : List Section)
    (rest : List UInt8) : Image :=
  { bytes := ⟨(headers is64 base directories sections ++ rest).toArray⟩, is64, base, directories, sections }

def Directory.Fits (directory : Directory) : Prop := directory.address < 256 ^ 4 ∧ directory.size < 256 ^ 4

instance (directory : Directory) : Decidable directory.Fits := inferInstanceAs (Decidable (_ ∧ _))

def Section.Fits (part : Section) : Prop :=
  part.virtualSize < 256 ^ 4 ∧ part.virtualAddress < 256 ^ 4 ∧ part.rawSize < 256 ^ 4 ∧ part.rawOffset < 256 ^ 4

instance (part : Section) : Decidable part.Fits := inferInstanceAs (Decidable (_ ∧ _))

structure Fits (is64 : Bool) (base : Nat) (directories : List Directory) (sections : List Section) : Prop where
  base : base < if is64 then 256 ^ 8 else 256 ^ 4
  few : directories.length ≤ 16
  directories : ∀ directory ∈ directories, directory.Fits
  count : sections.length < 256 ^ 2
  sections : ∀ part ∈ sections, part.Fits

end Layout

section Reading

variable {bytes : ByteArray} {is64 : Bool} {base table index : Nat} {directories : List Directory}
  {sections : List Section}

theorem length_zeros (count : Nat) : (zeros count).length = count := List.length_replicate

theorem length_optionalFields (is64 : Bool) (base : Nat) :
    (optionalFields is64 base).length = if is64 then 108 else 92 := by
  cases is64 <;> simp [optionalFields,length_zeros]

theorem length_entry (directory : Directory) : directory.entry.length = 8 := by simp [Directory.entry]

theorem length_header (part : Section) : part.header.length = 40 := by simp [Section.header,length_zeros]

theorem optionalHeader_eq {header : Nat} (low : header < Word.limit 32)
    (holds : Holds bytes header (optionalFields is64 base)) (fits : base < if is64 then 256 ^ 8 else 256 ^ 4) :
    optionalHeader bytes header = .ok (is64,base,header + if is64 then 108 else 92) := by
  have limit := limit_64
  rw [Word.limit_32] at low
  have place (field : Nat) (less : field ≤ 108) : Bytes.sum header field = .ok (header + field) :=
    Bytes.sum_eq_ok_iff.mpr ⟨by omega,rfl⟩
  cases is64 with
  | true =>
    simp only [optionalFields,if_true,holds_append,List.length_append,Bytes.length_digits,length_zeros,
      Nat.reduceAdd] at holds fits
    obtain ⟨⟨⟨magic,-⟩,value⟩,-⟩ := holds
    simp only [optionalHeader,Bytes.u16,Bytes.u64,magic.number (show 0x20B < 256 ^ 2 by decide),
      place 24 (by decide),place 108 (by decide),value.number fits,bind,Except.bind,pure,Except.pure,if_true]
  | false =>
    simp only [optionalFields,Bool.false_eq_true,if_false,holds_append,List.length_append,Bytes.length_digits,
      length_zeros,Nat.reduceAdd] at holds fits
    obtain ⟨⟨⟨magic,-⟩,value⟩,-⟩ := holds
    simp only [optionalHeader,Bytes.u16,Bytes.u32,magic.number (show 0x10B < 256 ^ 2 by decide),
      place 28 (by decide),place 92 (by decide),value.number fits,bind,Except.bind,pure,Except.pure,
      Bool.false_eq_true,if_false]

theorem directoryAt_eq {directory : Directory} (low : table + 8 * index + 4 < Word.limit 64)
    (holds : Holds bytes (table + 8 * index) directory.entry)
    (fits : directory.Fits) : directoryAt bytes table index = .ok directory := by
  obtain ⟨address,size⟩ := holds_append.mp holds
  rw [Bytes.length_digits] at size
  have entry : Bytes.entry table 8 index = .ok (table + 8 * index) :=
    Bytes.entry_eq_ok_iff.mpr ⟨by omega,rfl⟩
  have place : Bytes.sum (table + 8 * index) 4 = .ok (table + 8 * index + 4) :=
    Bytes.sum_eq_ok_iff.mpr ⟨low,rfl⟩
  simp only [directoryAt,Bytes.u32,entry,address.number fits.1,place,size.number fits.2,bind,Except.bind,pure,
    Except.pure]

theorem sectionAt_eq {part : Section} (low : table + 40 * index + 20 < Word.limit 64)
    (holds : Holds bytes (table + 40 * index) part.header) (fits : part.Fits) :
    sectionAt bytes table index = .ok part := by
  simp only [Section.header,holds_append,List.length_append,Bytes.length_digits,length_zeros,Nat.reduceAdd] at holds
  obtain ⟨⟨⟨⟨⟨-,virtualSize⟩,virtualAddress⟩,rawSize⟩,rawOffset⟩,-⟩ := holds
  obtain ⟨first,second,third,fourth⟩ := fits
  have header : Bytes.entry table 40 index = .ok (table + 40 * index) :=
    Bytes.entry_eq_ok_iff.mpr ⟨by omega,rfl⟩
  have place (field : Nat) (less : field ≤ 20) : Bytes.sum (table + 40 * index) field =
      .ok (table + 40 * index + field) := Bytes.sum_eq_ok_iff.mpr ⟨by omega,rfl⟩
  simp only [sectionAt,Bytes.u32,header,place 8 (by decide),place 12 (by decide),place 16 (by decide),
    place 20 (by decide),virtualSize.number first,virtualAddress.number second,rawSize.number third,
    rawOffset.number fourth,bind,Except.bind,pure,Except.pure]

theorem directories_eq (low : table + 128 < Word.limit 64) (few : directories.length ≤ 16)
    (holds : Holds bytes table (directories.flatMap Directory.entry))
    (fits : ∀ directory ∈ directories, directory.Fits) :
    (List.range (min directories.length 16)).mapM (directoryAt bytes table) = .ok directories := by
  rw [Nat.min_eq_left few,Bytes.mapM_range_eq_ok_iff]
  refine ⟨rfl,fun index directory found => ?_⟩
  obtain ⟨less,-⟩ := List.getElem?_eq_some_iff.mp found
  exact directoryAt_eq (by omega) (holds.entry (fun entry _ => length_entry entry) found)
    (fits directory (List.mem_of_getElem? found))

theorem sections_eq (low : table + 40 * sections.length < Word.limit 64)
    (holds : Holds bytes table (sections.flatMap Section.header))
    (fits : ∀ part ∈ sections, part.Fits) :
    (List.range sections.length).mapM (sectionAt bytes table) = .ok sections := by
  rw [Bytes.mapM_range_eq_ok_iff]
  refine ⟨rfl,fun index part found => ?_⟩
  obtain ⟨less,-⟩ := List.getElem?_eq_some_iff.mp found
  exact sectionAt_eq (by omega) (holds.entry (fun entry _ => length_header entry) found)
    (fits part (List.mem_of_getElem? found))

end Reading

theorem startsWith_of_holds {bytes : ByteArray} {first : List UInt8} (holds : Holds bytes 0 first) :
    Bytes.startsWith bytes first := by
  have block := holds.block?
  rw [Bytes.block?,if_pos ⟨Nat.le_add_right _ _,holds.inside⟩,Option.some.injEq,Nat.zero_add] at block
  rw [Bytes.startsWith,block,Bytes.toList_eq,List.data_toByteArray,beq_iff_eq]

/-- What is parsed of a file that begins with the headers of an image is this image. -/
theorem parse_of_holds {bytes : ByteArray} {is64 : Bool} {base : Nat} {directories : List Directory}
    {sections : List Section} (fits : Fits is64 base directories sections)
    (holds : Holds bytes 0 (headers is64 base directories sections)) :
    parse bytes = .ok { bytes, is64, base, directories, sections } := by
  have few := fits.few
  have count := fits.count
  have optional := length_optionalFields is64 base
  have short : (optionalFields is64 base).length ≤ 108 := by
    rw [optional]
    split <;> omega
  have limit := limit_64
  have rows : (directories.flatMap Directory.entry).length = _ :=
    Bytes.length_flatMap_of_equal fun entry _ => length_entry entry
  have dosLength : dosSignature.length = 2 := rfl
  have markLength : signature.length = 4 := rfl
  simp only [headers,holds_append,List.length_append,Bytes.length_digits,length_zeros,dosLength,markLength,rows,
    Nat.reduceAdd,Nat.zero_add] at holds
  obtain ⟨⟨⟨⟨⟨⟨⟨⟨⟨⟨⟨⟨dos,-⟩,start⟩,mark⟩,-⟩,sectionCount⟩,-⟩,size⟩,-⟩,fields⟩,directoryCount⟩,directoryTable⟩,
    sectionTable⟩ := holds
  have begins : (Bytes.block? bytes 64 68).any (·.toList == signature) := by
    rw [show (68 : Nat) = 64 + signature.length from rfl,mark.block?,Option.any_some,Bytes.toList_eq,
      List.data_toByteArray,beq_iff_eq]
  have place (left right : Nat) (less : left + right < Word.limit 32) : Bytes.sum left right = .ok (left + right) :=
    Bytes.sum_eq_ok_iff.mpr ⟨less.trans (by decide),rfl⟩
  have low := Word.limit_32
  rw [parse,if_pos (startsWith_of_holds dos)]
  refine bind_eq_ok_iff.mpr ⟨64,start.number (by decide),?_⟩
  refine bind_eq_ok_iff.mpr ⟨68,place 64 4 (by omega),?_⟩
  rw [if_pos begins]
  refine bind_eq_ok_iff.mpr ⟨70,place 68 2 (by omega),?_⟩
  refine bind_eq_ok_iff.mpr ⟨sections.length,sectionCount.number count,?_⟩
  refine bind_eq_ok_iff.mpr ⟨84,place 68 16 (by omega),?_⟩
  refine bind_eq_ok_iff.mpr ⟨_,size.number (by omega),?_⟩
  refine bind_eq_ok_iff.mpr ⟨88,place 68 20 (by omega),?_⟩
  refine bind_eq_ok_iff.mpr ⟨_,optionalHeader_eq (by omega) fields fits.base,?_⟩
  rw [← optional]
  refine bind_eq_ok_iff.mpr ⟨directories.length,directoryCount.number (by omega),?_⟩
  refine bind_eq_ok_iff.mpr ⟨_,place (88 + (optionalFields is64 base).length) 4 (by omega),?_⟩
  refine bind_eq_ok_iff.mpr ⟨directories,directories_eq (by omega) few directoryTable fits.directories,?_⟩
  refine bind_eq_ok_iff.mpr ⟨_,place 88 _ (by omega),?_⟩
  rw [← Nat.add_assoc,← Nat.add_assoc]
  exact bind_eq_ok_iff.mpr ⟨sections,sections_eq (by omega) sectionTable fits.sections,rfl⟩

theorem parse_ofParts {is64 : Bool} {base : Nat} {directories : List Directory} {sections : List Section}
    (fits : Fits is64 base directories sections) (rest : List UInt8) :
    parse (ofParts is64 base directories sections rest).bytes = .ok (ofParts is64 base directories sections rest) :=
  parse_of_holds fits ⟨Nat.zero_le _,List.prefix_append _ _⟩

end LoadMap.Image
