import LoadMap.Failure
import LoadMap.Bytes
import LoadMap.Word

/-! An image read strictly by its section table: an address belongs to the first section that
covers it, and has bytes only inside the raw data of that section. -/
namespace LoadMap.Image

structure SectionView.Section where
  name : List UInt8
  virtualAddress : Nat
  virtualSize : Nat
  rawOffset : Nat
  rawSize : Nat
  deriving Repr

structure SectionView where
  bytes : ByteArray
  directories : List (Nat × Nat)
  sections : List SectionView.Section

namespace SectionView

def refuse {α : Type} (text : String) : Result α := .error (.headers text)

def sectionAt (bytes : ByteArray) (table index : Nat) : Result Section :=
  match Bytes.block? bytes (table + 40 * index) (table + 40 * index + 40) with
  | none => refuse "section table out of bounds"
  | some entry =>
    let word := fun place => Bytes.littleEndian entry place 4
    .ok {
      name := (entry.extract 0 8).toList, virtualSize := word 8, virtualAddress := word 12,
      rawSize := word 16, rawOffset := word 20 }

def directoriesAt (bytes : ByteArray) (place count : Nat) : Result (List (Nat × Nat)) :=
  match Bytes.block? bytes place (place + 8 * count) with
  | none => refuse "data directories out of bounds"
  | some block => .ok ((List.range count).map fun index =>
      (Bytes.littleEndian block (8 * index) 4,Bytes.littleEndian block (8 * index + 4) 4))

def fieldsOf? : Nat → Option Nat
  | 0x10B => some 96
  | 0x20B => some 112
  | _ => none

def longestHeaders : Nat := 136

/-- The headers must leave room for the longer kind, whatever kind they are. -/
def parse (bytes : ByteArray) : Result SectionView := do
  if bytes.size < 64 then refuse "file too short"
  unless Bytes.startsWith bytes [0x4D,0x5A] do refuse "no signature"
  let start := Bytes.littleEndian bytes 0x3C 4
  unless start % 4 = 0 do refuse "headers are not aligned"
  match Bytes.block? bytes start (start + longestHeaders) with
  | none => refuse "headers out of bounds"
  | some header =>
    unless (header.extract 0 4).toList == [0x50,0x45,0,0] do refuse "no signature"
    match fieldsOf? (Bytes.littleEndian header 24 2) with
    | none => refuse "unknown kind of headers"
    | some fields =>
      match Bytes.block? bytes (start + 24) (start + 24 + fields) with
      | none => refuse "headers out of bounds"
      | some options =>
        let count := Bytes.littleEndian header 6 2
        if 96 < count then refuse "too many sections"
        let headerSize := Bytes.littleEndian options 60 4
        if bytes.size < headerSize then refuse "headers out of bounds"
        if Bytes.littleEndian options 56 4 < headerSize then refuse "headers exceed the image"
        let directories ← directoriesAt bytes (start + 24 + fields)
          (min 16 (Bytes.littleEndian options (fields - 4) 4))
        let table := start + 24 + Bytes.littleEndian header 20 2
        if bytes.size < table + 40 * count then refuse "section table out of bounds"
        let sections ← (List.range count).mapM (sectionAt bytes table)
        return { bytes, directories, sections }

/-- The end of a section is a 32-bit word; a section that passes the last address covers none. -/
def Section.covers (part : Section) (address : Nat) : Bool :=
  part.virtualAddress ≤ address &&
    address < (part.virtualAddress + max part.virtualSize part.rawSize) % Word.limit 32

def section? (view : SectionView) (name : String) : Option Section :=
  let bytes := name.toUTF8.toList
  view.sections.find? (·.name == bytes ++ List.replicate (8 - bytes.length) 0)

/-- The raw data of a section; at the beginning of the file there is none. -/
def sectionBytes (view : SectionView) (part : Section) : Result ByteArray :=
  if part.rawOffset = 0 then refuse "section has no raw data"
  else match Bytes.block? view.bytes part.rawOffset (part.rawOffset + part.rawSize) with
  | some block => .ok block
  | none => refuse "section out of bounds"

/-- The part of the file from an address to the end of its section, when it holds `length` bytes
at least and address and place in the file are multiples of `alignment`. -/
def tail? (view : SectionView) (address length alignment : Nat) : Option ByteArray :=
  if address = 0 then none
  else match view.sections.find? (·.covers address) with
    | none => none
    | some part =>
      let start := address - part.virtualAddress + part.rawOffset
      match Bytes.block? view.bytes start (part.rawOffset + part.rawSize) with
      | none => none
      | some block =>
        if length ≤ block.size ∧ address % alignment = 0 ∧ start % alignment = 0 then some block
        else none

def table? (view : SectionView) (address width count : Nat) : Option (List Nat) :=
  if address = 0 then some []
  else (view.tail? address (width * count) width).map fun block =>
    (List.range count).map fun index => Bytes.littleEndian block (width * index) width

def cString? (view : SectionView) (address : Nat) : Option String := do
  let block ← view.tail? address 1 1
  let stop ← Bytes.zero? block 0
  return Text.Utf8.decodeLossy (block.extract 0 stop).toList

def directory? (view : SectionView) (index : Nat) : Option (Nat × Nat) :=
  view.directories[index]?

end SectionView
end LoadMap.Image
