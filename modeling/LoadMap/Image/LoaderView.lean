import LoadMap.Failure
import LoadMap.Bytes

/-! An image the way the operating system maps it: the length of raw data is rounded up, and an
address is looked up among the sections only. -/
namespace LoadMap.Image

structure LoaderView.Section where
  name : String
  virtualAddress : Nat
  virtualSize : Nat
  rawOffset : Nat
  rawSize : Nat
  deriving Repr

structure LoaderView where
  bytes : ByteArray
  is64 : Bool
  fileAlignment : Nat
  directories : List (Nat × Nat)
  sections : List LoaderView.Section

inductive LoaderView.Outcome
  | view (view : LoaderView)
  | otherFormat

namespace LoaderView

def refuse {α : Type} (text : String) : Result α := .error (.tables text)

def checked {α : Type} : Except Fault α → Result α
  | .ok value => .ok value
  | .error fault => .error (.tables fault.message)

/-- A zero-terminated name; the end of the file ends it too, and may be where it begins. -/
def nameAt (bytes : ByteArray) (offset : Nat) : Result String :=
  if offset ≤ bytes.size then
    let stop := (Bytes.zero? bytes offset).getD bytes.size
    match Text.Utf8.decode? (bytes.extract offset stop).toList with
    | some name => .ok name
    | none => refuse "name is not text"
  else refuse "name out of bounds"

def digit64? (char : Char) : Option Nat :=
  if 'A' ≤ char ∧ char ≤ 'Z' then some (char.toNat - 65)
  else if 'a' ≤ char ∧ char ≤ 'z' then some (char.toNat - 71)
  else if '0' ≤ char ∧ char ≤ '9' then some (char.toNat + 4)
  else if char = '+' then some 62
  else if char = '/' then some 63
  else none

def number64? (chars : List Char) : Option Nat :=
  (chars.mapM digit64?).map (·.foldl (fun value digit => value * 64 + digit) 0)

def decimal? (chars : List Char) : Option Nat :=
  let digits := if chars.head? = some '+' then chars.drop 1 else chars
  if digits ≠ [] ∧ digits.all Char.isDigit then
    some (digits.foldl (fun value char => value * 10 + (char.toNat - 48)) 0)
  else none

/-- The place in the string table that a name stands for; only a name that begins with a slash
stands for one. -/
def namePlace? (name : String) : Result (Option Nat) :=
  match name.toList with
  | '/' :: digits =>
    let place? := match digits with
      | '/' :: digits => number64? digits
      | digits => decimal? digits
    match place? with
    | some place => .ok (some place)
    | none => refuse "indirect section name is not a number"
  | _ => .ok none

/-- The name of a section. The string table may lack the name proper; the short one does then. -/
def sectionName (bytes : ByteArray) (strings : Nat) (field : ByteArray) : Result String := do
  let some short := Text.Utf8.decode? (field.toList.takeWhile (· ≠ 0))
    | if field.toList.head? = some 0x2F then refuse "section name is not text" else return ""
  match ← namePlace? short with
  | some place => return (nameAt bytes (strings + place)).toOption.getD short
  | none => return short

def sectionAt (bytes : ByteArray) (strings table index : Nat) : Result Section := do
  let header := table + 40 * index
  match Bytes.block? bytes header (header + 40) with
  | none => refuse "section table out of bounds"
  | some entry =>
    let word := fun place => Bytes.littleEndian entry place 4
    return {
      name := ← sectionName bytes strings (entry.extract 0 8)
      virtualSize := word 8, virtualAddress := word 12, rawSize := word 16, rawOffset := word 20 }

structure Options where
  is64 : Bool
  fileAlignment : Nat
  directories : List (Nat × Nat)

def optionsAt (bytes : ByteArray) (header : Nat) : Result (Option Options) := do
  let magic ← checked (Bytes.u16 bytes header)
  if magic ≠ 0x10B ∧ magic ≠ 0x20B then return none
  let is64 := magic = 0x20B
  let fields := if is64 then 112 else 96
  match Bytes.block? bytes header (header + fields) with
  | none => refuse "optional header out of bounds"
  | some block =>
    let count := Bytes.littleEndian block (fields - 4) 4
    if 16 < count then refuse "too many data directories"
    let directories ← (List.range count).mapM fun index => do
      let place := header + fields + 8 * index
      return (← checked (Bytes.u32 bytes place),← checked (Bytes.u32 bytes (place + 4)))
    return some { is64, fileAlignment := Bytes.littleEndian block 36 4, directories }

def recordEnd : List UInt8 := [0x52,0x69,0x63,0x68]

def recordStart : List UInt8 := [0x44,0x61,0x6E,0x53]

def distance? (wanted : List UInt8) : List UInt8 → Option Nat
  | [] => none
  | byte :: bytes =>
    if wanted.isPrefixOf (byte :: bytes) then some 0 else (distance? wanted bytes).map (· + 1)

/-- The build record lies before the headers and names the tools that made the image. A key stands
behind its end mark; the start mark is written under that key, and words follow it. -/
def checkRecord (stub : List UInt8) : Result Unit :=
  match distance? recordEnd (stub.take (stub.length - 4)) with
  | none => .ok ()
  | some stop =>
    let key := (stub.drop (stop + 4)).take 4
    match distance? (List.zipWith (· ^^^ ·) recordStart key) stub with
    | none => refuse "build record does not begin"
    | some start =>
      let words := start + 4
      if stop ≤ words then refuse "build record ends before it begins"
      else if (stop - words) % 4 ≠ 0 then refuse "build record is cut off"
      else .ok ()

def parse (bytes : ByteArray) : Result Outcome := do
  if bytes.size < 16 then refuse "file too short"
  let start ← checked (Bytes.u32 bytes 0x3C)
  unless (Bytes.block? bytes start (start + 4)).any (·.toList == [0x50,0x45,0,0]) do
    refuse "no signature"
  if start < 0x40 then refuse "headers overlap"
  checkRecord (bytes.extract 0x40 start).toList
  match Bytes.block? bytes (start + 4) (start + 24) with
  | none => refuse "file header out of bounds"
  | some header =>
    let count := Bytes.littleEndian header 2 2
    let symbols := Bytes.littleEndian header 8 4
    let symbolCount := Bytes.littleEndian header 12 4
    let optionSize := Bytes.littleEndian header 16 2
    let options? ← if optionSize = 0 then
        pure (some { is64 := false, fileAlignment := 0, directories := [] })
      else optionsAt bytes (start + 24)
    match options? with
    | none => return .otherFormat
    | some options =>
      if bytes.size / 40 < count then refuse "too many sections"
      let sections ← (List.range count).mapM
        (sectionAt bytes (symbols + 18 * symbolCount) (start + 24 + optionSize))
      return .view {
        bytes
        is64 := options.is64
        fileAlignment := options.fileAlignment
        directories := options.directories
        sections }

def directory? (view : LoaderView) (index : Nat) : Option (Nat × Nat) :=
  view.directories[index]?.filter (· ≠ (0,0))

def roundUp (unit value : Nat) : Nat := (value + (unit - 1)) / unit * unit

/-- How many addresses belong to the section: its raw data up to the end of its last block of the
file, the first block beginning at a multiple of 512. -/
def Section.mappedSize (part : Section) (alignment : Nat) : Nat :=
  let read := min (roundUp alignment (part.rawOffset + part.rawSize) - part.rawOffset / 512 * 512)
    (roundUp 4096 part.rawSize)
  if part.virtualSize = 0 then read else min read (roundUp 4096 part.virtualSize)

def offset? (view : LoaderView) (address : Nat) : Option Nat :=
  if view.fileAlignment.isPowerOfTwo then
    (view.sections.find? fun part =>
      part.virtualAddress ≤ address ∧
        address < part.virtualAddress + part.mappedSize view.fileAlignment).map
      fun part => address - part.virtualAddress + part.rawOffset
  else none

def offsetOf (view : LoaderView) (what : String) (address : Nat) : Result Nat :=
  match view.offset? address with
  | some offset => .ok offset
  | none => refuse s!"{what} is not mapped"

end LoaderView
end LoadMap.Image
