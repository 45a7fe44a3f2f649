import LoadMap.Bytes

/-! The headers of an executable image: word size, preferred address, data directories and
sections. Nothing else of the file is looked at. -/
namespace LoadMap

structure Image.Section where
  virtualAddress : Nat
  virtualSize : Nat
  rawOffset : Nat
  rawSize : Nat
  deriving DecidableEq, Repr

structure Image.Directory where
  address : Nat
  size : Nat
  deriving DecidableEq, Repr

structure Image where
  bytes : ByteArray
  is64 : Bool
  base : Nat
  directories : List Image.Directory
  sections : List Image.Section

namespace Image

def delayImportDirectory : Nat := 13
def runtimeDirectory : Nat := 14

def dosSignature : List UInt8 := [0x4D,0x5A]
def signature : List UInt8 := [0x50,0x45,0,0]

def optionalHeader (bytes : ByteArray) (header : Nat) : Except Fault (Bool × Nat × Nat) := do
  match ← Bytes.u16 bytes header with
  | 0x10B =>
    let base ← Bytes.u32 bytes (← Bytes.sum header 28)
    return (false,base,← Bytes.sum header 92)
  | 0x20B =>
    let base ← Bytes.u64 bytes (← Bytes.sum header 24)
    return (true,base,← Bytes.sum header 108)
  | magic => throw (.unknownMagic magic)

def directoryAt (bytes : ByteArray) (table index : Nat) : Except Fault Directory := do
  let entry ← Bytes.entry table 8 index
  let address ← Bytes.u32 bytes entry
  return { address, size := ← Bytes.u32 bytes (← Bytes.sum entry 4) }

def sectionAt (bytes : ByteArray) (table index : Nat) : Except Fault Section := do
  let header ← Bytes.entry table 40 index
  let virtualSize ← Bytes.u32 bytes (← Bytes.sum header 8)
  let virtualAddress ← Bytes.u32 bytes (← Bytes.sum header 12)
  let rawSize ← Bytes.u32 bytes (← Bytes.sum header 16)
  let rawOffset ← Bytes.u32 bytes (← Bytes.sum header 20)
  return { virtualAddress, virtualSize, rawOffset, rawSize }

/-- At most sixteen directories are read, whatever number the header claims. -/
def parse (bytes : ByteArray) : Except Fault Image := do
  unless Bytes.startsWith bytes dosSignature do throw .noDosSignature
  let start ← Bytes.u32 bytes 0x3C
  let fileHeader ← Bytes.sum start 4
  unless (Bytes.block? bytes start fileHeader).any (·.toList == signature) do throw .noSignature
  let sectionCount ← Bytes.u16 bytes (← Bytes.sum fileHeader 2)
  let headerSize ← Bytes.u16 bytes (← Bytes.sum fileHeader 16)
  let header ← Bytes.sum fileHeader 20
  let (is64,base,countOffset) ← optionalHeader bytes header
  let count ← Bytes.u32 bytes countOffset
  let table ← Bytes.sum countOffset 4
  let directories ← (List.range (min count 16)).mapM (directoryAt bytes table)
  let sectionTable ← Bytes.sum header headerSize
  let sections ← (List.range sectionCount).mapM (sectionAt bytes sectionTable)
  return { bytes, is64, base, directories, sections }

def directory? (image : Image) (index : Nat) : Option Directory :=
  image.directories[index]?.filter (·.address ≠ 0)

end Image
end LoadMap
