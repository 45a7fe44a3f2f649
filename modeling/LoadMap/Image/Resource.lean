import LoadMap.Image.SectionView
import LoadMap.Word

/-! The resources of an image: a tree of directories whose leaves are blocks of data. Everything is
read inside the resource directory. -/
namespace LoadMap.Image.Resource

def resourceDirectory : Nat := 2

def manifestType : Nat := 24

structure Entry where
  name : Nat
  place : Nat

def Entry.isDirectory (entry : Entry) : Bool := Word.limit 31 ≤ entry.place

def Entry.offset (entry : Entry) : Nat := entry.place % Word.limit 31

def entriesAt? (tree : ByteArray) (offset : Nat) : Option (List Entry) := do
  guard (offset % 4 = 0)
  let header ← Bytes.block? tree offset (offset + 16)
  let count := Bytes.littleEndian header 12 2 + Bytes.littleEndian header 14 2
  let table ← Bytes.block? tree (offset + 16) (offset + 16 + 8 * count)
  return (List.range count).map fun index =>
    { name := Bytes.littleEndian table (8 * index) 4
      place := Bytes.littleEndian table (8 * index + 4) 4 }

def dataAt? (tree : ByteArray) (treeAddress offset : Nat) : Option ByteArray := do
  guard (offset % 4 = 0)
  let leaf ← Bytes.block? tree offset (offset + 16)
  let address := Bytes.littleEndian leaf 0 4
  guard (treeAddress ≤ address)
  let start := address - treeAddress
  Bytes.block? tree start (start + Bytes.littleEndian leaf 4 4)

/-- The manifest: the first entry below its type leads to a directory whose first entry is it. The
resources reach as far as their section has raw data. -/
def manifest? (view : SectionView) : Option ByteArray := do
  let (address,size) ← view.directory? resourceDirectory
  let tree := (← view.tail? address 0 4).extract 0 size
  let types ← entriesAt? tree 0
  let kind ← types.find? (·.name = manifestType)
  guard kind.isDirectory
  let named ← (← entriesAt? tree kind.offset).head?
  guard named.isDirectory
  let leaf ← (← entriesAt? tree named.offset).head?
  guard (!leaf.isDirectory)
  dataAt? tree address leaf.offset

end LoadMap.Image.Resource
