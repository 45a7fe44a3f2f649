import LoadMap.Failure
import LoadMap.Image.Runtime
import LoadMap.Metadata.Layout
import LoadMap.Metadata.Stream
import LoadMap.Path
import LoadMap.Word

/-! The modules and assemblies that a managed image refers to: the rows of two metadata tables, in
row order. -/
namespace LoadMap

open LoadMap.Image (Fault)

structure AssemblyReference where
  name : String
  version : String
  deriving DecidableEq, Repr, Inhabited

structure ManagedReferences where
  modules : List String := []
  assemblies : List AssemblyReference := []
  deriving DecidableEq, Repr, Inhabited

namespace Metadata

structure Tables where
  layout : Layout
  starts : List Nat

def readCounts (stream : ByteArray) (valid : Nat) :
    (remaining table cursor : Nat) → Except Fault (List Nat × Nat)
  | 0, _, cursor => .ok ([],cursor)
  | remaining + 1, table, cursor => do
    if valid.testBit table then
      let count ← Bytes.u32 stream cursor
      let (counts,stop) ← readCounts stream valid remaining (table + 1) (← Bytes.sum cursor 4)
      return (count :: counts,stop)
    else
      let (counts,stop) ← readCounts stream valid remaining (table + 1) cursor
      return (0 :: counts,stop)

def tableStarts (layout : Layout) : (tables : List Nat) → (cursor : Nat) → Except Fault (List Nat)
  | [], _ => .ok []
  | table :: rest, cursor => do
    let next ← Bytes.entry cursor (layout.rowSize table) (layout.rowCount table)
    return cursor :: (← tableStarts layout rest next)

def heapWidth (flags bit : Nat) : Nat := if flags.testBit bit then 4 else 2

def readTables (stream : ByteArray) : Except Fault Tables := do
  let some flagByte := stream[6]? | throw .truncatedTables
  let flags := flagByte.toNat
  let low ← Bytes.u32 stream 8
  let high ← Bytes.u32 stream 12
  let (rows,stop) ← readCounts stream (low + Word.limit 32 * high) 64 0 24
  let layout :=
    { rows, string := heapWidth flags 0, guid := heapWidth flags 1, blob := heapWidth flags 2 }
  let first ← if flags.testBit 6 then Bytes.sum stop 4 else pure stop
  return { layout, starts := ← tableStarts layout (List.range columns.length) first }

def Tables.rowOffset (tables : Tables) (table index : Nat) : Except Fault Nat :=
  Bytes.entry (tables.starts[table]?.getD 0) (tables.layout.rowSize table) index

def Tables.rowCount (tables : Tables) (table : Nat) : Nat := tables.layout.rowCount table

def Tables.stringAt (tables : Tables) (streams : Streams) (offset : Nat) :
    Except Fault String := do
  let index ← if tables.layout.string = 2 then Bytes.u16 streams.tables offset
    else Bytes.u32 streams.tables offset
  Bytes.cString streams.strings index

def moduleName (streams : Streams) (tables : Tables) (row : Nat) : Except Fault String := do
  tables.stringAt streams (← tables.rowOffset TableId.moduleRef row)

def versionAt (stream : ByteArray) (offset : Nat) : Except Fault String := do
  let parts ← [0,2,4,6].mapM fun place => do Bytes.u16 stream (← Bytes.sum offset place)
  return ".".intercalate (parts.map toString)

def assemblyReference (streams : Streams) (tables : Tables) (row : Nat) :
    Except Fault AssemblyReference := do
  let offset ← tables.rowOffset TableId.assemblyRef row
  let version ← versionAt streams.tables offset
  let name ← tables.stringAt streams (← Bytes.sum offset (12 + tables.layout.blob))
  return { name, version }

def allRows {α : Type} (read : Nat → Except Fault α) (count : Nat) : Except Fault (List α) :=
  Bytes.collect (fun index => some <$> read index) count 0 #[]

/-- Module names may be empty in the table; those name no module. -/
def references (root : ByteArray) : Except Fault ManagedReferences := do
  let streams ← streams root
  let tables ← readTables streams.tables
  let names ← allRows (moduleName streams tables) (tables.rowCount TableId.moduleRef)
  let assemblies ←
    allRows (assemblyReference streams tables) (tables.rowCount TableId.assemblyRef)
  return { modules := names.filter (· ≠ ""), assemblies }

end Metadata

def ManagedReferences.ofImage (path : Path) (content : ByteArray) : Result ManagedReferences :=
  match Image.parse content with
  | .error _ => .error (.notManaged path.text)
  | .ok image =>
    match image.metadata? with
    | .error fault => .error (.malformedImage fault)
    | .ok none => .error (.notManaged path.text)
    | .ok (some root) => .ofFault (Metadata.references root)

end LoadMap
