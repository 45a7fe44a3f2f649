import LoadMap.Bytes

/-! The streams of a metadata root. After the version text comes a directory of streams, each with
its place and name; of two streams with one name the later counts. -/
namespace LoadMap.Metadata

open LoadMap.Image (Fault)

structure Streams where
  tables : ByteArray
  strings : ByteArray

structure Found where
  tables? : Option ByteArray := none
  strings? : Option ByteArray := none

def Found.note (found : Found) (name : String) (content : ByteArray) : Found :=
  if name = "#~" ∨ name = "#-" then { found with tables? := some content }
  else if name = "#Strings" then { found with strings? := some content }
  else found

def rootSignature : Nat := 0x424A5342

/-- A name with its final zero is padded to a multiple of four bytes. -/
def paddedLength (name : String) : Nat := (name.utf8ByteSize + 4) / 4 * 4

def scanStreams (root : ByteArray) : (count header : Nat) → Found → Except Fault Found
  | 0, _, found => .ok found
  | count + 1, header, found => do
    let offset ← Bytes.u32 root header
    let size ← Bytes.u32 root (← Bytes.sum header 4)
    let nameOffset ← Bytes.sum header 8
    let name ← Bytes.cString root nameOffset
    match Bytes.block? root offset (← Bytes.sum offset size) with
    | none => throw (.streamOutOfBounds name)
    | some content =>
      scanStreams root count (← Bytes.sum nameOffset (paddedLength name)) (found.note name content)

def streams (root : ByteArray) : Except Fault Streams := do
  unless (← Bytes.u32 root 0) = rootSignature do throw .metadataSignature
  let versionLength ← Bytes.u32 root 12
  let directory ← Bytes.sum 16 versionLength
  let count ← Bytes.u16 root (← Bytes.sum directory 2)
  match ← scanStreams root count (← Bytes.sum directory 4) {} with
  | { tables? := some tables, strings? := some strings } => return { tables, strings }
  | _ => throw .missingStream

end LoadMap.Metadata
