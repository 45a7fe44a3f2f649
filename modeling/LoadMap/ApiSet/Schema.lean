import LoadMap.ApiSet.Map
import LoadMap.Text.Utf16
import LoadMap.Image.SectionView

/-! The API set schema: a section of its system image that lists the contracts, their names and
hosts being UTF-16 strings anywhere in the section. -/
namespace LoadMap.ApiSet

def schemaVersion : Nat := 6

def word (schema : ByteArray) (offset : Nat) : Result Nat :=
  .ofFault (Bytes.u32 schema offset)

def place (left right : Nat) : Result Nat := .ofFault (Bytes.sum left right)

def stringAt (schema : ByteArray) (record : Nat) : Result String := do
  let start ← word schema record
  let length ← word schema (← place record 4)
  match Bytes.block? schema start (← place start length) with
  | some block => return Text.Utf16.decodeLossy block.toList
  | none => throw (.schema (.stringOutOfBounds start))

/-- A host without an importer serves all importers that have none of their own. -/
def hostAt (schema : ByteArray) (table index : Nat) : Result Host := do
  let record ← .ofFault (Bytes.entry table 20 index)
  let importer ← stringAt schema (← place record 4)
  let host ← stringAt schema (← place record 12)
  return { importer? := if importer = "" then none else some importer, host }

def entryAt (schema : ByteArray) (table index : Nat) : Result Entry := do
  let record ← .ofFault (Bytes.entry table 24 index)
  let name ← stringAt schema (← place record 4)
  let hostTable ← word schema (← place record 16)
  let hostCount ← word schema (← place record 20)
  let hosts ← Bytes.collect (fun index => some <$> hostAt schema hostTable index) hostCount 0 #[]
  return { name := Text.lowercase name, hosts }

end ApiSet

namespace ApiSetMap

open ApiSet

def ofSchema (schema : ByteArray) : Result ApiSetMap := do
  let version ← word schema 0
  unless version = schemaVersion do throw (.schema (.unsupportedVersion version))
  let count ← word schema 12
  let table ← word schema 16
  let entries ← Bytes.collect (fun index => some <$> entryAt schema table index) count 0 #[]
  return ofEntries entries

def ofImage? (content : ByteArray) : Result (Option ApiSetMap) := do
  let view ← Image.SectionView.parse content
  match view.section? ".apiset" with
  | none => return none
  | some part => return some (← ofSchema (← view.sectionBytes part))

end ApiSetMap
end LoadMap
