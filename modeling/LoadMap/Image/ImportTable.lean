import LoadMap.Image.LoaderView
import LoadMap.Import
import LoadMap.Word

/-! The import table: 20-byte entries, each naming a module and pointing to two tables of its
functions, the lookup table and the address table. -/
namespace LoadMap.Image

/-- One function of the table, as it is listed: by-ordinal functions have a made-up name, and
by-name functions have the hint for a number. -/
structure TableImport where
  dll : String
  name : String
  number : Nat
  deriving DecidableEq, Repr

namespace ImportTable

open LoaderView

def importDirectory : Nat := 1
def resourceDirectory : Nat := 2
def runtimeDirectory : Nat := 14

structure Entry where
  lookup : Nat
  name : Nat
  addresses : Nat

/-- The table ends with an entry that lacks a name or an address table. -/
def entryAt (view : LoaderView) (offset : Nat) : Result (Option Entry) :=
  match Bytes.block? view.bytes offset (offset + 20) with
  | none => refuse "import table out of bounds"
  | some block =>
    let name := Bytes.littleEndian block 12 4
    let addresses := Bytes.littleEndian block 16 4
    if name = 0 ∨ addresses = 0 then .ok none
    else .ok (some { lookup := Bytes.littleEndian block 0 4, name, addresses })

def thunkSize (view : LoaderView) : Nat := if view.is64 then 8 else 4

/-- The entries of a table that a zero ends. No table has more entries than the file has bytes. -/
def thunksAt (view : LoaderView) (offset : Nat) : Result (List Nat) :=
  Bytes.collect (fun index => do
    let value ← checked
      (Bytes.number "thunk" (thunkSize view) view.bytes (offset + thunkSize view * index))
    return if value = 0 then none else some value) (view.bytes.size + 1) 0 #[]

/-- A function whose name has no place in the file is left out. -/
def functionOf (view : LoaderView) (dll : String) (thunk : Nat) : Result (Option TableImport) :=
  if Word.limit (8 * thunkSize view - 1) ≤ thunk then
    let number := thunk % Word.limit 16
    .ok (some { dll, name := s!"ORDINAL {number}", number })
  else match view.offset? (thunk % Word.limit 31) with
    | none => .ok none
    | some offset => do
      let number ← checked (Bytes.u16 view.bytes offset)
      return some { dll, name := ← nameAt view.bytes (offset + 2), number }

/-- The functions come from the lookup table; the address table stands in for one that is not
mapped. -/
def functionsOf (view : LoaderView) (entry : Entry) : Result (List TableImport) := do
  let place ← view.offsetOf "module name" entry.name
  if view.bytes.size ≤ place then refuse "module name out of bounds"
  let dll ← nameAt view.bytes place
  let table? := (view.offset? entry.lookup).or (view.offset? entry.addresses)
  let functions ← match table? with
    | none => pure []
    | some table => do
      let thunks ← thunksAt view table
      pure ((← thunks.mapM (functionOf view dll)).filterMap id)
  discard (thunksAt view (← view.offsetOf "import address table" entry.addresses))
  return functions

def read (view : LoaderView) : Result (List TableImport) :=
  match view.directory? importDirectory with
  | none => .ok []
  | some (address,_) => do
    let table ← view.offsetOf "import table" address
    let entries ← Bytes.collect (fun index => entryAt view (table + 20 * index))
      (view.bytes.size + 1) 0 #[]
    return (← entries.mapM (functionsOf view)).flatten

/-- The runtime header of a managed image and its metadata must lie in the file. The version of the
metadata must be text, with room for the number of streams behind it; it may go on behind the
metadata. -/
def checkRuntime (view : LoaderView) : Result Unit :=
  match view.directory? runtimeDirectory with
  | none => .ok ()
  | some (address,_) => do
    let header ← view.offsetOf "runtime header" address
    match Bytes.block? view.bytes header (header + 72) with
    | none => refuse "runtime header out of bounds"
    | some block =>
      let root ← view.offsetOf "metadata" (Bytes.littleEndian block 8 4)
      if view.bytes.size < root + Bytes.littleEndian block 12 4 then refuse "metadata out of bounds"
      let length ← checked (Bytes.u32 view.bytes (root + 12))
      match Bytes.block? view.bytes (root + 16) (root + 16 + length + 4) with
      | none => refuse "metadata version out of bounds"
      | some version =>
        if (Text.Utf8.decode? (version.extract 0 length).toList).isNone then
          refuse "metadata version is not text"

def checkResources (view : LoaderView) : Result Unit :=
  match view.directory? resourceDirectory with
  | none => .ok ()
  | some (address,size) => do
    let start ← view.offsetOf "resources" address
    if view.bytes.size < start + size then refuse "resources out of bounds"

end ImportTable

def ImportedFunction.ofTable (item : TableImport) : ImportedFunction :=
  if "ORDINAL ".toList.isPrefixOf item.name.toList then
    { name? := none, ordinal? := some item.number }
  else { name? := some item.name, ordinal? := none }

/-- Neighbouring functions of one module share a descriptor. -/
def groupImports : List TableImport → List ImportDescriptor
  | [] => []
  | item :: rest =>
    let function := ImportedFunction.ofTable item
    match groupImports rest with
    | first :: others =>
      if first.dll = item.dll then
        { first with functions := function :: first.functions } :: others
      else { dll := item.dll, delay := false, functions := [function] } :: first :: others
    | [] => [{ dll := item.dll, delay := false, functions := [function] }]

end LoadMap.Image
