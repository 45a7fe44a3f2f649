import LoadMap.Image.Address
import LoadMap.Import
import LoadMap.Word

/-! Delay-load imports: a table of 32-byte descriptors that ends with one without a name, each
pointing to a table of functions that ends with a zero. -/
namespace LoadMap.Image

/-- No table is followed further than this, however the file is made. -/
def tableLimit : Nat := 0x10000

/-- The low word of an address difference, which wraps below zero. -/
def relativeTo (base address : Nat) : Nat :=
  (address + Word.limit 64 - base) % Word.limit 32

def thunkSize (image : Image) : Nat := if image.is64 then 8 else 4

def ordinalFlag (image : Image) : Nat := if image.is64 then Word.limit 63 else Word.limit 31

def thunkValue (image : Image) (address : Nat) : Except Fault Nat :=
  if image.is64 then image.u64At address else image.u32At address

/-- An entry with the top bit set is an ordinal; any other points to a hint and a name. -/
def thunkAt (image : Image) (table index : Nat) : Except Fault (Option ImportedFunction) := do
  let thunk ← image.thunkValue (← addressEntry table image.thunkSize index)
  if thunk = 0 then return none
  else if image.ordinalFlag ≤ thunk then
    return some { name? := none, ordinal? := some (thunk % Word.limit 16) }
  else
    let name ← image.cStringAt (← addressSum (thunk % Word.limit 31) 2)
    return some { name? := some name, ordinal? := none }

def thunks (image : Image) (table : Nat) : Except Fault (List ImportedFunction) :=
  Bytes.collect (image.thunkAt table) tableLimit 0 #[]

/-- With bit 0 of the attributes set the fields are relative addresses, else absolute ones. -/
def delayDescriptorAt (image : Image) (table index : Nat) :
    Except Fault (Option ImportDescriptor) := do
  let entry ← addressEntry table 32 index
  let attributes ← image.u32At entry
  let nameField ← image.u32At (← addressSum entry 4)
  if nameField = 0 then return none
  let tableField ← image.u32At (← addressSum entry 16)
  let relative := fun field => if attributes % 2 = 1 then field else relativeTo image.base field
  let dll ← image.cStringAt (relative nameField)
  let functions ← if tableField = 0 then pure [] else image.thunks (relative tableField)
  return some { dll, delay := true, functions }

def delayImports (image : Image) : Except Fault (List ImportDescriptor) :=
  match image.directory? delayImportDirectory with
  | none => .ok []
  | some directory => Bytes.collect (image.delayDescriptorAt directory.address) tableLimit 0 #[]

end LoadMap.Image
