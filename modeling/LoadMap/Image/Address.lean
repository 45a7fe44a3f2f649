import LoadMap.Image.Basic
import LoadMap.Word

/-! Addresses of a loaded image and the file offsets behind them. The first section that covers an
address owns it; what lies before all sections is mapped one to one. -/
namespace LoadMap.Image

def addressSum (address displacement : Nat) : Except Fault Nat :=
  if address + displacement < Word.limit 32 then .ok (address + displacement)
  else .error (.addressOverflow address displacement)

def addressEntry (table size index : Nat) : Except Fault Nat :=
  if size * index < Word.limit 32 then addressSum table (size * index)
  else .error (.entryOverflow index table)

namespace Section

def covers (part : Section) (address : Nat) : Bool :=
  part.virtualAddress ≤ address &&
    address - part.virtualAddress < max part.virtualSize part.rawSize

/-- Past the raw data a section is filled with zeros that the file does not hold. -/
def offset? (part : Section) (address : Nat) : Option Nat :=
  let delta := address - part.virtualAddress
  if delta < part.rawSize ∧ part.rawOffset + delta < Word.limit 32 then
    some (part.rawOffset + delta)
  else none

end Section

def offset? (image : Image) (address : Nat) : Option Nat :=
  match image.sections.find? (·.covers address) with
  | some part => part.offset? address
  | none =>
    if (image.sections.all fun part => address < part.virtualAddress) ∧ address < image.bytes.size
    then some address else none

def offsetOf (image : Image) (what : String) (address : Nat) : Except Fault Nat :=
  match image.offset? address with
  | some offset => .ok offset
  | none => .error (.notMapped what address)

def u32At (image : Image) (address : Nat) : Except Fault Nat := do
  Bytes.u32 image.bytes (← image.offsetOf "u32" address)

def u64At (image : Image) (address : Nat) : Except Fault Nat := do
  Bytes.u64 image.bytes (← image.offsetOf "u64" address)

def cStringAt (image : Image) (address : Nat) : Except Fault String := do
  Bytes.cString image.bytes (← image.offsetOf "string" address)

def bytesAt (image : Image) (address length : Nat) : Except Fault ByteArray := do
  let start ← image.offsetOf "data" address
  match Bytes.block? image.bytes start (start + length) with
  | some block => return block
  | none => throw (.outOfBounds "data" start)

end LoadMap.Image
