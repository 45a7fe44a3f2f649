import LoadMap.Text.Numeral

/-! What can be wrong with the bytes of an image, and how it is told. -/
namespace LoadMap.Image

open LoadMap.Text

inductive Fault
  | outOfBounds (what : String) (offset : Nat)
  | addressOverflow (address displacement : Nat)
  | entryOverflow (index table : Nat)
  | notMapped (what : String) (address : Nat)
  | noDosSignature
  | noSignature
  | unknownMagic (magic : Nat)
  | metadataSignature
  | streamOutOfBounds (name : String)
  | missingStream
  | truncatedTables
  | ordinalOverflow (base : Nat)
  | offsetOverflow
  | described (text : String)
  deriving DecidableEq, Repr

def Fault.message : Fault → String
  | .outOfBounds what offset => s!"{what} out of bounds at offset {hexAddress offset}"
  | .addressOverflow address displacement =>
    s!"RVA {hexAddress address} + {hexAddress displacement} overflows"
  | .entryOverflow index table => s!"table entry {index} at RVA {hexAddress table} overflows"
  | .notMapped what address => s!"{what} at RVA {hexAddress address} is not mapped"
  | .noDosSignature => "missing MZ signature"
  | .noSignature => "missing PE signature"
  | .unknownMagic magic => s!"unknown optional header magic {hexAddress magic}"
  | .metadataSignature => "invalid metadata signature"
  | .streamOutOfBounds name => s!"metadata stream {name} out of bounds"
  | .missingStream => "metadata without table or string stream"
  | .truncatedTables => "truncated table stream"
  | .ordinalOverflow base => s!"export ordinal base {hexAddress base} overflows"
  | .offsetOverflow => "file offset overflows"
  | .described text => text

end LoadMap.Image
