import LoadMap.Image.Fault
import LoadMap.Text.Utf8
import LoadMap.Word

/-! Reading numbers, blocks and strings out of the bytes of a file. Every read is checked against
the end of the file. File offsets are 64-bit words: sums and products of them are checked too, and
one that does not fit is a fault of its own. -/
namespace LoadMap.Bytes

open LoadMap.Image (Fault)

def sum (left right : Nat) : Except Fault Nat :=
  if left + right < Word.limit 64 then .ok (left + right) else .error .offsetOverflow

def entry (table size index : Nat) : Except Fault Nat :=
  if table + size * index < Word.limit 64 then .ok (table + size * index)
  else .error .offsetOverflow

def littleEndian (bytes : ByteArray) (offset : Nat) : Nat → Nat
  | 0 => 0
  | count + 1 =>
    (bytes[offset]?.getD 0).toNat + 256 * littleEndian bytes (offset + 1) count

def number (what : String) (count : Nat) (bytes : ByteArray) (offset : Nat) : Except Fault Nat :=
  if offset + count ≤ bytes.size then .ok (littleEndian bytes offset count)
  else .error (.outOfBounds what offset)

def u16 : ByteArray → Nat → Except Fault Nat := number "u16" 2

def u32 : ByteArray → Nat → Except Fault Nat := number "u32" 4

def u64 : ByteArray → Nat → Except Fault Nat := number "u64" 8

def block? (bytes : ByteArray) (start stop : Nat) : Option ByteArray :=
  if start ≤ stop ∧ stop ≤ bytes.size then some (bytes.extract start stop) else none

def zero? (bytes : ByteArray) (offset : Nat) : Option Nat :=
  if inside : offset < bytes.size then
    if bytes[offset] = 0 then some offset else zero? bytes (offset + 1)
  else none
termination_by bytes.size - offset

def cString (bytes : ByteArray) (offset : Nat) : Except Fault String :=
  if offset ≤ bytes.size then
    match zero? bytes offset with
    | some stop => .ok (Text.Utf8.decodeLossy (bytes.extract offset stop).toList)
    | none => .error (.outOfBounds "unterminated string" offset)
  else .error (.outOfBounds "string" offset)

/-- The entries of a table up to the first missing one, `count` at most. -/
def collect {ε α : Type} (read : Nat → Except ε (Option α)) :
    (count index : Nat) → (done : Array α) → Except ε (List α)
  | 0, _, done => .ok done.toList
  | count + 1, index, done =>
    match read index with
    | .error fault => .error fault
    | .ok none => .ok done.toList
    | .ok (some entry) => collect read count (index + 1) (done.push entry)

def startsWith (bytes : ByteArray) (first : List UInt8) : Bool :=
  (bytes.extract 0 first.length).toList == first

def padTo (unit : Nat) (bytes : ByteArray) : ByteArray :=
  bytes ++ (List.replicate ((unit - bytes.size % unit) % unit) 0).toByteArray

end LoadMap.Bytes
