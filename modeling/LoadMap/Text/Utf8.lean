import LoadMap.Word

/-! UTF-8 as it is met in files that may be damaged. `scan` cuts any byte sequence into
characters and broken pieces, a broken piece being the longest beginning of a character that the
next byte does not continue. Reading leniently shows one replacement character per broken piece;
reading strictly refuses the sequence. -/
namespace LoadMap.Text.Utf8

def replacement : Char := '\uFFFD'

/-- How many bytes follow a first byte, and the bounds of the byte right after it. -/
def lead (first : UInt8) : Option (Nat × UInt8 × UInt8) :=
  if first < 0xC2 then none
  else if first < 0xE0 then some (1,0x80,0xBF)
  else if first = 0xE0 then some (2,0xA0,0xBF)
  else if first = 0xED then some (2,0x80,0x9F)
  else if first < 0xF0 then some (2,0x80,0xBF)
  else if first = 0xF0 then some (3,0x90,0xBF)
  else if first < 0xF4 then some (3,0x80,0xBF)
  else if first = 0xF4 then some (3,0x80,0x8F)
  else none

def continuation : Nat → UInt8 → UInt8 → List UInt8 → List UInt8
  | 0, _, _, _ => []
  | _, _, _, [] => []
  | count + 1, low, high, byte :: rest =>
    if low ≤ byte ∧ byte ≤ high then byte :: continuation count 0x80 0xBF rest else []

def leadBits (first : UInt8) (count : Nat) : Nat :=
  first.toNat % Word.limit (6 - count)

def assemble (first : UInt8) (tail : List UInt8) : Char :=
  Char.ofNat (tail.foldl (fun value byte => value * 64 + byte.toNat % 64)
    (leadBits first tail.length))

/-- Characters in order; `none` stands for one broken piece. -/
def scan : List UInt8 → List (Option Char)
  | [] => []
  | first :: rest =>
    if first < 0x80 then some (Char.ofNat first.toNat) :: scan rest
    else match lead first with
      | none => none :: scan rest
      | some (count,low,high) =>
        let tail := continuation count low high rest
        (if tail.length = count then some (assemble first tail) else none)
          :: scan (rest.drop tail.length)
termination_by bytes => bytes.length

def decodeLossy (bytes : List UInt8) : String :=
  String.ofList ((scan bytes).map (·.getD replacement))

def decode? (bytes : List UInt8) : Option String :=
  ((scan bytes).mapM id).map String.ofList

end LoadMap.Text.Utf8
