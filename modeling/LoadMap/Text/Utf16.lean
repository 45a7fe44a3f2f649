import LoadMap.Text.Utf8

/-! UTF-16 text stored as little-endian units. A surrogate without its partner is read as the
replacement character; an odd byte at the end is dropped. -/
namespace LoadMap.Text.Utf16

def units : List UInt8 → List Nat
  | low :: high :: rest => (low.toNat + 256 * high.toNat) :: units rest
  | _ => []

def isHigh (unit : Nat) : Bool := 0xD800 ≤ unit && unit < 0xDC00

def isLow (unit : Nat) : Bool := 0xDC00 ≤ unit && unit < 0xE000

def decodeUnits : List Nat → List Char
  | [] => []
  | unit :: rest =>
    if isHigh unit then
      match rest with
      | [] => [Utf8.replacement]
      | next :: after =>
        if isLow next then
          Char.ofNat (0x10000 + (unit - 0xD800) * 0x400 + (next - 0xDC00)) :: decodeUnits after
        else Utf8.replacement :: decodeUnits (next :: after)
    else if isLow unit then Utf8.replacement :: decodeUnits rest
    else Char.ofNat unit :: decodeUnits rest

def decodeLossy (bytes : List UInt8) : String :=
  String.ofList (decodeUnits (units bytes))

end LoadMap.Text.Utf16
