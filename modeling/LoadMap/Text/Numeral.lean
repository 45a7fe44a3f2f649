/-! Numbers in base sixteen, as addresses are written. -/
namespace LoadMap.Text

def hexAddress (value : Nat) : String :=
  "0x" ++ String.ofList (Nat.toDigits 16 value)

def hexCapital (value : Nat) : String :=
  String.ofList ((Nat.toDigits 16 value).map Char.toUpper)

end LoadMap.Text
