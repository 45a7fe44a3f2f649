import LoadMap.Text.CaseTable

/-! Full lower-casing. Two characters need more than the table: a dotted capital I becomes an `i`
with a combining dot, and a capital sigma takes its final form when it ends a word, that is when a
cased character precedes it and none follows, ignorable characters aside. -/
namespace LoadMap.Text

open CaseTable

def meetsCase (chars : List Char) : Bool :=
  match chars.dropWhile isIgnorable with
  | [] => false
  | char :: _ => isCased char

/-- `before` holds the characters already passed, nearest first. -/
def lowerFrom (before : List Char) : List Char → List Char
  | [] => []
  | char :: after =>
    let lowered :=
      if char = '\u03A3' then
        [if meetsCase before && !meetsCase after then '\u03C2' else '\u03C3']
      else if char = '\u0130' then ['i','\u0307']
      else if char.toNat < 0x80 then [char.toLower]
      else [Char.ofNat (lowerOf char.toNat)]
    lowered ++ lowerFrom (char :: before) after

def lowercase (text : String) : String :=
  String.ofList (lowerFrom [] text.toList)

end LoadMap.Text
