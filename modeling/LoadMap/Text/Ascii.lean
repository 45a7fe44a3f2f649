/-! Letter case limited to `A`–`Z`: all other characters stand for themselves. -/
namespace LoadMap.Text.Ascii

def lower (text : String) : String :=
  String.ofList (text.toList.map Char.toLower)

def equalIgnoringCase (left right : String) : Bool :=
  lower left == lower right

end LoadMap.Text.Ascii
