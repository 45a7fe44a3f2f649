/-! The characters of XML documents and of the names in them. -/
namespace LoadMap.Xml

def isSpace (char : Char) : Bool :=
  char == ' ' || char == '\t' || char == '\n' || char == '\r'

/-- Control characters other than white space, and two code points, may not occur at all. -/
def isAllowed (char : Char) : Bool :=
  if char.toNat < 0x20 then isSpace char else char.toNat != 0xFFFE && char.toNat != 0xFFFF

def nameStartRanges : List (Nat × Nat) :=
  [(0xC0,0xD6),(0xD8,0xF6),(0xF8,0x2FF),(0x370,0x37D),(0x37F,0x1FFF),(0x200C,0x200D),
    (0x2070,0x218F),(0x2C00,0x2FEF),(0x3001,0xD7FF),(0xF900,0xFDCF),(0xFDF0,0xFFFD),
    (0x10000,0xEFFFF)]

def nameRestRanges : List (Nat × Nat) :=
  [(0xB7,0xB7),(0x300,0x36F),(0x203F,0x2040)]

def within (ranges : List (Nat × Nat)) (char : Char) : Bool :=
  ranges.any fun range => range.1 ≤ char.toNat && char.toNat ≤ range.2

def isNameStart (char : Char) : Bool :=
  if char.toNat < 0x80 then char.isAlpha || char == ':' || char == '_'
  else within nameStartRanges char

def isNameRest (char : Char) : Bool :=
  if char.toNat < 0x80 then
    char.isAlphanum || char == ':' || char == '_' || char == '-' || char == '.'
  else within nameStartRanges char || within nameRestRanges char

end LoadMap.Xml
