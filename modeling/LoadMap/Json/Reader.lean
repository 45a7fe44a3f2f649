import LoadMap.Json.Value

/-! Reading JSON strictly: one value, white space around it, nothing else. -/
namespace LoadMap.Json

abbrev Rest := List Char

def isSpace (char : Char) : Bool :=
  char == ' ' || char == '\n' || char == '\t' || char == '\r'

def dropSpace (chars : List Char) : Rest := chars.dropWhile isSpace

def hexValue? (char : Char) : Option Nat :=
  if char.isDigit then some (char.toNat - 48)
  else if 'a' ≤ char ∧ char ≤ 'f' then some (char.toNat - 87)
  else if 'A' ≤ char ∧ char ≤ 'F' then some (char.toNat - 55)
  else none

/-- A part of a string: a character, or a UTF-16 unit given by number. -/
inductive Piece
  | char (char : Char)
  | unit (code : Nat)
  deriving Repr

def namedEscape? : Char → Option Char
  | '"' => some '"'
  | '\\' => some '\\'
  | '/' => some '/'
  | 'b' => some '\x08'
  | 'f' => some '\x0c'
  | 'n' => some '\n'
  | 'r' => some '\r'
  | 't' => some '\t'
  | _ => none

def pieces? : List Char → Option (List Piece × Rest)
  | '"' :: rest => some ([],rest)
  | '\\' :: 'u' :: a :: b :: c :: d :: rest => do
    let code := (((← hexValue? a) * 16 + (← hexValue? b)) * 16 + (← hexValue? c)) * 16
      + (← hexValue? d)
    let (others,rest) ← pieces? rest
    return (.unit code :: others,rest)
  | '\\' :: char :: rest => do
    let escaped ← namedEscape? char
    let (others,rest) ← pieces? rest
    return (.char escaped :: others,rest)
  | char :: rest => do
    guard (32 ≤ char.toNat)
    let (others,rest) ← pieces? rest
    return (.char char :: others,rest)
  | [] => none

/-- The characters of a string; a surrogate needs its partner right behind it. -/
def joinPieces? : List Piece → Option (List Char)
  | [] => some []
  | .char char :: rest => (joinPieces? rest).map (char :: ·)
  | .unit high :: .unit low :: rest =>
    if 0xD800 ≤ high ∧ high < 0xDC00 ∧ 0xDC00 ≤ low ∧ low < 0xE000 then
      (joinPieces? rest).map
        (Char.ofNat (0x10000 + (high - 0xD800) * 0x400 + (low - 0xDC00)) :: ·)
    else if 0xD800 ≤ high ∧ high < 0xE000 then none
    else (joinPieces? (.unit low :: rest)).map (Char.ofNat high :: ·)
  | .unit code :: rest =>
    if 0xD800 ≤ code ∧ code < 0xE000 then none
    else (joinPieces? rest).map (Char.ofNat code :: ·)

/-- A string behind its opening quote; its text is none when it stands for none. -/
def string? (chars : List Char) : Option (Option String × Rest) :=
  (pieces? chars).map fun (pieces,rest) => ((joinPieces? pieces).map String.ofList,rest)

def digits (chars : List Char) : List Char × Rest := chars.span Char.isDigit

def whole? (chars : List Char) : Option (List Char × Rest) :=
  match digits chars with
  | ([],_) => none
  | ('0' :: _ :: _,_) => none
  | found => some found

def fraction? : List Char → Option (List Char × Rest)
  | '.' :: rest =>
    match digits rest with
    | ([],_) => none
    | (found,rest) => some ('.' :: found,rest)
  | chars => some ([],chars)

def exponent? : List Char → Option (List Char × Rest)
  | mark :: rest =>
    if mark = 'e' ∨ mark = 'E' then
      let (sign,rest) := match rest with
        | '+' :: rest => (['+'],rest)
        | '-' :: rest => (['-'],rest)
        | rest => ([],rest)
      match digits rest with
      | ([],_) => none
      | (found,rest) => some (mark :: sign ++ found,rest)
    else some ([],mark :: rest)
  | [] => some ([],[])

def number? (chars : List Char) : Option (Json × Rest) := do
  let (sign,rest) := match chars with
    | '-' :: rest => (['-'],rest)
    | rest => ([],rest)
  let (whole,rest) ← whole? rest
  let (fraction,rest) ← fraction? rest
  let (exponent,rest) ← exponent? rest
  return (.number (String.ofList (sign ++ whole ++ fraction ++ exponent)),rest)

def objectOf (fields : List (Option String × Json)) : Json :=
  match fields.mapM fun (key?,value) => key?.map (·,value) with
  | some fields => .object fields
  | none => .unreadable

mutual
/-- A value at the beginning of the characters. Every step takes characters, so their number
bounds the steps. -/
def value? : Nat → List Char → Option (Json × Rest)
  | 0, _ => none
  | steps + 1, chars =>
    match dropSpace chars with
    | 'n' :: 'u' :: 'l' :: 'l' :: rest => some (.null,rest)
    | 't' :: 'r' :: 'u' :: 'e' :: rest => some (.bool true,rest)
    | 'f' :: 'a' :: 'l' :: 's' :: 'e' :: rest => some (.bool false,rest)
    | '"' :: rest => (string? rest).map fun (text?,rest) =>
      (match text? with
        | some text => .string text
        | none => .unreadable,rest)
    | '[' :: rest =>
      match dropSpace rest with
      | ']' :: rest => some (.array [],rest)
      | rest => (items? steps rest).map fun (items,rest) => (.array items,rest)
    | '\x7b' :: rest =>
      match dropSpace rest with
      | '\x7d' :: rest => some (.object [],rest)
      | rest => (fields? steps rest).map fun (fields,rest) => (objectOf fields,rest)
    | rest => number? rest

def items? : Nat → List Char → Option (List Json × Rest)
  | 0, _ => none
  | steps + 1, chars =>
    match value? steps chars with
    | none => none
    | some (item,rest) =>
      match dropSpace rest with
      | ']' :: rest => some ([item],rest)
      | ',' :: rest => (items? steps rest).map fun (items,rest) => (item :: items,rest)
      | _ => none

def fields? : Nat → List Char → Option (List (Option String × Json) × Rest)
  | 0, _ => none
  | steps + 1, chars =>
    match dropSpace chars with
    | '"' :: rest =>
      match string? rest with
      | none => none
      | some (key?,rest) =>
        match dropSpace rest with
        | ':' :: rest =>
          match value? steps rest with
          | none => none
          | some (value,rest) =>
            match dropSpace rest with
            | '\x7d' :: rest => some ([(key?,value)],rest)
            | ',' :: rest =>
              (fields? steps rest).map fun (fields,rest) => ((key?,value) :: fields,rest)
            | _ => none
        | _ => none
    | _ => none
end

def read? (text : String) : Option Json := do
  let chars := text.toList
  let (value,rest) ← value? (chars.length + 1) chars
  if dropSpace rest = [] then some value else none

end LoadMap.Json
