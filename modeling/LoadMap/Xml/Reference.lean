import LoadMap.Text.Pieces
import LoadMap.Text.Utf8
import LoadMap.Word
import LoadMap.Xml.Char

/-! References in character data and attribute values: characters by number, and the five
predefined names. There are no others, as a document may not declare any. -/
namespace LoadMap.Xml

def digitValue? (radix : Nat) (char : Char) : Option Nat :=
  let value :=
    if char.isDigit then char.toNat - 48
    else if 'a' ≤ char ∧ char ≤ 'f' then char.toNat - 87
    else if 'A' ≤ char ∧ char ≤ 'F' then char.toNat - 55
    else radix
  if value < radix then some value else none

def number? (radix : Nat) (digits : List Char) : Option Nat :=
  if digits = [] then none
  else (digits.mapM (digitValue? radix)).map (·.foldl (fun value digit => value * radix + digit) 0)

/-- A number that is no character stands for the replacement character. -/
def characterOf? (code : Nat) : Option Char :=
  if code < Word.limit 32 then
    let char := if code.isValidChar then Char.ofNat code else Text.Utf8.replacement
    if isAllowed char then some char else none
  else none

def referred? : List Char → Option Char
  | ['q','u','o','t'] => some '"'
  | ['a','m','p'] => some '&'
  | ['a','p','o','s'] => some '\''
  | ['l','t'] => some '<'
  | ['g','t'] => some '>'
  | '#' :: 'x' :: digits => (number? 16 digits).bind characterOf?
  | '#' :: digits => (number? 10 digits).bind characterOf?
  | _ => none

def splitReference? (piece : List Char) : Option (Char × List Char) :=
  match piece.dropWhile (· ≠ ';') with
  | [] => none
  | _ :: rest => (referred? (piece.takeWhile (· ≠ ';'))).map (·,rest)

/-- Line breaks and tabs in the plain text of an attribute value are read as spaces. -/
def spaced : List Char → List Char
  | '\r' :: '\n' :: rest => ' ' :: spaced rest
  | char :: rest => (if isSpace char then ' ' else char) :: spaced rest
  | [] => []

/-- The value of an attribute; characters given by references are kept as they are. -/
def attributeValue? (raw : List Char) : Option String :=
  match Text.pieces '&' raw with
  | [] => none
  | first :: others => do
    let rest ← others.mapM splitReference?
    return String.ofList (spaced first ++ rest.flatMap fun (char,plain) => char :: spaced plain)

def holdsEndMark : List Char → Bool
  | ']' :: ']' :: '>' :: _ => true
  | _ :: rest => holdsEndMark rest
  | [] => false

def isText (raw : List Char) : Bool :=
  !holdsEndMark raw &&
    ((Text.pieces '&' raw).drop 1).all fun piece => (splitReference? piece).isSome

end LoadMap.Xml
