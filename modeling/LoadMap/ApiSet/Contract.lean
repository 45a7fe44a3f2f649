import LoadMap.Text.Lowercase
import LoadMap.Text.Digit

/-! Names of API set contracts: `api` or `ext`, a middle part, and three version numbers, the
first of them behind an `l`. Only the letters `A`–`Z` of such a name can differ in case, because
no other character has one of its letters for a small form. -/
namespace LoadMap.ApiSet

/-- Contract names are read from their end, so what remains is a name in reverse. -/
abbrev Reversed := List Char

def afterDigits? (rest : Reversed) : Option Reversed :=
  if rest.takeWhile Text.Digit.isDecimal = [] then none
  else some (rest.dropWhile Text.Digit.isDecimal)

def after? (char : Char) : Reversed → Option Reversed
  | first :: rest => if first.toLower = char then some rest else none
  | [] => none

def dropExtension (rest : Reversed) : Reversed :=
  if (rest.take 4).map Char.toLower = ['l','l','d','.'] then rest.drop 4 else rest

def beforeVersion? (name : List Char) : Option (List Char) := do
  let rest ← afterDigits? (dropExtension name.reverse)
  let rest ← afterDigits? (← after? '-' rest)
  let rest ← afterDigits? (← after? '-' rest)
  let rest ← after? '-' (← after? 'l' rest)
  return rest.reverse

def isFamily (chars : List Char) : Bool :=
  let lowered := chars.map Char.toLower
  lowered == ['a','p','i','-'] || lowered == ['e','x','t','-']

def isContractName (name : String) : Bool :=
  match beforeVersion? name.toList with
  | none => false
  | some start =>
    isFamily (start.take 4) && start.drop 4 ≠ [] && !(start.drop 4).contains '\n'

/-- The key under which a contract is looked up: the last version number does not count, nor do
letter case and extension. -/
def hashedName (name : String) : String :=
  let reversed := (Text.lowercase name).toList.reverse
  let stem := if reversed.take 4 = ['l','l','d','.'] then reversed.drop 4 else reversed
  match stem.dropWhile (· ≠ '-') with
  | [] => String.ofList stem.reverse
  | _ :: before => String.ofList before.reverse

end LoadMap.ApiSet
