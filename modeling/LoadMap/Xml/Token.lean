import LoadMap.Xml.Reference

/-! The tokens of an XML document: tags, character data, and what says nothing about the tree of
elements. A document type declaration is no token. -/
namespace LoadMap.Xml

structure Name where
  qualifier : String
  localPart : String
  deriving DecidableEq, Repr, Inhabited

structure Attribute where
  name : Name
  value : String
  deriving DecidableEq, Repr, Inhabited

inductive Token
  | opening (name : Name) (attributes : List Attribute) (closed : Bool)
  | closing (name : Name)
  | blank
  | text
  | remark
  deriving DecidableEq, Repr, Inhabited

abbrev Rest := List Char

def dropSpace (chars : List Char) : Rest := chars.dropWhile isSpace

def after? (start chars : List Char) : Option Rest :=
  if start.isPrefixOf chars then some (chars.drop start.length) else none

def upTo? (mark : List Char) : List Char → Option (List Char × Rest)
  | [] => none
  | char :: rest =>
    if mark.isPrefixOf (char :: rest) then some ([],(char :: rest).drop mark.length)
    else if isAllowed char then
      (upTo? mark rest).map fun (before,behind) => (char :: before,behind)
    else none

def nameRun (colon : Bool) : List Char → List Char
  | [] => []
  | char :: rest =>
    if char = ':' then if colon then [] else char :: nameRun true rest
    else if isNameRest char then char :: nameRun colon rest else []

def startsName (chars : List Char) : Bool := chars.head?.any isNameStart

/-- A qualified name; an empty qualifier with its colon is passed over. -/
def name? (chars : List Char) : Option (Name × Rest) :=
  let run := nameRun false chars
  let rest := chars.drop run.length
  match run.span (· ≠ ':') with
  | (whole,[]) =>
    if startsName whole then some (⟨"",String.ofList whole⟩,rest) else none
  | (qualifier,_ :: localPart) =>
    if (qualifier = [] ∨ startsName qualifier) ∧ startsName localPart then
      some (⟨String.ofList qualifier,String.ofList localPart⟩,rest)
    else none

def quoted? : List Char → Option (List Char × Rest)
  | [] => none
  | quote :: rest =>
    if quote = '"' ∨ quote = '\'' then
      match upTo? [quote] rest with
      | some (value,behind) => if value.contains '<' then none else some (value,behind)
      | none => none
    else none

def rawAttribute? (chars : List Char) : Option (Name × List Char × Rest) := do
  let (name,rest) ← name? chars
  let rest ← after? ['='] (dropSpace rest)
  let (value,rest) ← quoted? (dropSpace rest)
  return (name,value,rest)

/-- The attributes of a start tag up to its end. Every step takes characters, so their number
bounds the steps. -/
def attributes? : Nat → List Char → Option (List Attribute × Bool × Rest)
  | 0, _ => none
  | steps + 1, chars =>
    match dropSpace chars with
    | '/' :: '>' :: rest => some ([],true,rest)
    | '>' :: rest => some ([],false,rest)
    | within => do
      guard (within.length < chars.length)
      let (name,raw,rest) ← rawAttribute? within
      let value ← attributeValue? raw
      let (others,closed,rest) ← attributes? steps rest
      return (⟨name,value⟩ :: others,closed,rest)

def holdsHyphens : List Char → Bool
  | ['-'] => true
  | '-' :: '-' :: _ => true
  | _ :: rest => holdsHyphens rest
  | [] => false

def comment? (chars : List Char) : Option (Token × Rest) := do
  let (body,rest) ← upTo? ['-','-','>'] chars
  guard (!holdsHyphens body)
  return (.remark,rest)

def declarationStart : List Char := ['<','?','x','m','l',' ']

def instruction? (chars : List Char) : Option (Token × Rest) := do
  guard (startsName chars)
  let (_,rest) ← upTo? ['?','>'] (dropSpace (chars.dropWhile isNameRest))
  return (.remark,rest)

def closing? (chars : List Char) : Option (Token × Rest) := do
  let (name,rest) ← name? chars
  return (.closing name,← after? ['>'] (dropSpace rest))

def opening? (chars : List Char) : Option (Token × Rest) := do
  let (name,rest) ← name? chars
  let (attributes,closed,rest) ← attributes? (rest.length + 1) rest
  return (.opening name attributes closed,rest)

def characterData? (chars : List Char) : Option (Token × Rest) :=
  let raw := chars.takeWhile (· ≠ '<')
  if raw.all isSpace then some (.blank,chars.drop raw.length)
  else if raw.all isAllowed && isText raw then some (.text,chars.drop raw.length)
  else none

def token? (chars : List Char) : Option (Token × Rest) :=
  match chars with
  | '<' :: '!' :: '-' :: '-' :: rest => comment? rest
  | '<' :: '!' :: '[' :: 'C' :: 'D' :: 'A' :: 'T' :: 'A' :: '[' :: rest =>
    (upTo? [']',']','>'] rest).map fun (_,rest) => (.text,rest)
  | '<' :: '?' :: rest => if declarationStart.isPrefixOf chars then none else instruction? rest
  | '<' :: '/' :: rest => closing? rest
  | '<' :: rest => opening? rest
  | _ => characterData? chars

def tokens? : Nat → List Char → Option (List Token)
  | _, [] => some []
  | 0, _ => none
  | steps + 1, chars => do
    let (token,rest) ← token? chars
    return token :: (← tokens? steps rest)

/-- White space that another part of the declaration must follow, unless it ends here. -/
def declarationGap? (chars : List Char) : Option Rest :=
  if chars.head?.any isSpace then some (dropSpace chars)
  else if chars = [] ∨ ['?','>'].isPrefixOf chars then some chars
  else none

def declarationPart? (keyword : String) (chars : List Char) : Option Rest :=
  if keyword.toList.isPrefixOf chars then (rawAttribute? chars).map (·.2.2) else some chars

/-- What follows the declaration. Its parts come in a fixed order; their values say nothing. -/
def afterDeclaration? (chars : List Char) : Option Rest := do
  let rest := dropSpace (chars.drop 5)
  guard ("version".toList.isPrefixOf rest)
  let rest ← declarationGap? (← declarationPart? "version" rest)
  let rest ← if "encoding".toList.isPrefixOf rest then
      (declarationPart? "encoding" rest).bind declarationGap?
    else some rest
  let rest ← declarationPart? "standalone" rest
  after? ['?','>'] (dropSpace rest)

def documentTokens? (text : String) : Option (List Token) := do
  let chars := match text.toList with
    | '\uFEFF' :: rest => rest
    | chars => chars
  let body ← if declarationStart.isPrefixOf chars then afterDeclaration? chars else some chars
  tokens? body.length body

end LoadMap.Xml
