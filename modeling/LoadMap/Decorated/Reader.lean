import LoadMap.Decorated.Code
import LoadMap.Decorated.Printer
import LoadMap.Word

/-! Decorated names read as declarations. A name is a run of letter codes without brackets, and
each code says what has to follow it; a digit stands for a name or a type that has come before. -/
namespace LoadMap.Decorated

structure Reader where
  rest : List Char
  /-- The names and types that a digit can refer to, at most ten of each. -/
  names : List Name := []
  types : List Ty := []

abbrev Read := StateT Reader Option

def peek? : Read (Option Char) := do
  return (← get).rest.head?

def next : Read Char := do
  let char ← (← get).rest.head?
  modify fun reader => { reader with rest := reader.rest.tail }
  return char

def skip (text : String) : Read Bool := do
  let isNext := text.toList.isPrefixOf (← get).rest
  if isNext then
    modify fun reader => { reader with rest := reader.rest.drop text.length }
  return isNext

def expect (text : String) : Read Unit := do
  guard (← skip text)

def coded {α : Type} (code : Char → Option α) : Read α := do
  code (← next)

def repeated {α : Type} (follows : Read Bool) (item : Read α) : (limit : Nat) → Read (List α)
  | 0 => failure
  | limit + 1 => do
    if ← follows then
      let first ← item
      return first :: (← repeated follows item limit)
    else return []

def digit? : Read (Option Nat) := do
  match ← peek? with
  | some char =>
    if char.isDigit then
      discard next
      return some (char.toNat - '0'.toNat)
    else return none
  | none => return none

/-- Of ten names at most, none is kept twice. -/
def remembered {α : Type} (text : α → String) (items : List α) (item : α) : List α :=
  if items.length < 10 ∧ ¬ (items.map text).contains (text item) then items ++ [item] else items

def rememberName (name : Name) : Read Unit :=
  modify fun reader => { reader with names := remembered Name.fullText reader.names name }

def rememberType (type : Ty) : Read Unit :=
  modify fun reader => { reader with types := remembered Ty.fullText reader.types type }

/-- What a template is made of is referred to inside it, and nothing else. -/
def apart {α : Type} (item : Read α) : Read α := do
  let outside ← get
  set { outside with names := [], types := [] }
  let found ← item
  modify fun reader => { reader with names := outside.names, types := outside.types }
  return found

def toAtSign : Read String := do
  let (text,rest) := (← get).rest.span (· ≠ '@')
  guard (rest ≠ [])
  modify fun reader => { reader with rest := rest.tail }
  return String.ofList text

def hexDigit? (char : Char) : Option Nat :=
  if 'A' ≤ char ∧ char ≤ 'P' then some (char.toNat - 'A'.toNat) else none

/-- A number from one to ten by a digit, any other in base sixteen; it is held in a word. -/
def number : Read Int := do
  let isNegative ← skip "?"
  let value ← match ← digit? with
    | some digit => pure (digit + 1)
    | none => do
      let digits ← (← toAtSign).toList.mapM fun char => (hexDigit? char : Option Nat)
      pure (digits.foldl (fun value digit => value * 16 + digit) 0)
  return Int.bmod (if isNegative then - (value : Int) else value) (Word.limit 32)

def isKeyDigit (char : Char) : Bool :=
  char.isDigit || 'a' ≤ char && char ≤ 'f' || 'A' ≤ char && char ≤ 'F'

def spelledName : Read Name := do
  let name := Name.plain (← toAtSign)
  rememberName name
  return name

def qualifiers? : Char → Option Qualifiers
  | 'A' => some {}
  | 'B' => some { const := true }
  | 'C' => some { volatile := true }
  | 'D' => some { const := true, volatile := true }
  | _ => none

def memberQualifiers? : Char → Option Qualifiers
  | 'Q' => some {}
  | 'R' => some { const := true }
  | 'S' => some { volatile := true }
  | 'T' => some { const := true, volatile := true }
  | code => qualifiers? code

def valueQualifiers? : Char → Option Qualifiers
  | 'E' => some { isFar := true }
  | 'F' => some { const := true, isFar := true }
  | 'G' => some { volatile := true, isFar := true }
  | 'H' => some { const := true, volatile := true, isFar := true }
  | code => memberQualifiers? code

def qualifiers (code : Char → Option Qualifiers) : Read Qualifiers := do
  match (← peek?).bind code with
  | some found =>
    discard next
    return found
  | none => return {}

/-- On which objects a method can be called, and what it may do with them. Marks stand in front, for
the size of the pointer to the object, for its being the only way there, and for objects that are
not aligned. -/
def objectQualifiers : Read (Qualifiers × ObjectKind) := do
  discard (skip "E")
  let restrict ← skip "I"
  discard (skip "F")
  let object ← if ← skip "G" then pure ObjectKind.lvalue
    else if ← skip "H" then pure ObjectKind.rvalue
    else pure ObjectKind.any
  let found ← qualifiers memberQualifiers?
  return ({ found with restrict := restrict },object)

def followsParameter : Read Bool := do
  match ← peek? with
  | some '@' | some 'Z' | none => return false
  | some _ => return true

/-- A type that a digit can refer to later on; a type of one letter is not worth a digit. -/
def parameter (type : Read Ty) : Read Ty := do
  let before := (← get).rest.length
  let found ← type
  if (← get).rest.length + 1 < before then rememberType found
  return found

def parameters (type : Read Ty) (limit : Nat) : Read (List Ty) := do
  if ← skip "X" then return [.word "void" {}]
  let listed ← repeated followsParameter (parameter type) limit
  if ← skip "@" then return listed
  expect "Z"
  return listed ++ [.word "..." {}]

def result (type : Qualifiers → Read Ty) : Read Ty := do
  if ← skip "?" then type (← coded qualifiers?) else type {}

def methodResult (type : Qualifiers → Read Ty) : Read Ty := do
  if ← skip "@" then return .absent else result type

def innerResult (type : Qualifiers → Read Ty) : Read Ty := do
  if ← skip "?" then type (← qualifiers valueQualifiers?) else type {}

def functionType (result type : Read Ty) (limit : Nat) (own : Qualifiers) (object : ObjectKind) :
    Read Ty := do
  let convention ← coded Code.convention?
  let result ← result
  let listed ← parameters type limit
  expect "Z"
  return .function convention result listed own object

def lengths : (count : Nat) → Read (List Int)
  | 0 => return []
  | count + 1 => do
    let first ← number
    return first :: (← lengths count)

/-- An array of arrays is qualified on each level. -/
def array (type : Read Ty) : Read Ty := do
  let count ← number
  guard (0 < count)
  let lengths ← lengths count.toNat
  let own ← if ← skip "$$C" then coded elementQualifiers? else pure {}
  return lengths.foldr (fun length element => .array length element own) (← type)
where
  elementQualifiers? : Char → Option Qualifiers
    | 'C' => some { const := true, volatile := true }
    | code => qualifiers? code

def templateParameter (number : Int) : Ty :=
  .word ("`template-parameter" ++ toString number ++ "'") {}

def Name.isWhole : Name → Bool
  | .special (.lifetime _ _) => true
  | _ => false

def Name.isGuard : Name → Bool
  | .special (.called text) => text = "`local static guard'" || text = "`local static thread guard'"
  | _ => false

def followsScope : Read Bool := do
  return !(← skip "@")

mutual
/-- A name without its scope. A template that is the name of the symbol itself is not remembered. -/
def name (isOwn : Bool) : (limit : Nat) → Read Name
  | 0 => failure
  | limit + 1 => do
    if ← skip "?$" then template isOwn limit
    else if ← skip "?" then return .special (← operator limit)
    else match ← digit? with
      | some digit => (← get).names[digit]?
      | none => spelledName

def template (isOwn : Bool) : (limit : Nat) → Read Name
  | 0 => failure
  | limit + 1 => do
    let found ← apart do
      let base ← name false limit
      let arguments ← repeated followsParameter (parameter (type {} limit)) limit
      expect "@"
      return Name.template base arguments
    unless isOwn do rememberName found
    return found

def scopeName : (limit : Nat) → Read Name
  | 0 => failure
  | limit + 1 => do
    if ← skip "?$" then template false limit
    else if ← skip "?A@" then return .anonymous ""
    else if ← skip "?A0x" then
      let key ← toAtSign
      guard (key.toList.all isKeyDigit)
      rememberName (.anonymous key)
      return .anonymous key
    else if ← skip "?Q" then
      let text ← toAtSign
      rememberName (.plain text)
      expect "@"
      return .plain ("[" ++ text ++ "]")
    else if ← skip "?" then
      if (← peek?) = some '?' then return .inside (← symbol limit)
      return .numbered (← number)
    else match ← digit? with
      | some digit => (← get).names[digit]?
      | none => spelledName

def scope : (limit : Nat) → Read (List Name)
  | 0 => failure
  | limit + 1 => repeated followsScope (scopeName limit) limit

def operator : (limit : Nat) → Read Operator
  | 0 => failure
  | limit + 1 => do
    if ← skip "0" then return .constructor
    if ← skip "1" then return .destructor
    if ← skip "B" then return .conversion
    if ← skip "_R0" then return .typeDescriptor (← innerResult fun own => type own limit)
    if ← skip "_R1" then
      let numbers ← lengths 4
      return .called ("`RTTI Base Class Descriptor at (" ++
        ", ".intercalate (numbers.map toString) ++ ")'")
    if ← skip "_R" then return .called (← coded Code.description?)
    if ← skip "__E" then return .lifetime "dynamic initializer" (← static limit)
    if ← skip "__F" then return .lifetime "dynamic atexit destructor" (← static limit)
    if ← skip "__K" then return .called ("operator \"\"" ++ (← toAtSign))
    if ← skip "__" then return .called (← coded Code.latestOperator?)
    if ← skip "_" then return .called (← coded Code.laterOperator?)
    return .called (← coded Code.operator?)

/-- A static variable that a function is for: its name, or all of its symbol. -/
def static : (limit : Nat) → Read Symbol
  | 0 => failure
  | limit + 1 => do
    if (← peek?) = some '?' then
      let found ← symbol limit
      expect "@@"
      return found
    let own ← name false limit
    let scope ← scope limit
    match (← peek?).bind Code.storage? with
    | some _ =>
      let found ← entity false limit
      expect "@"
      return .mk own scope found
    | none => return .mk own scope .unstated

def symbol : (limit : Nat) → Read Symbol
  | 0 => failure
  | limit + 1 => do
    expect "?"
    if ← skip "?_C" then return .mk (.special (.called "`string'")) [] .unstated
    let own ← name true limit
    let scope ← if own.isWhole then pure [] else scope limit
    return .mk own scope (← entity own.isGuard limit)

def entity (isGuard : Bool) : (limit : Nat) → Read Entity
  | 0 => failure
  | limit + 1 => do
    if (← peek?).isNone then return .unstated
    let kind ← next
    match kind with
    | '5' =>
      guard isGuard
      if (← peek?).isNone then return .guard none
      return .guard (some (← number))
    | '6' | '7' =>
      let own ← qualifiers memberQualifiers?
      return .table own (← scope limit)
    | '8' | '9' => return .unstated
    | 'Y' =>
      let result := result fun own => type own limit
      return .function none (← functionType result (type {} limit) limit {} .any)
    | '$' =>
      expect "B"
      let offset ← number
      expect "A"
      discard (coded Code.convention?)
      return .virtualCall offset
    | kind =>
      if let some access? := Code.storage? kind then
        let type ← type {} limit
        return .variable access? type (← qualifiers valueQualifiers?)
      let method? ← Code.method? kind
      if method?.any (·.isThunk) then discard number
      let (own,object) ← if method?.any (·.isStatic) then pure ({},.any) else objectQualifiers
      let result := methodResult fun own => type own limit
      return .function method? (← functionType result (type {} limit) limit own object)

def pointer (mark : Mark) (own : Qualifiers) : (limit : Nat) → Read Ty
  | 0 => failure
  | limit + 1 => do
    let isWide ← skip "E"
    let target ← type (← qualifiers valueQualifiers?) limit
    return .pointer mark isWide target own

def innerFunction (own : Qualifiers) (object : ObjectKind) : (limit : Nat) → Read Ty
  | 0 => failure
  | limit + 1 =>
    functionType (innerResult fun own => type own limit) (type {} limit) limit own object

def memberPointer : (limit : Nat) → Read Ty
  | 0 => failure
  | limit + 1 => do
    let ofClass ← name false limit
    let scope ← scope limit
    let isWide ← skip "E"
    let own ← qualifiers memberQualifiers?
    let .function convention result parameters _ _ ← innerFunction own .any limit | failure
    return .memberPointer ofClass scope isWide convention result parameters own

/-- A type; `own` says what may be done with its values. A digit for a type that has come before
leaves that out, as do types that cannot be qualified. -/
def type (own : Qualifiers) : (limit : Nat) → Read Ty
  | 0 => failure
  | limit + 1 => do
    if let some digit ← digit? then (← get).types[digit]?
    else if ← skip "W4" then named "enum" own limit
    else if ← skip "A6" then
      return .pointer .reference false (← innerFunction {} .any limit) own
    else if ← skip "P6" then
      return .pointer .pointer false (← innerFunction {} .any limit) own
    else if ← skip "P8" then memberPointer limit
    else if ← skip "?" then return templateParameter (- (← number))
    else if ← skip "$" then dollarType own limit
    else letterType own limit

/-- A type behind a dollar sign, which may also stand in front of a plain one. -/
def dollarType (own : Qualifiers) : (limit : Nat) → Read Ty
  | 0 => failure
  | limit + 1 => do
    if ← skip "0" then return .number (← number)
    if ← skip "1" then return .symbol "&" (← symbol limit)
    if ← skip "D" then return templateParameter (← number)
    if ← skip "E" then return .symbol "" (← symbol limit)
    if ← skip "S" then return .pack
    if ← skip "$A6" then return ← innerFunction {} .any limit
    if ← skip "$A8@@" then
      let (own,object) ← objectQualifiers
      return ← innerFunction own object limit
    if ← skip "$BY" then return ← array (type {} limit)
    if ← skip "$C" then return ← letterType (← qualifiers valueQualifiers?) limit
    if ← skip "$Q" then return ← pointer .movable own limit
    if ← skip "$T" then return .word "std::nullptr_t" {}
    if ← skip "$V" then return .pack
    if ← skip "$Z" then return .pack
    if ← skip "$$V" then return .pack
    if ← skip "$Y" then return ← named "" {} limit
    letterType own limit

def named (kind : String) (own : Qualifiers) : (limit : Nat) → Read Ty
  | 0 => failure
  | limit + 1 => do
    let name ← name false limit
    return .named kind name (← scope limit) own

def letterType (own : Qualifiers) : (limit : Nat) → Read Ty
  | 0 => failure
  | limit + 1 => do
    match ← next with
    | 'P' => pointer .pointer own limit
    | 'Q' => pointer .pointer { const := true } limit
    | 'R' => pointer .pointer { volatile := true } limit
    | 'S' => pointer .pointer { const := true, volatile := true } limit
    | 'A' => pointer .reference own limit
    | 'B' => pointer .reference { volatile := true } limit
    | 'T' => named "union" own limit
    | 'U' => named "struct" own limit
    | 'V' => named "class" own limit
    | 'Y' => array (type {} limit)
    | '_' => return .word (← coded Code.laterType?) own
    | code => return .word (← Code.type? code) own
end

def symbol? (text : String) : Option Symbol :=
  ((symbol (8 * (text.length + 2))).run { rest := text.toList }).map (·.1)

end LoadMap.Decorated
