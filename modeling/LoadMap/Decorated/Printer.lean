import LoadMap.Decorated.Basic

/-! Declarations as text. A declaration is written around its name: a type has a part in front of
the name and one behind it, as the brackets of arrays and the parameters of functions bind tighter
than the marks of pointers. The text is brief, or full: then it has all that tells types apart. -/
namespace LoadMap.Decorated

def spacedBehind (kind : Char → Bool) (text : String) : String :=
  if text.toList.getLast?.any kind then text ++ " " else text

def needsSpace (char : Char) : Bool := char.isAlpha || char = '>' || char = ')'

def spaced : String → String := spacedBehind needsSpace

def opened : String → String :=
  spacedBehind fun char => needsSpace char || char = '*' || char = '&'

def Qualifiers.words (full : Bool) (qualifiers : Qualifiers) : List String :=
  (if qualifiers.const then ["const"] else []) ++
    (if qualifiers.volatile then ["volatile"] else []) ++
    (if qualifiers.restrict then ["__restrict"] else []) ++
    (if full && qualifiers.isFar then ["__far"] else [])

def Qualifiers.after (full : Bool) (qualifiers : Qualifiers) (text : String) : String :=
  (qualifiers.words full).foldl (fun text word => spaced text ++ word) text

def ObjectKind.words : ObjectKind → List String
  | any => []
  | lvalue => ["&"]
  | rvalue => ["&&"]

def trailing (words : List String) : String := "".intercalate (words.map (" " ++ ·))

def Convention.text : Convention → String
  | cdecl => "__cdecl "
  | pascal => "__pascal "
  | thiscall => "__thiscall "
  | stdcall => "__stdcall "
  | fastcall => "__fastcall "

def Access.text : Access → String
  | «private» => "private: "
  | «protected» => "protected: "
  | «public» => "public: "

def Method.text (method : Method) : String :=
  (if method.isThunk then "[thunk]: " else "") ++ method.access.text ++
    (if method.isStatic then "static " else "") ++ (if method.isVirtual then "virtual " else "")

def Mark.text : Mark → String
  | pointer => "*"
  | reference => "&"
  | movable => "&&"

/-- Whether nothing is written behind the name for what the mark leads to. -/
def Mark.leadsNowhere : Mark → Bool
  | movable => true
  | _ => false

def Ty.bindsTighter : Ty → Bool
  | .array _ _ _ | .function _ _ _ _ _ => true
  | _ => false

def Name.isConversion : Name → Bool
  | .special .conversion => true
  | _ => false

/-- A list in angle brackets; two closing brackets are kept apart. -/
def angled (items : List String) : String :=
  let text := ", ".intercalate items
  "<" ++ text ++ (if text.endsWith ">" then " >" else ">")

def qualified (scope : List String) (name : String) : String :=
  "::".intercalate (scope.reverse ++ [name])

def noClass : String := "[invalid]"

mutual
def Ty.front (full : Bool) : Ty → String
  | .absent | .pack => ""
  | .word text qualifiers => qualifiers.after full text
  | .named kind name scope qualifiers =>
    let text := qualified (Name.texts full scope) (Name.text full none "" name)
    qualifiers.after full (if kind = "" then text else kind ++ " " ++ text)
  | .pointer mark isWide target qualifiers =>
    let text := Ty.front full target
    qualifiers.after full ((if target.bindsTighter then opened text ++ "(" else spaced text) ++
      mark.text ++ (if full && isWide then "__ptr64" else ""))
  | .memberPointer name scope isWide convention result _ _ =>
    opened (Ty.front full result) ++ "(" ++ (if full then convention.text else "") ++
      qualified (Name.texts full scope) (Name.text full none "" name) ++ "::*" ++
      (if full && isWide then "__ptr64" else "")
  | .array _ element qualifiers => qualifiers.after full (Ty.front full element)
  | .function convention result _ _ _ =>
    opened (Ty.front full result) ++ (if full then convention.text else "")
  | .number value => toString value
  | .symbol mark symbol => mark ++ Symbol.text full symbol

/-- The part of a type behind the name. In brief, what a movable reference leads to has none, and
of the qualifiers of a method behind a pointer the first one alone is written. -/
def Ty.back (full : Bool) : Ty → String
  | .pointer mark _ target _ =>
    if mark.leadsNowhere && !full then ""
    else (if target.bindsTighter then ")" else "") ++ Ty.back full target
  | .memberPointer _ _ _ _ result parameters qualifiers =>
    ")(" ++ ", ".intercalate (Ty.texts full parameters) ++ ")" ++ Ty.back full result ++
      trailing (if full then qualifiers.words full
        else { const := qualifiers.const : Qualifiers }.words full)
  | .array length element _ => "[" ++ toString length ++ "]" ++ Ty.back full element
  | .function _ result parameters qualifiers object =>
    "(" ++ ", ".intercalate (Ty.texts full parameters) ++ ")" ++ Ty.back full result ++
      trailing (qualifiers.words full ++ object.words)
  | _ => ""

def Ty.texts (full : Bool) : List Ty → List String
  | [] => []
  | .pack :: types => Ty.texts full types
  | type :: types => (Ty.front full type ++ Ty.back full type) :: Ty.texts full types

/-- A name; `owner?` is the class and `result` the type that some operators are named for. -/
def Name.text (full : Bool) (owner? : Option String) (result : String) : Name → String
  | .plain text => text
  | .template name arguments =>
    Name.text full owner? result name ++ angled (Ty.texts full arguments)
  | .special operator => Operator.text full owner? result operator
  | .numbered number => "`" ++ toString number ++ "'"
  | .inside symbol => "`" ++ Symbol.text full symbol ++ "'"
  | .anonymous key => "`anonymous namespace" ++ (if full then key else "") ++ "'"

def Name.texts (full : Bool) : List Name → List String
  | [] => []
  | name :: names => Name.text full none "" name :: Name.texts full names

def Operator.text (full : Bool) (owner? : Option String) (result : String) : Operator → String
  | .called text => text
  | .constructor => owner?.getD noClass
  | .destructor => (owner?.map ("~" ++ ·)).getD noClass
  | .conversion => "operator " ++ result
  | .typeDescriptor type =>
    Ty.front full type ++ Ty.back full type ++ " `RTTI Type Descriptor'"
  | .lifetime text symbol => "`" ++ text ++ " for '" ++ Symbol.text full symbol ++ "''"

/-- What stands in front of the name of an entity. A space always ends the result of a function. -/
def Entity.front (full hidesResult : Bool) : Entity → String
  | .unstated | .guard _ => ""
  | .variable access? type qualifiers =>
    (match access? with
      | some access => access.text ++ "static "
      | none => "") ++ qualifiers.after full (Ty.front full type)
  | .function method? type =>
    let text := (match method? with
      | some method => method.text
      | none => "") ++ (if hidesResult then "" else Ty.front full type)
    if text.endsWith " " then text else text ++ " "
  | .table qualifiers _ => qualifiers.after full ""
  | .virtualCall _ => "[thunk]: "

def Entity.back (full : Bool) : Entity → String
  | .unstated => ""
  | .variable _ type _ | .function _ type => Ty.back full type
  | .table _ [] => ""
  | .table _ (name :: scope) =>
    "\x7bfor `" ++ qualified (Name.texts full scope) (Name.text full none "" name) ++ "'\x7d"
  | .guard none => ""
  | .guard (some number) => "\x7b" ++ toString number ++ "\x7d"
  | .virtualCall offset => "\x7b" ++ toString offset ++ ", \x7bflat\x7d\x7d"

def Entity.result (full : Bool) : Entity → String
  | .function _ type => (Ty.front full type).trimAsciiEnd.toString
  | _ => ""

def Symbol.text (full : Bool) : Symbol → String
  | .mk name scope entity =>
    let scopes := Name.texts full scope
    let own := Name.text full scopes.head? (Entity.result full entity) name
    spaced (Entity.front full name.isConversion entity) ++ qualified scopes own ++
      Entity.back full entity
end

def Ty.fullText (type : Ty) : String := type.front true ++ type.back true

def Name.fullText (name : Name) : String := name.text true none ""

end LoadMap.Decorated
