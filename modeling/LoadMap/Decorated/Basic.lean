/-! The declarations that decorated names stand for: what is named, in which scopes, and of which
type. A type holds names, a name can hold types as the arguments of a template, and a scope can be
a whole symbol, as a function is the scope of its static variables. -/
namespace LoadMap.Decorated

structure Qualifiers where
  const : Bool := false
  volatile : Bool := false
  restrict : Bool := false
  /-- Whether it is reached by a segment and an offset; this is not written. -/
  isFar : Bool := false
  deriving DecidableEq, Repr

inductive ObjectKind
  | any
  | lvalue
  | rvalue
  deriving DecidableEq, Repr

inductive Convention
  | cdecl
  | pascal
  | thiscall
  | stdcall
  | fastcall
  deriving DecidableEq, Repr

inductive Access
  | «private»
  | «protected»
  | «public»
  deriving DecidableEq, Repr

/-- How a function is bound to its class. A thunk adjusts the object and goes on to the function. -/
structure Method where
  access : Access
  isStatic : Bool := false
  isVirtual : Bool := false
  isThunk : Bool := false
  deriving DecidableEq, Repr

inductive Mark
  | pointer
  | reference
  | movable
  deriving DecidableEq, Repr

mutual
inductive Name
  | plain (text : String)
  | template (name : Name) (arguments : List Ty)
  | special (operator : Operator)
  | numbered (number : Int)
  | inside (symbol : Symbol)
  | anonymous (key : String)

inductive Operator
  | called (text : String)
  | constructor
  | destructor
  | conversion
  | typeDescriptor (type : Ty)
  | lifetime (text : String) (symbol : Symbol)

inductive Symbol
  | mk (name : Name) (scope : List Name) (entity : Entity)

inductive Entity
  | unstated
  | variable (access? : Option Access) (type : Ty) (qualifiers : Qualifiers)
  | function (method? : Option Method) (type : Ty)
  /-- A table of virtual functions or bases, for the class that `target` names if there is one. -/
  | table (qualifiers : Qualifiers) (target : List Name)
  | guard (number? : Option Int)
  | virtualCall (offset : Int)

inductive Ty
  /-- The result of constructors and destructors. -/
  | absent
  | word (text : String) (qualifiers : Qualifiers)
  | named (kind : String) (name : Name) (scope : List Name) (qualifiers : Qualifiers)
  /-- A pointer or reference; `isWide` says that it has 64 bits, which is not written. -/
  | pointer (mark : Mark) (isWide : Bool) (target : Ty) (qualifiers : Qualifiers)
  | memberPointer (name : Name) (scope : List Name) (isWide : Bool) (convention : Convention)
    (result : Ty) (parameters : List Ty) (qualifiers : Qualifiers)
  | array (length : Int) (element : Ty) (qualifiers : Qualifiers)
  | function (convention : Convention) (result : Ty) (parameters : List Ty)
    (qualifiers : Qualifiers) (object : ObjectKind)
  /-- Arguments of templates that are no types: numbers, symbols, and an empty pack. -/
  | number (value : Int)
  | symbol (mark : String) (symbol : Symbol)
  | pack
end

end LoadMap.Decorated
