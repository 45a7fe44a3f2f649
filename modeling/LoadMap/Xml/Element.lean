import LoadMap.Xml.Token

/-! The tree of elements of an XML document. A document is refused unless its tags match and its
names are declared; names are then known by their local part. -/
namespace LoadMap.Xml

inductive Element
  | node (name : String) (attributes : List (String × String)) (children : List Element)
  deriving Repr, Inhabited

namespace Element

def name : Element → String
  | .node name _ _ => name

def attributes : Element → List (String × String)
  | .node _ attributes _ => attributes

def children : Element → List Element
  | .node _ _ children => children

def attribute? (element : Element) (name : String) : Option String :=
  element.attributes.lookup name

def child? (element : Element) (name : String) : Option Element :=
  element.children.find? (·.name = name)

mutual
def all : Element → List Element
  | .node name attributes children => .node name attributes children :: allOf children

def allOf : List Element → List Element
  | [] => []
  | element :: rest => all element ++ allOf rest
end

end Element

def xmlSpace : String := "http://www.w3.org/XML/1998/namespace"

def declarationSpace : String := "http://www.w3.org/2000/xmlns/"

abbrev Scope := List (String × String)

inductive Meaning
  | declares (qualifier space : String)
  | property (item : Attribute)

/-- The two reserved name spaces may be declared for their own qualifier at most. -/
def meaning? (item : Attribute) : Option Meaning :=
  let name := item.name
  if name.qualifier = "xmlns" then
    if item.value = declarationSpace then none
    else if (name.localPart = "xml") = (item.value = xmlSpace) then
      some (.declares name.localPart item.value)
    else none
  else if name.localPart = "xmlns" then
    if item.value = xmlSpace ∨ item.value = declarationSpace then none
    else some (.declares "" item.value)
  else some (.property item)

def declarations : List Meaning → Scope
  | .declares qualifier space :: rest => (qualifier,space) :: declarations rest
  | _ :: rest => declarations rest
  | [] => []

def properties : List Meaning → List Attribute
  | .property item :: rest => item :: properties rest
  | _ :: rest => properties rest
  | [] => []

/-- The qualifiers a tag declares must differ; the default name space is not checked. -/
def declaresOnce : Scope → Bool
  | [] => true
  | (qualifier,_) :: rest =>
    (qualifier = "" || !(rest.any (·.1 = qualifier))) && declaresOnce rest

/-- The name space of an attribute; outer `none` when its qualifier is not declared. -/
def spaceOf? (scope : Scope) (qualifier : String) : Option (Option String) :=
  if qualifier = "" then some none
  else if qualifier = "xml" then some (some xmlSpace)
  else (scope.lookup qualifier).map some

def allDiffer : List (Option String × String) → Bool
  | [] => true
  | name :: rest => !rest.contains name && allDiffer rest

def readTag? (outer : Scope) (name : Name) (attributes : List Attribute) :
    Option (Scope × List (String × String)) := do
  let meanings ← attributes.mapM meaning?
  let declared := (declarations meanings).filter (·.1 ≠ "xml")
  guard (name.qualifier ≠ "xmlns" && declaresOnce declared)
  let scope := declared ++ outer
  let expanded ← (properties meanings).mapM fun item =>
    (spaceOf? scope item.name.qualifier).map (·,item.name.localPart)
  guard (allDiffer expanded)
  guard (name.qualifier = "" || scope.any (·.1 = name.qualifier))
  return (scope,(properties meanings).map fun item =>
    (item.name.localPart,item.value))

structure Open where
  name : Name
  attributes : List (String × String)
  scope : Scope
  children : List Element

structure Draft where
  stack : List Open := []
  root? : Option Element := none

def Open.element (frame : Open) : Element :=
  .node frame.name.localPart frame.attributes frame.children.reverse

def Draft.add? (draft : Draft) (element : Element) : Option Draft :=
  match draft.stack with
  | frame :: outer =>
    some { draft with stack := { frame with children := element :: frame.children } :: outer }
  | [] => if draft.root?.isSome then none else some { draft with root? := some element }

def Draft.step? (draft : Draft) : Token → Option Draft
  | .blank | .remark => some draft
  | .text => if draft.stack.isEmpty then none else some draft
  | .opening name attributes closed => do
    let outer := match draft.stack with
      | frame :: _ => frame.scope
      | [] => []
    let (scope,properties) ← readTag? outer name attributes
    let frame : Open := { name, attributes := properties, scope, children := [] }
    if closed then draft.add? frame.element
    else if draft.stack.isEmpty ∧ draft.root?.isSome then none
    else some { draft with stack := frame :: draft.stack }
  | .closing name =>
    match draft.stack with
    | [] => none
    | frame :: outer =>
      if name = frame.name then { draft with stack := outer }.add? frame.element else none

def document? (text : String) : Option Element := do
  let draft ← (← documentTokens? text).foldlM Draft.step? {}
  guard draft.stack.isEmpty
  draft.root?

end LoadMap.Xml
