import LoadMap.Text.Pieces

/-! Paths of files: slash-separated names, absolute when they begin with a slash. A path keeps the
text it was built from, and is compared by its components: repeated and trailing slashes and inner
`.` names do not count, a leading `.` and every `..` do. -/
namespace LoadMap

structure Path where
  text : String
  deriving DecidableEq, Inhabited, Repr

namespace Path

inductive Component
  | root
  | here
  | parent
  | name (text : String)
  deriving DecidableEq, Hashable, Repr

instance : ToString Path := ⟨Path.text⟩

def isAbsolute (path : Path) : Bool :=
  path.text.toList.head? == some '/'

def splitStart : List Char → List Char × List Char
  | '/' :: rest => (['/'],rest)
  | ['.'] => (['.'],[])
  | '.' :: '/' :: rest => (['.'],'/' :: rest)
  | chars => ([],chars)

/-- Empty names and `.` after the beginning say nothing. -/
def isSilent (piece : List Char) : Bool :=
  piece == [] || piece == ['.']

def Component.ofPiece (piece : List Char) : Component :=
  if piece = ['.','.'] then .parent else .name (String.ofList piece)

def Component.ofStart : List Char → List Component
  | ['/'] => [.root]
  | ['.'] => [.here]
  | _ => []

def components (path : Path) : List Component :=
  let (start,body) := splitStart path.text.toList
  Component.ofStart start ++
    ((Text.pieces '/' body).filter (!isSilent ·)).map Component.ofPiece

/-- Components are ordered by kind, names among themselves by their characters. -/
def Component.compare : Component → Component → Ordering
  | .name left, .name right => Ord.compare left right
  | left, right => Ord.compare (rank left) (rank right)
where
  rank : Component → Nat
    | .root => 0
    | .here => 1
    | .parent => 2
    | .name _ => 3

def compareComponents : List Component → List Component → Ordering
  | [], [] => .eq
  | [], _ :: _ => .lt
  | _ :: _, [] => .gt
  | left :: lefts, right :: rights =>
    (left.compare right).then (compareComponents lefts rights)

def compare (left right : Path) : Ordering :=
  compareComponents left.components right.components

def same (left right : Path) : Bool :=
  left.components == right.components

/-- `name` below `folder`; an absolute `name` takes the place of `folder`. -/
def join (folder : Path) (name : String) : Path :=
  if (Path.mk name).isAbsolute then ⟨name⟩
  else match folder.text.toList.getLast? with
    | none => ⟨name⟩
    | some '/' => ⟨folder.text ++ name⟩
    | some _ => ⟨folder.text ++ "/" ++ name⟩

def dropSilentEnd (reversed : List (List Char)) : List (List Char) :=
  reversed.dropWhile isSilent

def parent? (path : Path) : Option Path :=
  let (start,body) := splitStart path.text.toList
  match dropSilentEnd (Text.pieces '/' body).reverse with
  | _ :: before =>
    some ⟨String.ofList (start ++ Text.join '/' (dropSilentEnd before).reverse)⟩
  | [] => if start = ['.'] then some ⟨""⟩ else none

def fileName? (path : Path) : Option String :=
  match path.components.getLast? with
  | some (.name text) => some text
  | _ => none

/-- A file name without its last extension; a name that only begins with a dot has none. -/
def stemOf (name : String) : String :=
  match (Text.pieces '.' name.toList).reverse with
  | _ :: before =>
    let stem := Text.join '.' before.reverse
    if stem = [] then name else String.ofList stem
  | [] => name

def fileStem? (path : Path) : Option String :=
  path.fileName?.map stemOf

def label (path : Path) : String :=
  path.fileName?.getD path.text

/-- The text of a path without the mark by which it asks to be taken to the letter. -/
def withoutMark (text : String) : String :=
  match text.toList with
  | '\\' :: '\\' :: '?' :: '\\' :: rest => String.ofList rest
  | _ => text

/-- The path itself and the folders above it, nearest first. Every step up has a component less. -/
def ancestors (path : Path) : List Path :=
  climb path.components.length path
where
  climb : Nat → Path → List Path
    | 0, path => [path]
    | steps + 1, path => path :: match path.parent? with
      | none => []
      | some above => climb steps above

end Path
end LoadMap
