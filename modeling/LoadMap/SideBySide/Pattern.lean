import LoadMap.FileSystem

/-! Patterns for paths, in which a star stands for any characters of one name. -/
namespace LoadMap.SideBySide

inductive Pattern.Token
  | plain (char : Char)
  | quoted (char : Char)
  | any
  deriving DecidableEq, Repr

abbrev Pattern := List Pattern.Token

namespace Pattern

def ofText (text : String) : Pattern :=
  text.toList.map fun char =>
    if char = '?' ∨ char = '*' ∨ char = '[' ∨ char = ']' then .quoted char else .plain char

def plainText? : Pattern → Option (List Char)
  | [] => some []
  | .plain char :: rest => (plainText? rest).map (char :: ·)
  | _ => none

def someRest (fits : List Char → Bool) : List Char → Bool
  | [] => fits []
  | char :: chars => fits (char :: chars) || someRest fits chars

/-- ASCII letters match whatever their case. -/
def matches? : Pattern → List Char → Bool
  | [], chars => chars.isEmpty
  | .any :: rest, chars => someRest (matches? rest) chars
  | .plain _ :: _, [] | .quoted _ :: _, [] => false
  | .plain other :: rest, char :: chars | .quoted other :: rest, char :: chars =>
    char.toLower == other.toLower && matches? rest chars

def names : Pattern → List Pattern
  | [] => [[]]
  | token :: rest =>
    if token = .plain '/' then [] :: names rest
    else match names rest with
      | [] => [[token]]
      | first :: more => (token :: first) :: more

variable {m : Type → Type} [Monad m]

def start : Path := ⟨"."⟩

/-- A name below a folder; what lies in the starting folder is called by its name alone. -/
def below (folder : Path) (name : String) : Path :=
  if folder.same start then ⟨name⟩ else folder.join name

def matching (files : FileSystem m) (pattern : Pattern) (folder : Path) : m (List String) :=
  return (((← files.names? folder).getD []).map (·.1)).filter fun name =>
    pattern.matches? name.toList

def present (files : FileSystem m) (folder : Path) (name : String) : m (List Path) := do
  let path := below folder name
  let there ← if name = "." ∨ name = ".." then files.isFolder folder else files.isPresent path
  return if there then [path] else []

/-- The paths that lead from a folder along the given names. Plain names are looked up as they
are spelled; the others are compared with the names in the folder. -/
def follow (files : FileSystem m) : List Pattern → Path → m (List Path)
  | [], folder => return [folder]
  | pattern :: patterns, folder => do
    let paths ← match pattern.plainText? with
      | some name => present files folder (String.ofList name)
      | none => do pure ((← matching files pattern folder).map (below folder))
    return (← paths.mapM (follow files patterns)).flatten

def paths (files : FileSystem m) (pattern : Pattern) : m (List Path) :=
  match pattern with
  | .plain '/' :: rest => follow files (names rest) ⟨"/"⟩
  | pattern => follow files (names pattern) start

end Pattern
end LoadMap.SideBySide
