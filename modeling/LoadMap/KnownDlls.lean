import LoadMap.FileSystem
import LoadMap.Text.Ascii
import LoadMap.Text.Blank
import LoadMap.Text.Utf8

/-! Modules that the system itself provides: whoever asks for one of their names gets the system's
copy, without a search. -/
namespace LoadMap

structure KnownDlls where
  entries : List (String × Path) := []

namespace KnownDlls

/-- The same name with other letter case is the same entry, and takes its place. -/
def insert (known : KnownDlls) (name : String) (path : Path) : KnownDlls :=
  let key := Text.Ascii.lower name
  { entries := known.entries.filter (·.1 ≠ key) ++ [(key,path)] }

/-- The modules with these names in a folder. White space around a name does not count, and an
empty name names nothing. -/
def ofNames (names : List String) (folder : Path) : KnownDlls :=
  ((names.map Text.trim).filter (· ≠ "")).foldl
    (fun known name => known.insert name (folder.join name)) {}

def beforeComment (line : List Char) : String := String.ofList (line.takeWhile (· ≠ '#'))

def ofList (text : String) (folder : Path) : KnownDlls :=
  ofNames ((Text.pieces '\n' text.toList).map beforeComment) folder

def ofFile {m : Type → Type} [Monad m] (files : FileSystem m) (list folder : Path) :
    m (Result KnownDlls) := do
  match ← files.read list with
  | .error failure => return .error failure
  | .ok content =>
    match Text.Utf8.decode? content.toList with
    | some text => return .ok (ofList text folder)
    | none => return .error (.file s!"{list} is not a text")

def find? (known : KnownDlls) (name : String) : Option Path :=
  known.entries.lookup (Text.Ascii.lower name)

def paths (known : KnownDlls) : List Path :=
  (known.entries.map (·.2)).mergeSort fun left right => left.compare right != .gt

end KnownDlls
end LoadMap
