import LoadMap.Bytes
import LoadMap.Failure
import LoadMap.Path

/-! What is asked of a file system. The questions come as a record, so that the same code runs on
the disk of a machine and on a disk that is a value. Relative paths start from the working
folder, and links are followed. -/
namespace LoadMap

inductive FileKind
  | file
  | folder
  | other
  deriving DecidableEq, Repr

structure FileSystem (m : Type → Type) where
  workingFolder : m Path
  kind? : Path → m (Option FileKind)
  content? : Path → m (Option ByteArray)
  /-- The names in a folder; none when there is no such folder or it cannot be read. -/
  names? : Path → m (Option (List (String × FileKind)))
  canonical? : Path → m (Option Path)

namespace FileSystem

variable {m : Type → Type} [Monad m]

def isFile (files : FileSystem m) (path : Path) : m Bool :=
  return (← files.kind? path) = some .file

def isFolder (files : FileSystem m) (path : Path) : m Bool :=
  return (← files.kind? path) = some .folder

def isPresent (files : FileSystem m) (path : Path) : m Bool :=
  return (← files.kind? path).isSome

def read (files : FileSystem m) (path : Path) : m (Result ByteArray) := do
  match ← files.content? path with
  | some content => return .ok content
  | none => return .error (.file s!"cannot read {path}")

def pageSize : Nat := 4096

/-- A file as it is mapped: whole pages, filled up with zeros. An empty file has no page. -/
def readMapped (files : FileSystem m) (path : Path) : m (Result ByteArray) := do
  match ← files.content? path with
  | some content =>
    if content.size = 0 then return .error (.file s!"cannot map {path}")
    else return .ok (Bytes.padTo pageSize content)
  | none => return .error (.file s!"cannot open {path}")

def canonical (files : FileSystem m) (path : Path) : m (Result Path) := do
  match ← files.canonical? path with
  | some found => return .ok found
  | none => return .error (.file s!"cannot find {path}")

end FileSystem
end LoadMap
