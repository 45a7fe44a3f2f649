import LoadMap.Binary
import LoadMap.FileSystem
import LoadMap.Metadata.References

/-! Loading binaries. A store that keeps them reads a file once, and answers from what it has
from then on; what could not be loaded is tried again. -/
namespace LoadMap

structure BinaryStore where
  /-- Whether binaries are kept. If they are not, files are mapped and not read. -/
  keeps : Bool
  kept : List (List Path.Component × Binary) := []

namespace BinaryStore

def find? (store : BinaryStore) (path : Path) : Option Binary :=
  if store.keeps then store.kept.lookup path.components else none

def insert (store : BinaryStore) (path : Path) (binary : Binary) : BinaryStore :=
  { store with kept := (path.components,binary) :: store.kept }

def shares (store : BinaryStore) (path : Path) : Bool := (store.find? path).isSome

variable {m : Type → Type} [Monad m]

def load (files : FileSystem m) (path : Path) : StateT BinaryStore m (Result Binary) := do
  let store ← get
  match store.find? path with
  | some binary => return .ok binary
  | none =>
    let content ← if store.keeps then liftM (files.read path) else liftM (files.readMapped path)
    match content.bind (Binary.ofBytes path) with
    | .error failure => return .error failure
    | .ok binary =>
      if store.keeps then set (store.insert path binary)
      return .ok binary

end BinaryStore

def ManagedReferences.ofFile {m : Type → Type} [Monad m] (files : FileSystem m) (path : Path) :
    m (Result ManagedReferences) :=
  return (← files.read path).bind (ManagedReferences.ofImage path)

end LoadMap
