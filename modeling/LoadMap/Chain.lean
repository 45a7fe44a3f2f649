import LoadMap.BinaryStore
import LoadMap.Graph.Build
import LoadMap.SearchPath
import LoadMap.SideBySide.Assembly

/-! The whole way from a binary to the graph of the modules it needs. -/
namespace LoadMap

structure Session where
  folders : FolderCache := {}
  binaries : BinaryStore

namespace Session

variable {m : Type → Type} [Monad m] {α : Type}

def onFolders (work : StateT FolderCache m α) : StateT Session m α := fun session => do
  let (answer,folders) ← work session.folders
  return (answer,{ session with folders })

def onBinaries (work : StateT BinaryStore m α) : StateT Session m α := fun session => do
  let (answer,binaries) ← work session.binaries
  return (answer,{ session with binaries })

def load (files : FileSystem m) (path : Path) : StateT Session m (Result Binary) :=
  onBinaries (BinaryStore.load files path)

def services (files : FileSystem m) (search : SearchPath) : Services (StateT Session m) where
  load := load files
  readManaged path := liftM (ManagedReferences.ofFile files path)
  resolve root name := onFolders (Except.ok <$> search.resolve files root name)

end Session

structure Chain where
  search : SearchPath
  root : RootModule
  graph : Graph

namespace Chain

variable {m : Type → Type} [Monad m]

def ofBinary (files : FileSystem m) (query : Query) (binary : Binary) :
    StateT Session m (Result Chain) := do
  let search := SearchPath.ofQuery query
  match ← liftM (RootModule.ofBinary files binary query.appFolder
      (query.system?.map (·.windowsFolder))) with
  | .error failure => return .error failure
  | .ok root =>
    let run ← Graph.build (Session.services files search) root query.maxDepth
    match run.outcome with
    | .built graph => return .ok { search, root, graph }
    | .failed failure => return .error failure
    | .unfinished => return .error (.scan "the chain has no end")

/-- The chain of a file, in the surroundings that its place suggests and the settings change. -/
def ofFile (files : FileSystem m) (settings : Settings) (file : Path) :
    StateT Session m (Result Chain) := do
  match ← Session.load files file with
  | .error failure => return .error failure
  | .ok binary =>
    match ← liftM (settings.query files file) with
    | .error failure => return .error failure
    | .ok query => ofBinary files query binary

end Chain
end LoadMap
