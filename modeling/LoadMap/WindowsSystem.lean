import LoadMap.ApiSet.Schema
import LoadMap.FileSystem
import LoadMap.KnownDlls

/-! A Windows installation, as far as it matters for the search of modules. -/
namespace LoadMap

structure WindowsSystem where
  /-- Whether the working folder is searched after the system's folders; it is by default. -/
  safeSearch? : Option Bool := none
  apiSets? : Option ApiSetMap := none
  knownDlls? : Option KnownDlls := none
  knownDlls32? : Option KnownDlls := none
  windowsFolder : Path
  systemFolder : Path
  path? : Option (List Path) := none

variable {m : Type → Type} [Monad m]

/-- The schema in a file; a file without one has an empty schema. -/
def ApiSetMap.ofFile (files : FileSystem m) (path : Path) : m (Result ApiSetMap) := do
  match ← files.readMapped path with
  | .error failure => return .error failure
  | .ok content => return (ApiSetMap.ofImage? content).map (·.getD {})

namespace WindowsSystem

def windowsFolderIn (root : Path) : Path := root.join "Windows"

def systemFolderIn (root : Path) : Path := (windowsFolderIn root).join "System32"

def apiSetsIn? (files : FileSystem m) (systemFolder : Path) : m (Option ApiSetMap) := do
  let path := systemFolder.join "apisetschema.dll"
  if ← files.isPresent path then
    return (← ApiSetMap.ofFile files path).toOption
  else return none

def ofRoot? (files : FileSystem m) (root : Path) : m (Option WindowsSystem) := do
  let systemFolder := systemFolderIn root
  if ← files.isPresent systemFolder then
    return some {
      apiSets? := ← apiSetsIn? files systemFolder
      windowsFolder := windowsFolderIn root
      systemFolder }
  else return none

def firstRoot? (files : FileSystem m) : List Path → m (Option Path)
  | [] => return none
  | folder :: folders => do
    if ← files.isPresent (systemFolderIn folder) then return some folder
    else firstRoot? files folders

/-- The installation on the partition where an executable lies: the nearest folder above it with
one is taken for the partition. -/
def ofExecutable? (files : FileSystem m) (executable : Path) : m (Option WindowsSystem) := do
  match executable.parent? with
  | none => return none
  | some folder =>
    match ← firstRoot? files folder.ancestors with
    | none => return none
    | some root => ofRoot? files root

end WindowsSystem
end LoadMap
