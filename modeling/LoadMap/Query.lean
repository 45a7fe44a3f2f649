import LoadMap.WindowsSystem

/-! What is asked: the executable and the surroundings in which its modules are searched. -/
namespace LoadMap

structure Query where
  system? : Option WindowsSystem
  executable : Path
  appFolder : Path
  workingFolder : Path
  userPath : List Path := []
  maxDepth? : Option Nat := none
  keepBinaries : Bool := false

namespace Query

variable {m : Type → Type} [Monad m]

/-- How deep modules are followed; zero sets no limit. -/
def maxDepth (query : Query) : Nat := query.maxDepth?.getD 0

def noFolder (executable : Path) : Failure :=
  .context s!"Could not find application directory for given executable {executable}"

/-- The query that the place of an executable suggests; it starts in its own folder. -/
def ofExecutable (files : FileSystem m) (executable : Path) : m (Result Query) := do
  match executable.parent? with
  | none => return .error (noFolder executable)
  | some folder =>
    return .ok {
      system? := ← WindowsSystem.ofExecutable? files executable
      executable
      appFolder := folder
      workingFolder := folder }

end Query

/-- What a user says about a query in the place of what is found out. -/
structure Settings where
  maxDepth? : Option Nat := none
  keepBinaries : Bool := false
  windowsRoot? : Option Path := none
  knownDllList? : Option Path := none
  safeSearch? : Option Bool := none
  workingFolder? : Option Path := none
  userPath : List Path := []

namespace Settings

variable {m : Type → Type} [Monad m]

def withKnownDlls (files : FileSystem m) (settings : Settings) (system? : Option WindowsSystem) :
    m (Result (Option WindowsSystem)) := do
  match system?, settings.knownDllList? with
  | some system, some list =>
    match ← KnownDlls.ofFile files list system.systemFolder with
    | .error failure => return .error failure
    | .ok known => return .ok (some { system with knownDlls? := some known })
  | system?, _ => return .ok system?

def query (files : FileSystem m) (settings : Settings) (executable : Path) : m (Result Query) := do
  match ← Query.ofExecutable files executable with
  | .error failure => return .error failure
  | .ok deduced =>
    let system? ← match settings.windowsRoot? with
      | some root => WindowsSystem.ofRoot? files root
      | none => pure deduced.system?
    match ← settings.withKnownDlls files system? with
    | .error failure => return .error failure
    | .ok system? =>
      return .ok { deduced with
        system? := system?.map fun system =>
          { system with safeSearch? := settings.safeSearch?.or system.safeSearch? }
        workingFolder := settings.workingFolder?.getD deduced.workingFolder
        userPath := deduced.userPath ++ settings.userPath
        maxDepth? := settings.maxDepth?
        keepBinaries := settings.keepBinaries }

end Settings
end LoadMap
