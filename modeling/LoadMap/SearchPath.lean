import LoadMap.ApiSet.Map
import LoadMap.FolderCache
import LoadMap.Query
import LoadMap.Resolution
import LoadMap.RootModule

/-! The search for a module by its name: the places that are asked, one after the other. -/
namespace LoadMap

inductive FolderRole
  | application
  | system
  | windows
  | working
  | systemPath
  | userPath
  deriving DecidableEq, Repr

inductive SearchEntry
  | knownDlls
  | apiSets
  | sideBySide
  | folder (role : FolderRole) (path : Path)
  deriving Repr

def SearchEntry.strategy : SearchEntry → Strategy
  | .knownDlls => .knownDll
  | .apiSets => .apiSet
  | .sideBySide => .sideBySide
  | .folder _ _ => .standardSearch

structure SearchPath where
  query : Query
  entries : List SearchEntry

namespace SearchPath

def redirections (system? : Option WindowsSystem) : List SearchEntry :=
  (if (system?.bind (·.knownDlls?)).isSome then [.knownDlls] else []) ++
    (if (system?.bind (·.apiSets?)).isSome then [.apiSets] else []) ++ [.sideBySide]

/-- The working folder comes after the folders of the system in safe mode, and before them
otherwise. -/
def ownFolders (query : Query) : List SearchEntry :=
  let working := SearchEntry.folder .working query.workingFolder
  match query.system? with
  | none => [working]
  | some system =>
    let folders := [
      .folder .system system.systemFolder,
      .folder .windows system.windowsFolder]
    if system.safeSearch?.getD true then folders ++ [working] else working :: folders

def pathFolders (query : Query) : List SearchEntry :=
  ((query.system?.bind (·.path?)).getD []).map (.folder .systemPath) ++
    query.userPath.map (.folder .userPath)

def ofQuery (query : Query) : SearchPath where
  query := query
  entries :=
    redirections query.system? ++ [.folder .application query.appFolder] ++ ownFolders query ++
      pathFolders query

def folders (search : SearchPath) : List Path :=
  search.entries.filterMap fun
    | .folder _ path => some path
    | _ => none

inductive Reply
  | goOn
  | found (path : Path)
  /-- The module cannot be anywhere else. -/
  | stop

def Reply.ofPath? : Option Path → Reply
  | some path => .found path
  | none => .goOn

def knownDll? (search : SearchPath) (name : String) : Option Path :=
  (search.query.system?.bind (·.knownDlls?)).bind (·.find? name)

def contract? (system : WindowsSystem) (name : String) : Option ApiSet.Entry :=
  if ApiSet.isContractName name then system.apiSets?.bind (·.lookup? name) else none

variable {m : Type → Type} [Monad m]

/-- A contract leads to its host, which is a known module or lies in the folder of the system. -/
def askApiSets (files : FileSystem m) (search : SearchPath) (name : String) :
    StateT FolderCache m Reply := do
  match search.query.system? with
  | none => return .goOn
  | some system =>
    match contract? system name with
    | none => return .goOn
    | some entry =>
      match entry.defaultHost? with
      | none => return .stop
      | some host =>
        match search.knownDll? host with
        | some path => return .found path
        | none =>
          match ← FolderCache.find? files system.systemFolder host with
          | some path => return .found path
          | none => return .stop

def askSideBySide (files : FileSystem m) (root : RootModule) (name : String) : m Reply := do
  match (SideBySide.find? root.sideBySide name).bind (·.path?) with
  | none => return .goOn
  | some path => if ← files.isFile path then return .found path else return .goOn

def ask (files : FileSystem m) (search : SearchPath) (root : RootModule) (name : String) :
    SearchEntry → StateT FolderCache m Reply
  | .knownDlls => return .ofPath? (search.knownDll? name)
  | .apiSets => search.askApiSets files name
  | .sideBySide => liftM (askSideBySide files root name)
  | .folder _ path => return .ofPath? (← FolderCache.find? files path name)

/-- The first entry that knows a name, and the path it gives. -/
def askInTurn (files : FileSystem m) (search : SearchPath) (root : RootModule) (name : String) :
    List SearchEntry → StateT FolderCache m (Option (SearchEntry × Path))
  | [] => return none
  | entry :: entries => do
    match ← search.ask files root name entry with
    | .found path => return some (entry,path)
    | .stop => return none
    | .goOn => search.askInTurn files root name entries

def find? (files : FileSystem m) (search : SearchPath) (root : RootModule) (name : String) :
    StateT FolderCache m (Option (SearchEntry × Path)) :=
  search.askInTurn files root name search.entries

def resolve (files : FileSystem m) (search : SearchPath) (root : RootModule) (name : String) :
    StateT FolderCache m Resolution := do
  match ← search.find? files root name with
  | some (entry,path) => return .found entry.strategy path
  | none => return .notFound

end SearchPath
end LoadMap
