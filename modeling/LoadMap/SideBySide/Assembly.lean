import LoadMap.Binary
import LoadMap.Manifest
import LoadMap.RootModule
import LoadMap.SideBySide.Entry
import LoadMap.SideBySide.Pattern
import LoadMap.Text.Ascii
import LoadMap.Text.Lowercase

/-! Where assemblies lie, and the files that a manifest redirects to them. Private assemblies lie
with the application; the others are in the store of the system, where the names of their
manifests tell them apart. -/
namespace LoadMap.SideBySide

variable {m : Type → Type} [Monad m]

/-- The manifest of a private assembly lies in the folder of the application, or in a folder there
that has the name of the assembly. -/
def privateCandidates (name : String) (appFolder : Path) : List Path :=
  let file := name ++ ".manifest"
  [appFolder.join file,(appFolder.join name).join file]

def firstFile? (files : FileSystem m) : List Path → m (Option Path)
  | [] => return none
  | path :: paths => do
    if ← files.isFile path then return some path else firstFile? files paths

def partPattern (part? : Option String) (unstated : Pattern) : Pattern :=
  match part? with
  | none | some "*" => unstated
  | some part => Pattern.ofText (Text.lowercase part)

/-- The manifests in the store for an identity: architecture, name, key and version, and something
that tells the language and a checksum. -/
def storePattern (manifests : Path) (identity : AssemblyIdentity) : Pattern :=
  Pattern.ofText manifests.text ++ [.plain '/'] ++
    partPattern identity.architecture? [.any] ++ [.plain '_'] ++
    Pattern.ofText (Text.lowercase identity.name) ++ [.plain '_'] ++
    partPattern identity.publicKeyToken? (Pattern.ofText "none") ++ [.plain '_'] ++
    partPattern identity.version? [.any] ++ [.plain '_',.any] ++ Pattern.ofText ".manifest"

def greater (left right : Path) : Path := if left.compare right = .gt then left else right

/-- The greatest path, which tends to be that of the newest version. -/
def greatest? : List Path → Option Path
  | [] => none
  | path :: paths => some (paths.foldl greater path)

def manifestStore (windowsFolder : Path) : Path := (windowsFolder.join "WinSxS").join "Manifests"

def locate? (files : FileSystem m) (identity : AssemblyIdentity) (appFolder : Path)
    (windowsFolder? : Option Path) : m (Option Path) := do
  match ← firstFile? files (privateCandidates identity.name appFolder) with
  | some path => return some path
  | none =>
    match windowsFolder? with
    | none => return none
    | some windowsFolder =>
      let manifests := manifestStore windowsFolder
      if ← files.isFolder manifests then
        return greatest? (← (storePattern manifests identity).paths files)
      else return none

/-- The folder with the files of the assembly that a manifest describes: next to the folder of
manifests in the store, and otherwise the folder of the manifest. -/
def folderOf? (manifest : Path) : Option Path := do
  let folder ← manifest.parent?
  if folder.fileName?.any (Text.Ascii.equalIgnoringCase · "Manifests") then
    return (← folder.parent?).join (← manifest.fileStem?)
  else return folder

/-- The files of an assembly. One whose manifest is no good has none; one that is not found is
listed by its name. -/
def assemblyEntries (files : FileSystem m) (identity : AssemblyIdentity) (appFolder : Path)
    (windowsFolder? : Option Path) : m (Result (List Entry)) := do
  match ← locate? files identity appFolder windowsFolder? with
  | none => return .ok [{ name := identity.name, path? := none }]
  | some path =>
    match folderOf? path with
    | none => return .ok []
    | some folder =>
      match ← files.read path with
      | .error failure => return .error failure
      | .ok content =>
        match Manifest.ofBytes content with
        | .error _ => return .ok []
        | .ok manifest =>
          return .ok (manifest.files.map fun name => { name, path? := some (folder.join name) })

def allAssemblyEntries (files : FileSystem m) (appFolder : Path) (windowsFolder? : Option Path) :
    List AssemblyIdentity → m (Result (List Entry))
  | [] => return .ok []
  | identity :: identities => do
    match ← assemblyEntries files identity appFolder windowsFolder? with
    | .error failure => return .error failure
    | .ok entries =>
      match ← allAssemblyEntries files appFolder windowsFolder? identities with
      | .error failure => return .error failure
      | .ok more => return .ok (entries ++ more)

/-- The files that the manifest of a binary redirects: those it lists itself, which lie with the
application, then those of the assemblies it needs. -/
def entriesOf (files : FileSystem m) (binary : Binary) (appFolder : Path)
    (windowsFolder? : Option Path) : m (Result (List Entry)) := do
  match binary.manifest?.map Manifest.ofBytes with
  | none => return .ok []
  | some (.error failure) => return .error failure
  | some (.ok manifest) =>
    let own := manifest.files.map fun name =>
      { name, path? := some (appFolder.join name) : Entry }
    match ← allAssemblyEntries files appFolder windowsFolder? manifest.dependentAssemblies with
    | .error failure => return .error failure
    | .ok entries => return .ok (own ++ entries)

end LoadMap.SideBySide

namespace LoadMap

def RootModule.ofBinary {m : Type → Type} [Monad m] (files : FileSystem m) (binary : Binary)
    (appFolder : Path) (windowsFolder? : Option Path) : m (Result RootModule) := do
  match ← SideBySide.entriesOf files binary appFolder windowsFolder? with
  | .ok entries => return .ok (RootModule.ofPath binary.path entries)
  | .error (.xml _) =>
    return .ok { RootModule.ofPath binary.path [] with manifestBroken := true }
  | .error failure => return .error failure

end LoadMap
