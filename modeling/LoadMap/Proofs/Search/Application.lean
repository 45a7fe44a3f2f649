import LoadMap.Proofs.Disk.Proper
import LoadMap.Proofs.Search.Passage

/-! The folder of the executable in the query that is worked out from its path. The folder comes first among those
that are searched, if the path says which one it is: before a bare file name stands the empty path, which is no
folder. -/
namespace LoadMap

variable {files : FileSystem Id} {query : Query} {root : RootModule} {name : String} {executable folder : Path}
  {system : WindowsSystem}

namespace FileSystem

theorem find?_nowhere (nothing : (files.names? folder).run = none) : files.find? folder name = none := by
  rw [FileSystem.find?,nothing]
  rfl

end FileSystem

namespace WindowsSystem

/-- What is found out about a system from its folders. -/
structure Guessed (system : WindowsSystem) : Prop where
  knownDlls : system.knownDlls? = none
  safeSearch : system.safeSearch? = none
  path : system.path? = none

theorem guessed_ofRoot (found : (ofRoot? files folder).run = some system) : system.Guessed := by
  unfold ofRoot? at found
  rw [Id.run_bind] at found
  split at found
  · cases found
    exact ⟨rfl,rfl,rfl⟩
  · cases found

theorem guessed_ofExecutable (found : (ofExecutable? files executable).run = some system) : system.Guessed := by
  unfold ofExecutable? at found
  cases above : executable.parent? with
  | none =>
    rw [above] at found
    cases found
  | some folder =>
    rw [above] at found
    dsimp only at found
    rw [Id.run_bind] at found
    split at found
    · cases found
    · exact guessed_ofRoot found

end WindowsSystem
namespace Query

theorem ofExecutable_eq (deduced : (ofExecutable files executable).run = .ok query) :
    ∃ folder, executable.parent? = some folder ∧ query = {
      system? := (WindowsSystem.ofExecutable? files executable).run
      executable
      appFolder := folder
      workingFolder := folder } := by
  unfold ofExecutable at deduced
  cases above : executable.parent? with
  | none =>
    rw [above] at deduced
    cases deduced
  | some folder =>
    rw [above] at deduced
    exact ⟨folder,rfl,(Except.ok.inj deduced).symm⟩

/-- The folders of a system. -/
def systemFolders (query : Query) : List Path :=
  (query.system?.map fun system => [system.systemFolder,system.windowsFolder]).getD []

theorem searched_deduced (deduced : (ofExecutable files executable).run = .ok query) :
    query.searched = query.appFolder :: (query.systemFolders ++ [query.appFolder]) := by
  obtain ⟨folder,-,rfl⟩ := ofExecutable_eq deduced
  unfold searched systemFolders
  cases running : (WindowsSystem.ofExecutable? files executable).run with
  | none => rfl
  | some system =>
    have guessed := WindowsSystem.guessed_ofExecutable running
    simp [guessed.safeSearch,guessed.path]

theorem appFolder_components (deduced : (ofExecutable files executable).run = .ok query) :
    query.appFolder.components = executable.components.dropLast := by
  obtain ⟨folder,above,rfl⟩ := ofExecutable_eq deduced
  exact Path.parent?_components above

end Query

namespace SearchPath

theorem knownDll?_deduced (deduced : (Query.ofExecutable files executable).run = .ok query) (name : String) :
    (ofQuery query).knownDll? name = none := by
  obtain ⟨folder,-,rfl⟩ := Query.ofExecutable_eq deduced
  unfold knownDll? ofQuery
  cases running : (WindowsSystem.ofExecutable? files executable).run with
  | none => rfl
  | some system =>
    have guessed := WindowsSystem.guessed_ofExecutable running
    dsimp only
    rw [Option.bind_some,guessed.knownDlls]
    rfl

section Deduced

variable (byFolder : files.ByFolder) (deduced : (Query.ofExecutable files executable).run = .ok query)
  (plain : ∀ system ∈ query.system?, contract? system name = none)
  (own : SideBySide.find? root.sideBySide name = none)
include byFolder deduced plain own

theorem resolve_deduced : (((ofQuery query).resolve files root name).run {}).run.1 =
    ((query.appFolder :: (query.systemFolders ++ [query.appFolder])).findSome? (files.find? · name)).elim
      .notFound (.found .standardSearch) := by
  have answered : (((ofQuery query).resolve files root name).run {}).run.1 =
      (ofQuery query).resolution files root name :=
    (resolve_serves (n := Id) byFolder (ofQuery query) root name).run_empty
  have passes : Passes files query root name := by
    refine ⟨⟨knownDll?_deduced deduced name,plain⟩,?_⟩
    rintro path ⟨entry,listed,-⟩
    rw [SideBySide.find?,listed] at own
    cases own
  rw [answered,resolution_passing passes,Query.searched_deduced deduced]

theorem resolve_beside {file : String} (held : files.contents.holds executable.components.dropLast file)
    (same : Text.lowercase file = Text.lowercase name) :
    ∃ other, files.contents.holds executable.components.dropLast other ∧
      Text.lowercase other = Text.lowercase name ∧
      (((ofQuery query).resolve files root name).run {}).run.1 =
        ⟨.standardSearch,some (query.appFolder.join other)⟩ := by
  have spelled := Query.appFolder_components deduced
  have finds := byFolder.finds query.appFolder name
  rw [resolve_deduced byFolder deduced plain own,List.findSome?_cons]
  cases found : files.find? query.appFolder name with
  | none =>
    rw [found] at finds
    exact absurd ⟨spelled ▸ held,same⟩ (finds file)
  | some path =>
    rw [found] at finds
    obtain ⟨other,⟨also,alike⟩,rfl⟩ := finds
    exact ⟨other,spelled ▸ also,alike,rfl⟩

theorem resolve_bare (bare : executable.components.dropLast = []) (nothing : (files.names? ⟨""⟩).run = none) :
    (((ofQuery query).resolve files root name).run {}).run.1 =
      (query.systemFolders.findSome? (files.find? · name)).elim .notFound (.found .standardSearch) := by
  have nowhere : files.find? query.appFolder name = none := by
    apply FileSystem.find?_nowhere
    rw [byFolder query.appFolder ⟨""⟩ ((Query.appFolder_components deduced).trans bare)]
    exact nothing
  rw [resolve_deduced byFolder deduced plain own,List.findSome?_cons,nowhere,List.findSome?_append,
    List.findSome?_cons,nowhere,List.findSome?_nil,Option.or_none]

end Deduced

/-- A plain name is found beside the executable, if a file of this name lies in the folder that the path of the
executable spells. Before a bare file name it spells none, and only the folders of the system are searched. -/
theorem found_beside (byFolder : files.ByFolder)
    (deduced : (Query.ofExecutable files executable).run = .ok query) (root : RootModule) (name : String)
    (plain : ∀ system ∈ query.system?, contract? system name = none)
    (own : SideBySide.find? root.sideBySide name = none) :
    query.appFolder.components = executable.components.dropLast ∧
    (∀ file, files.contents.holds executable.components.dropLast file →
      Text.lowercase file = Text.lowercase name →
      ∃ other, files.contents.holds executable.components.dropLast other ∧
        Text.lowercase other = Text.lowercase name ∧
        (((ofQuery query).resolve files root name).run {}).run.1 =
          ⟨.standardSearch,some (query.appFolder.join other)⟩) ∧
    (executable.components.dropLast = [] → (files.names? ⟨""⟩).run = none →
      (((ofQuery query).resolve files root name).run {}).run.1 =
        (query.systemFolders.findSome? (files.find? · name)).elim .notFound (.found .standardSearch)) := by
  refine ⟨Query.appFolder_components deduced,?_,?_⟩
  · intro file held same
    exact resolve_beside byFolder deduced plain own held same
  · intro bare nothing
    exact resolve_bare byFolder deduced plain own bare nothing

/-- A folder in which an application is started by its bare name. -/
def startedDisk : Disk where
  workingFolder := ["app"]
  entries := [(["app"],.folder),(["app","app.exe"],.file .empty),(["app","Lib.dll"],.file .empty)]

def startedAs (text : String) : Query where
  system? := none
  executable := ⟨text⟩
  appFolder := (Path.mk text).parent?.getD ⟨""⟩
  workingFolder := (Path.mk text).parent?.getD ⟨""⟩

/-- The same file is found or not, as the path of the executable has a folder in it or not. -/
theorem bare_name_lost :
    startedDisk.locate? ⟨"app.exe"⟩ = some ["app","app.exe"] ∧ ("Lib.dll",.file) ∈ startedDisk.namesAt ["app"] ∧
    (Query.ofExecutable startedDisk.fileSystem ⟨"app.exe"⟩).run = .ok (startedAs "app.exe") ∧
    (((ofQuery (startedAs "app.exe")).resolve startedDisk.fileSystem (.ofPath ⟨"app.exe"⟩ []) "lib.dll").run
      {}).run.1 = .notFound ∧
    (Query.ofExecutable startedDisk.fileSystem ⟨"./app.exe"⟩).run = .ok (startedAs "./app.exe") ∧
    (((ofQuery (startedAs "./app.exe")).resolve startedDisk.fileSystem (.ofPath ⟨"./app.exe"⟩ []) "lib.dll").run
      {}).run.1 = ⟨.standardSearch,some ⟨"./Lib.dll"⟩⟩ :=
  ⟨by decide +kernel,by decide +kernel,rfl,rfl,rfl,rfl⟩

theorem found_beside_started :
    startedDisk.fileSystem.ByFolder ∧
    (Query.ofExecutable startedDisk.fileSystem ⟨"./app.exe"⟩).run = .ok (startedAs "./app.exe") ∧
    (∃ other, startedDisk.fileSystem.contents.holds (Path.mk "./app.exe").components.dropLast other ∧
      Text.lowercase other = Text.lowercase "LIB.dll" ∧
      (((ofQuery (startedAs "./app.exe")).resolve startedDisk.fileSystem (.ofPath ⟨"./app.exe"⟩ []) "LIB.dll").run
        {}).run.1 = ⟨.standardSearch,some ((startedAs "./app.exe").appFolder.join other)⟩) ∧
    (Query.ofExecutable startedDisk.fileSystem ⟨"app.exe"⟩).run = .ok (startedAs "app.exe") ∧
    (((ofQuery (startedAs "app.exe")).resolve startedDisk.fileSystem (.ofPath ⟨"app.exe"⟩ []) "LIB.dll").run
      {}).run.1 = .notFound := by
  have byFolder := startedDisk.byFolder
  have below : (Query.ofExecutable startedDisk.fileSystem ⟨"./app.exe"⟩).run = .ok (startedAs "./app.exe") := rfl
  have bare : (Query.ofExecutable startedDisk.fileSystem ⟨"app.exe"⟩).run = .ok (startedAs "app.exe") := rfl
  have held : startedDisk.fileSystem.contents.holds (Path.mk "./app.exe").components.dropLast "Lib.dll" := by
    refine ⟨⟨"."⟩,by decide +kernel,?_⟩
    change ("Lib.dll",.file) ∈ (startedDisk.names? ⟨"."⟩).getD []
    decide +kernel
  obtain ⟨-,found,-⟩ := found_beside byFolder below (.ofPath ⟨"./app.exe"⟩ []) "LIB.dll"
    (fun _ member => by cases member) rfl
  obtain ⟨-,-,lost⟩ := found_beside byFolder bare (.ofPath ⟨"app.exe"⟩ []) "LIB.dll"
    (fun _ member => by cases member) rfl
  exact ⟨byFolder,below,found "Lib.dll" held (by decide +kernel),bare,lost (by decide +kernel) rfl⟩

end SearchPath
end LoadMap
