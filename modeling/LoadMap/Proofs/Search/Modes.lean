import LoadMap.Proofs.Search.Passage

/-! The two modes of a search: the working folder is searched after the folders of the system, or before them. -/
namespace LoadMap

variable {files : FileSystem Id} {query : Query} {system : WindowsSystem} {root : RootModule} {name : String}
  {folder : Path}

namespace FileSystem.ByFolder

theorem find?_eq_none_iff (byFolder : files.ByFolder) :
    files.find? folder name = none ↔ files.contents.Finds folder name none := by
  have finds := byFolder.finds folder name
  constructor
  · intro missing
    rwa [missing] at finds
  · intro missing
    cases found : files.find? folder name with
    | none => rfl
    | some path =>
      rw [found] at finds
      obtain ⟨file,named,-⟩ := finds
      exact absurd named (missing file)

theorem finds_of_find? (byFolder : files.ByFolder) {path : Path} (found : files.find? folder name = some path) :
    files.contents.Finds folder name (some path) := by
  have finds := byFolder.finds folder name
  rwa [found] at finds

end FileSystem.ByFolder

/-- The working folder is searched after the folders of the system in safe mode, and before them otherwise. -/
def Query.inMode (query : Query) (safe : Bool) : Query :=
  { query with system? := query.system?.map fun system => { system with safeSearch? := some safe } }

namespace SearchPath

section Mode

variable {safe : Bool}

theorem redirections_inMode : redirections (query.inMode safe).system? = redirections query.system? := by
  cases running : query.system? <;> simp [Query.inMode,redirections,running]

theorem reply_inMode (entry : SearchEntry) :
    (ofQuery (query.inMode safe)).reply files root name entry = (ofQuery query).reply files root name entry := by
  cases entry with
  | knownDlls =>
    change Reply.ofPath? ((ofQuery (query.inMode safe)).knownDll? name) = .ofPath? ((ofQuery query).knownDll? name)
    cases running : query.system? <;> simp [knownDll?,ofQuery,Query.inMode,running]
  | apiSets =>
    unfold reply ask askApiSets knownDll? ofQuery Query.inMode
    cases query.system? <;> rfl
  | sideBySide => rfl
  | folder role folder => rfl

theorem answer?_inMode (entries : List SearchEntry) :
    (ofQuery (query.inMode safe)).answer? files root name entries =
      (ofQuery query).answer? files root name entries := by
  induction entries with
  | nil => rfl
  | cons entry entries ih => simp only [answer?,reply_inMode,ih]

theorem passes_inMode : Passes files (query.inMode safe) root name ↔ Passes files query root name := by
  simp only [← redirections_silent_iff,redirections_inMode,reply_inMode]

/-- A name that does not get to the folders is answered alike in both modes. -/
theorem resolution_inMode (stays : ¬ Passes files query root name) (other : Bool) :
    (ofQuery (query.inMode safe)).resolution files root name =
      (ofQuery (query.inMode other)).resolution files root name := by
  rcases answer?_decided (ofQuery query) files root name
    (redirections query.system?) with silent | ⟨answer,decided,-⟩
  · exact absurd (redirections_silent_iff.mp silent) stays
  · simp only [resolution,entries_ofQuery,redirections_inMode,answer?_inMode,decided]

end Mode

/-- A file of the system's folder, or else one of the Windows folder. -/
def SystemFinds (files : FileSystem Id) (system : WindowsSystem) (name : String) (path : Path) : Prop :=
  files.contents.Finds system.systemFolder name (some path) ∨
    files.contents.Finds system.systemFolder name none ∧ files.contents.Finds system.windowsFolder name (some path)

/-- The application has no such file, but both the system and the working folder have one. -/
structure Contested (files : FileSystem Id) (query : Query) (system : WindowsSystem) (root : RootModule)
    (name : String) : Prop where
  passes : Passes files query root name
  application : files.contents.Finds query.appFolder name none
  working : ∃ path, files.contents.Finds query.workingFolder name (some path)
  systems : (∃ path, files.contents.Finds system.systemFolder name (some path)) ∨
    ∃ path, files.contents.Finds system.windowsFolder name (some path)

/-- What is answered in safe mode, and what in the other. -/
structure Compared (files : FileSystem Id) (query : Query) (system : WindowsSystem) (root : RootModule)
    (name : String) (careful hasty : Resolution) : Prop where
  strategy : careful.strategy = hasty.strategy
  same : ¬ Contested files query system root name → careful = hasty
  apart : Contested files query system root name →
    (∃ path, SystemFinds files system name path ∧ careful = ⟨.standardSearch,some path⟩) ∧
      ∃ path, files.contents.Finds query.workingFolder name (some path) ∧ hasty = ⟨.standardSearch,some path⟩

def answersInMode (files : FileSystem Id) (query : Query) (safe : Bool) (requests : List (RootModule × String)) :
    List Resolution :=
  ((requests.mapM fun request => (ofQuery (query.inMode safe)).resolve files request.1 request.2).run {}).run.1

section Compare

variable (running : query.system? = some system)
include running

theorem entries_perm : (ofQuery (query.inMode true)).entries.Perm (ofQuery (query.inMode false)).entries := by
  simp only [ofQuery,redirections_inMode]
  apply List.Perm.append
  · apply List.Perm.append_left
    simp only [ownFolders,Query.inMode,running,Option.map_some,Option.getD_some,if_true,Bool.false_eq_true,if_false]
    exact (List.perm_append_singleton _ [_,_])
  · simp [pathFolders,Query.inMode,running]

theorem searched_inMode : ∃ rest : List Path,
    (query.inMode true).searched =
      [query.appFolder,system.systemFolder,system.windowsFolder,query.workingFolder] ++ rest ∧
    (query.inMode false).searched =
      [query.appFolder,query.workingFolder,system.systemFolder,system.windowsFolder] ++ rest :=
  ⟨system.path?.getD [] ++ query.userPath,by simp [Query.searched,Query.inMode,running],
    by simp [Query.searched,Query.inMode,running]⟩

theorem compared_passing (byFolder : files.ByFolder) (passes : Passes files query root name) :
    Compared files query system root name ((ofQuery (query.inMode true)).resolution files root name)
      ((ofQuery (query.inMode false)).resolution files root name) := by
  obtain ⟨rest,careful,hasty⟩ := searched_inMode running
  rw [resolution_passing (passes_inMode.mpr passes),resolution_passing (passes_inMode.mpr passes),careful,hasty]
  simp only [List.cons_append,List.nil_append,List.findSome?_cons]
  have none_iff (folder : Path) : files.find? folder name = none ↔ files.contents.Finds folder name none :=
    byFolder.find?_eq_none_iff
  have apart (contested : Contested files query system root name) :
      files.find? query.workingFolder name ≠ none ∧
        (files.find? system.systemFolder name ≠ none ∨ files.find? system.windowsFolder name ≠ none) := by
    simp only [ne_eq,none_iff]
    obtain ⟨-,-,⟨path,file,named,-⟩,systems⟩ := contested
    refine ⟨fun missing => missing file named,systems.imp ?_ ?_⟩
    all_goals
      rintro ⟨path,file,named,-⟩ missing
      exact missing file named
  -- If the application or else the working folder settles it, no case on the folders of the system is needed.
  cases own : files.find? query.appFolder name with
  | some path =>
    refine ⟨rfl,fun _ => rfl,fun contested => ?_⟩
    rw [(none_iff _).mpr contested.application] at own
    cases own
  | none =>
    cases working : files.find? query.workingFolder name with
    | none => exact ⟨rfl,fun _ => rfl,fun contested => absurd working (apart contested).1⟩
    | some planted =>
      have finds := byFolder.finds_of_find? working
      have contests : _ → Contested files query system root name :=
        .mk passes ((none_iff _).mp own) ⟨planted,finds⟩
      cases first : files.find? system.systemFolder name with
      | some path =>
        have trusted := byFolder.finds_of_find? first
        exact ⟨rfl,fun calm => absurd (contests (.inl ⟨path,trusted⟩)) calm,
          fun _ => ⟨⟨path,.inl trusted,rfl⟩,planted,finds,rfl⟩⟩
      | none =>
        cases second : files.find? system.windowsFolder name with
        | some path =>
          have trusted := byFolder.finds_of_find? second
          exact ⟨rfl,fun calm => absurd (contests (.inr ⟨path,trusted⟩)) calm,
            fun _ => ⟨⟨path,.inr ⟨(none_iff _).mp first,trusted⟩,rfl⟩,planted,finds,rfl⟩⟩
        | none =>
          refine ⟨rfl,fun _ => rfl,fun contested => ?_⟩
          rcases (apart contested).2 with found | found
          · exact absurd first found
          · exact absurd second found

/-- The two modes ask the same entries. Whatever is asked in a row, they answer alike, but for a name that only the
folders of the system and the working folder contest: in safe mode the system has it, otherwise the working folder. -/
theorem modes_compared (byFolder : files.ByFolder) :
    (ofQuery (query.inMode true)).entries.Perm (ofQuery (query.inMode false)).entries ∧
    ∀ requests : List (RootModule × String),
      List.Forall₂ (fun request answers => Compared files query system request.1 request.2 answers.1 answers.2)
        requests ((answersInMode files query true requests).zip (answersInMode files query false requests)) := by
  refine ⟨entries_perm running,fun requests => ?_⟩
  have served (safe : Bool) : answersInMode files query safe requests =
      requests.map fun request => (ofQuery (query.inMode safe)).resolution files request.1 request.2 :=
    (FolderCache.serves_mapM (n := Id) requests fun request =>
      resolve_serves byFolder (ofQuery (query.inMode safe)) request.1 request.2).run_empty
  rw [served,served,List.zip_map',List.forall₂_map_right_iff,List.forall₂_same]
  intro request _
  by_cases passes : Passes files query request.1 request.2
  · exact compared_passing running byFolder passes
  · have same := @resolution_inMode files query request.1 request.2 true passes false
    dsimp only
    rw [same]
    exact ⟨rfl,fun _ => rfl,fun contested => absurd contested.passes passes⟩

end Compare

/-- Libraries in the working folder that have the names of others: one of a file of the system, one of a file in the
Windows folder, one of a known module, one of a file of the application. -/
def plantedDisk : Disk where
  workingFolder := ["work"]
  entries := [(["app"],.folder),(["work"],.folder),(["win"],.folder),(["win","sys"],.folder),
    (["app","own.dll"],.file .empty),(["win","sys","Net.dll"],.file .empty),(["win","help.dll"],.file .empty),
    (["work","net.DLL"],.file .empty),(["work","help.dll"],.file .empty),(["work","own.dll"],.file .empty),
    (["work","kernel32.dll"],.file .empty)]

def plantedSystem : WindowsSystem where
  knownDlls? := some (.ofNames ["kernel32.dll"] ⟨"/win/sys"⟩)
  windowsFolder := ⟨"/win"⟩
  systemFolder := ⟨"/win/sys"⟩

def plantedQuery : Query where
  system? := some plantedSystem
  executable := ⟨"/app/app.exe"⟩
  appFolder := ⟨"/app"⟩
  workingFolder := ⟨"/work"⟩

theorem modes_compared_planted :
    plantedQuery.system? = some plantedSystem ∧ plantedDisk.fileSystem.ByFolder ∧
    (ofQuery (plantedQuery.inMode true)).entries.Perm (ofQuery (plantedQuery.inMode false)).entries ∧
    ∃ answers : List (Resolution × Resolution),
      List.Forall₂ (fun request answers => Compared plantedDisk.fileSystem plantedQuery plantedSystem
        request.1 request.2 answers.1 answers.2)
      (["net.dll","help.dll","own.dll","Kernel32.DLL"].map fun name => (RootModule.ofPath ⟨"/app/app.exe"⟩ [],name))
      answers ∧
      answers.map (fun answers => (answers.1.path?.map Path.text,answers.2.path?.map Path.text)) =
        [(some "/win/sys/Net.dll",some "/work/net.DLL"),(some "/win/help.dll",some "/work/help.dll"),
          (some "/app/own.dll",some "/app/own.dll"),(some "/win/sys/kernel32.dll",some "/win/sys/kernel32.dll")] := by
  obtain ⟨entries,compared⟩ := modes_compared (show plantedQuery.system? = some plantedSystem from rfl) plantedDisk.byFolder
  exact ⟨rfl,plantedDisk.byFolder,entries,_,compared _,by decide +kernel⟩

end SearchPath
end LoadMap
