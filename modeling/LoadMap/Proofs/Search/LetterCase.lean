import LoadMap.Proofs.ApiSet.Contract
import LoadMap.Proofs.Search.Afresh

/-! A search does not see the case of ASCII letters in the name it looks for, though each of its steps
compares names in a way of its own. -/
namespace LoadMap

open Text.Ascii (lower)

variable {m : Type → Type} [Monad m] {left right : String}

theorem KnownDlls.find?_alike (known : KnownDlls) (alike : lower left = lower right) :
    known.find? left = known.find? right := by
  rw [find?,find?,alike]

theorem Text.lowercase_alike (alike : lower left = lower right) : lowercase left = lowercase right := by
  rw [← lowercase_lower left,alike,lowercase_lower]

theorem Listing.find?_alike (listing : Listing) (alike : lower left = lower right) :
    listing.find? left = listing.find? right := by
  rw [find?,find?,Text.lowercase_alike alike]

theorem FolderCache.find?_alike (files : FileSystem m) (folder : Path) (alike : lower left = lower right) :
    find? files folder left = find? files folder right := by
  have same (listing : Listing) := congrArg (·.map folder.join) (listing.find?_alike alike)
  simp only [find?,same]

theorem SideBySide.find?_alike (entries : List Entry) (alike : lower left = lower right) :
    find? entries left = find? entries right := by
  simp only [find?,Text.Ascii.equalIgnoringCase,alike]

namespace SearchPath

open FolderCache (serves_mapM)

theorem contract?_alike (system : WindowsSystem) (alike : lower left = lower right) :
    contract? system left = contract? system right := by
  have shape : ApiSet.isContractName left = ApiSet.isContractName right := by
    rw [← ApiSet.isContractName_lower left,alike,ApiSet.isContractName_lower]
  have entry (map : ApiSetMap) : map.lookup? left = map.lookup? right := by
    rw [← map.lookup?_lower left,alike,map.lookup?_lower]
  simp only [contract?,shape,entry]

theorem ask_alike (files : FileSystem m) (search : SearchPath) (root : RootModule) (alike : lower left = lower right)
    (entry : SearchEntry) : search.ask files root left entry = search.ask files root right entry := by
  cases entry with
  | knownDlls =>
    have known (known : KnownDlls) := known.find?_alike alike
    simp only [ask,knownDll?,known]
  | apiSets => simp only [ask,askApiSets,contract?_alike _ alike]
  | sideBySide => simp only [ask,askSideBySide,SideBySide.find?_alike _ alike]
  | folder role path => simp only [ask,FolderCache.find?_alike files path alike]

theorem resolve_alike (files : FileSystem m) (search : SearchPath) (root : RootModule)
    (alike : lower left = lower right) :
    search.resolve files root left = search.resolve files root right := by
  have inTurn (entries : List SearchEntry) :
      search.askInTurn files root left entries = search.askInTurn files root right entries := by
    induction entries with
    | nil => rfl
    | cons entry entries ih => rw [askInTurn,askInTurn,ask_alike files search root alike,ih]
  rw [resolve,resolve,find?,find?,inTurn]

theorem resolution_alike {files : FileSystem Id} (byFolder : files.ByFolder) (search : SearchPath)
    (root : RootModule) (alike : lower left = lower right) :
    search.resolution files root left = search.resolution files root right := by
  have alone (name : String) :
      ((search.resolve files root name).run {}).run.1 = search.resolution files root name :=
    (resolve_serves (n := Id) byFolder search root name).run_empty
  rw [← alone,← alone,resolve_alike files search root alike]

/-- The answers of one search to a row of requests. -/
def resolutions (files : FileSystem Id) (search : SearchPath) (requests : List (RootModule × String)) :
    List Resolution :=
  ((requests.mapM fun request => search.resolve files request.1 request.2).run {}).run.1

theorem resolutions_eq {files : FileSystem Id} (byFolder : files.ByFolder) (search : SearchPath)
    (requests : List (RootModule × String)) : search.resolutions files requests =
      requests.map fun request => search.resolution files request.1 request.2 :=
  (serves_mapM requests fun request =>
    resolve_serves (n := Id) byFolder search request.1 request.2).run_empty

/-- Names that differ only in the case of ASCII letters are resolved alike. A search does the same work for both,
whatever the files and whatever it has kept; and when the files do not change, both get the same answer wherever
they stand in a row of requests. -/
theorem resolve_ignores_case (query : Query) (root : RootModule) {left right : String}
    (alike : lower left = lower right) :
    (∀ {m : Type → Type} [Monad m] (files : FileSystem m),
      (ofQuery query).resolve files root left = (ofQuery query).resolve files root right) ∧
    ∀ files : FileSystem Id, files.ByFolder → ∀ (requests : List (RootModule × String)) (first second : Nat),
      requests[first]? = some (root,left) → requests[second]? = some (root,right) →
      ∃ answer, ((ofQuery query).resolutions files requests)[first]? = some answer ∧
        ((ofQuery query).resolutions files requests)[second]? = some answer := by
  refine ⟨fun files => resolve_alike files _ root alike,?_⟩
  intro files byFolder requests first second here there
  refine ⟨(ofQuery query).resolution files root left,?_,?_⟩
  · rw [resolutions_eq byFolder,List.getElem?_map,here,Option.map_some]
  · rw [resolutions_eq byFolder,List.getElem?_map,there,Option.map_some,
      resolution_alike byFolder _ root alike]

/-- A folder with a name whose capital sigma ends a word if no letter follows. -/
def greekDisk : Disk where
  workingFolder := ["app"]
  entries := [(["app"],.folder),(["app","ΛΌΓΟΣ.Dll"],.file .empty),(["app","ΛΌΓΟΣ"],.file .empty)]

def greekQuery : Query where
  system? := none
  executable := ⟨"/app/app.exe"⟩
  appFolder := ⟨"/app"⟩
  workingFolder := ⟨"/app"⟩

theorem resolve_ignores_case_sigma :
    lower "ΛΌΓΟΣ.dll" = lower "ΛΌΓΟΣ.DLL" ∧
    (ofQuery greekQuery).resolve greekDisk.fileSystem (.ofPath ⟨"/app/app.exe"⟩ []) "ΛΌΓΟΣ.dll" =
      (ofQuery greekQuery).resolve greekDisk.fileSystem (.ofPath ⟨"/app/app.exe"⟩ []) "ΛΌΓΟΣ.DLL" ∧
    ((((ofQuery greekQuery).resolve greekDisk.fileSystem (.ofPath ⟨"/app/app.exe"⟩ [])
      "ΛΌΓΟΣ.DLL").run {}).run.1.path?.map Path.text) = some "/app/ΛΌΓΟΣ.Dll" := by
  have alike : lower "ΛΌΓΟΣ.dll" = lower "ΛΌΓΟΣ.DLL" := by decide +kernel
  exact ⟨alike,(resolve_ignores_case greekQuery (.ofPath ⟨"/app/app.exe"⟩ []) alike).1 greekDisk.fileSystem,
    by decide +kernel⟩

end SearchPath
end LoadMap
