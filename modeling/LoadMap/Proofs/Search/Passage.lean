import LoadMap.Proofs.Search.Afresh
import LoadMap.Proofs.Search.Precedence

/-! Names that pass what comes before the folders of a search: the system does not know them, they stand for no
contract, and no file that is there is redirected under them. -/
namespace LoadMap

variable {files : FileSystem Id} {query : Query} {root : RootModule} {name : String}

namespace FileSystem

def contents (files : FileSystem Id) : Contents where
  holds key file := ∃ folder : Path, folder.components = key ∧
    (file,.file) ∈ (files.names? folder).run.getD []
  isFile path := (files.kind? path).run = some .file

theorem ByFolder.finds (byFolder : files.ByFolder) (folder : Path) (name : String) :
    files.contents.Finds folder name (files.find? folder name) := by
  have shows : (Listing.ofNames (files.names? folder).run).Shows files.contents folder.components := by
    intro small file
    rw [Listing.mem_ofNames]
    refine and_congr_left fun _ => ⟨fun member => ⟨folder,rfl,member⟩,?_⟩
    rintro ⟨other,same,member⟩
    rwa [← byFolder other folder same]
  exact shows.finds name

theorem isFile_iff {path : Path} : (files.isFile path).run = true ↔ files.contents.isFile path := decide_eq_true_iff

end FileSystem

namespace SearchPath

theorem answer?_skip {search : SearchPath} {before rest : List SearchEntry}
    (silent : ∀ entry ∈ before, search.reply files root name entry = .goOn) :
    search.answer? files root name (before ++ rest) = search.answer? files root name rest := by
  induction before with
  | nil => rfl
  | cons entry before ih =>
    obtain ⟨first,others⟩ := List.forall_mem_cons.mp silent
    rw [List.cons_append,answer?,first]
    exact ih others

theorem answer?_places {search : SearchPath} (places : List (FolderRole × Path)) :
    (match search.answer? files root name (places.map fun place => .folder place.1 place.2) with
      | some (entry,path) => Resolution.found entry.strategy path
      | none => .notFound) =
    ((places.map Prod.snd).findSome? (files.find? · name)).elim .notFound (.found .standardSearch) := by
  induction places with
  | nil => rfl
  | cons place places ih =>
    have said : search.reply files root name (.folder place.1 place.2) =
        .ofPath? (files.find? place.2 name) := rfl
    rw [List.map_cons,List.map_cons,List.findSome?_cons,answer?,said]
    cases files.find? place.2 name with
    | some path => rfl
    | none => exact ih

/-- The system has nothing to say to a name. -/
structure Unclaimed (query : Query) (name : String) : Prop where
  unknown : (ofQuery query).knownDll? name = none
  plain : ∀ system ∈ query.system?, contract? system name = none

structure Passes (files : FileSystem Id) (query : Query) (root : RootModule) (name : String) : Prop
    extends Unclaimed query name where
  own : ∀ path, ¬ Redirects files.contents root name path

theorem reply_knownDlls : (ofQuery query).reply files root name .knownDlls = .goOn ↔
    (ofQuery query).knownDll? name = none := by
  change Reply.ofPath? ((ofQuery query).knownDll? name) = .goOn ↔ _
  cases (ofQuery query).knownDll? name <;> simp [Reply.ofPath?]

theorem reply_apiSets : (ofQuery query).reply files root name .apiSets = .goOn ↔
    ∀ system ∈ query.system?, contract? system name = none := by
  have given : (ofQuery query).query = query := rfl
  unfold reply ask askApiSets
  rw [given]
  cases running : query.system? with
  | none => exact iff_of_true rfl nofun
  | some system =>
    simp only [Option.mem_def,Option.some.injEq,forall_eq']
    cases standing : contract? system name with
    | none => exact iff_of_true rfl rfl
    | some entry =>
      refine iff_of_false ?_ nofun
      dsimp only
      cases entry.defaultHost? with
      | none => nofun
      | some host =>
        dsimp only
        cases (ofQuery query).knownDll? host with
        | some path => nofun
        | none =>
          obtain ⟨after,asked⟩ := run_find? files system.systemFolder host
          dsimp only
          rw [StateT.run_bind,asked,Id.run_bind]
          dsimp only [Id.run]
          cases files.find? system.systemFolder host <;> nofun

/-- A redirected file either answers or lets the search go on. -/
theorem reply_sideBySide (files : FileSystem Id) (query : Query) (root : RootModule) (name : String) :
    (∃ path, Redirects files.contents root name path ∧
      (ofQuery query).reply files root name .sideBySide = .found path) ∨
    (∀ path, ¬ Redirects files.contents root name path) ∧
      (ofQuery query).reply files root name .sideBySide = .goOn := by
  have same : (ofQuery query).reply files root name .sideBySide = (askSideBySide files root name).run := rfl
  have listed : SideBySide.find? root.sideBySide name =
      root.sideBySide.find? (Text.Ascii.equalIgnoringCase ·.name name) := rfl
  rw [same,askSideBySide,listed]
  cases redirected : (root.sideBySide.find? (Text.Ascii.equalIgnoringCase ·.name name)).bind (·.path?) with
  | none =>
    refine .inr ⟨?_,rfl⟩
    rintro path ⟨entry,first,leads,-⟩
    simp [first,leads] at redirected
  | some path =>
    obtain ⟨entry,first,leads⟩ := Option.bind_eq_some_iff.mp redirected
    change (∃ other, Redirects files.contents root name other ∧
        (if (files.isFile path).run then Reply.found path else .goOn) = .found other) ∨
      (∀ other, ¬ Redirects files.contents root name other) ∧
        (if (files.isFile path).run then Reply.found path else .goOn) = .goOn
    by_cases there : (files.isFile path).run = true
    · exact .inl ⟨path,⟨entry,first,leads,FileSystem.isFile_iff.mp there⟩,if_pos there⟩
    · refine .inr ⟨?_,if_neg there⟩
      rintro other ⟨again,found,spelled,held⟩
      rw [first] at found
      cases found
      rw [leads] at spelled
      cases spelled
      exact there (FileSystem.isFile_iff.mpr held)

/-- A search goes past the redirections exactly with a name that passes them. -/
theorem redirections_silent_iff :
    (∀ entry ∈ redirections query.system?, (ofQuery query).reply files root name entry = .goOn) ↔
      Passes files query root name := by
  constructor
  · intro silent
    have unknown : (ofQuery query).knownDll? name = none := by
      cases listed : query.system?.bind (·.knownDlls?) with
      | none =>
        change (query.system?.bind (·.knownDlls?)).bind (·.find? name) = none
        rw [listed,Option.bind_none]
      | some known => exact reply_knownDlls.mp (silent .knownDlls (by simp [redirections,listed]))
    have plain : ∀ system ∈ query.system?, contract? system name = none := by
      cases listed : query.system?.bind (·.apiSets?) with
      | none =>
        intro system running
        have without : system.apiSets? = none := by rwa [Option.mem_def.mp running,Option.bind_some] at listed
        simp [contract?,without]
      | some map => exact reply_apiSets.mp (silent .apiSets (by simp [redirections,listed]))
    refine ⟨⟨unknown,plain⟩,?_⟩
    rcases reply_sideBySide files query root name with
      ⟨path,-,said⟩ | ⟨own,-⟩
    · rw [silent .sideBySide (by simp [redirections])] at said
      cases said
    · exact own
  · intro passes entry member
    cases entry with
    | knownDlls => exact reply_knownDlls.mpr passes.unknown
    | apiSets => exact reply_apiSets.mpr passes.plain
    | sideBySide =>
      rcases reply_sideBySide files query root name with
        ⟨path,redirects,-⟩ | ⟨-,said⟩
      · exact absurd redirects (passes.own path)
      · exact said
    | folder role folder => simp [redirections] at member

/-- Either all of some entries let a search go on, or what comes behind them does not count. -/
theorem answer?_decided (search : SearchPath) (files : FileSystem Id) (root : RootModule) (name : String)
    (before : List SearchEntry) :
    (∀ entry ∈ before, search.reply files root name entry = .goOn) ∨
      ∃ answer, (∀ rest, search.answer? files root name (before ++ rest) = answer) ∧
        ∀ entry path, answer = some (entry,path) → entry ∈ before := by
  induction before with
  | nil => exact .inl fun entry member => absurd member List.not_mem_nil
  | cons entry before ih =>
    cases said : search.reply files root name entry with
    | found path =>
      refine .inr ⟨some (entry,path),fun rest => by rw [List.cons_append,answer?,said],fun asked place found => ?_⟩
      cases found
      exact List.mem_cons_self
    | stop =>
      refine .inr ⟨none,fun rest => by rw [List.cons_append,answer?,said],fun asked place found => ?_⟩
      cases found
    | goOn =>
      rcases ih with silent | ⟨answer,decided,member⟩
      · exact .inl (List.forall_mem_cons.mpr ⟨said,silent⟩)
      · refine .inr ⟨answer,fun rest => ?_,fun entry path found => List.mem_cons_of_mem _ (member entry path found)⟩
        rw [List.cons_append,answer?,said,decided rest]

/-- A name that passes is answered by the first folder that has a file of this name. -/
theorem resolution_passing (passes : Passes files query root name) :
    (ofQuery query).resolution files root name =
      (query.searched.findSome? (files.find? · name)).elim .notFound (.found .standardSearch) := by
  rw [resolution,entries_ofQuery,answer?_skip (redirections_silent_iff.mpr passes),← placesOf_paths]
  exact answer?_places (placesOf query)

section Redirected

variable {path : Path}

end Redirected

end SearchPath
end LoadMap
