import LoadMap.Proofs.Search.Folder
import LoadMap.SearchPath

/-! A search that reads a folder anew for every question. When the files do not change, a search that keeps the
listings gives the same answers, whatever was asked before. -/
namespace LoadMap

variable {n : Type → Type} [Monad n] {α β : Type} {files : FileSystem Id} {search : SearchPath}
  {root : RootModule} {name : String} {may : List Path.Component → Listing → Prop}

namespace FileSystem

/-- The same answers, for work that does more than ask. -/
def lift (files : FileSystem Id) : FileSystem n where
  workingFolder := pure files.workingFolder.run
  kind? path := pure (files.kind? path).run
  content? path := pure (files.content? path).run
  names? path := pure (files.names? path).run
  canonical? path := pure (files.canonical? path).run

/-- A folder is listed in one order, however its path is spelled. -/
def ByFolder (files : FileSystem Id) : Prop :=
  ∀ left right : Path, left.components = right.components → files.names? left = files.names? right

def told (files : FileSystem Id) (key : List Path.Component) (listing : Listing) : Prop :=
  ∀ folder : Path, folder.components = key → listing = .ofNames (files.names? folder).run

/-- The path of a file in a folder, which is read for this question. -/
def find? (files : FileSystem Id) (folder : Path) (name : String) : Option Path :=
  ((Listing.ofNames (files.names? folder).run).find? name).map folder.join

theorem ByFolder.told (byFolder : files.ByFolder) (folder : Path) :
    files.told folder.components (.ofNames (files.names? folder).run) := by
  intro other same
  rw [byFolder other folder same]

end FileSystem

theorem Disk.byFolder (disk : Disk) : disk.fileSystem.ByFolder := fun _ _ => Disk.names?_congr

namespace FolderCache

/-- From a cache that agrees, an action gives this value and does nothing else. -/
def Serves (may : List Path.Component → Listing → Prop) (action : StateT FolderCache n α)
    (value : α) : Prop :=
  ∀ cache : FolderCache, cache.Agrees may →
    ∃ after : FolderCache, after.Agrees may ∧ action.run cache = pure (value,after)

theorem serves_pure (value : α) : Serves may (pure value : StateT FolderCache n α) value :=
  fun cache agrees => ⟨cache,agrees,rfl⟩

variable [LawfulMonad n]

theorem Serves.bind {action : StateT FolderCache n α} {more : α → StateT FolderCache n β} {value : α}
    {last : β} (first : Serves may action value) (next : Serves may (more value) last) :
    Serves may (action >>= more) last := by
  intro cache agrees
  obtain ⟨middle,still,ran⟩ := first cache agrees
  obtain ⟨after,kept,ended⟩ := next middle still
  refine ⟨after,kept,?_⟩
  rw [StateT.run_bind,ran,pure_bind,ended]

theorem Serves.map {action : StateT FolderCache n α} {value : α} (serves : Serves may action value)
    (change : α → β) : Serves may (change <$> action) (change value) := by
  rw [map_eq_pure_bind]
  exact serves.bind (serves_pure _)

theorem serves_lift (value : α) :
    Serves may (liftM (pure value : n α) : StateT FolderCache n α) value := by
  intro cache agrees
  refine ⟨cache,agrees,?_⟩
  rw [StateT.run_monadLift,monadLift_self,pure_bind]

theorem serves_mapM (requests : List β) {ask : β → StateT FolderCache n α} {answer : β → α}
    (each : ∀ request, Serves may (ask request) (answer request)) :
    Serves may (requests.mapM ask) (requests.map answer) := by
  induction requests with
  | nil => exact serves_pure []
  | cons request rest ih =>
    rw [List.mapM_cons]
    exact (each request).bind (ih.bind (serves_pure _))

theorem listing_serves (byFolder : files.ByFolder) (folder : Path) :
    Serves files.told (listing (m := n) files.lift folder)
      (.ofNames (files.names? folder).run) := by
  intro cache agrees
  cases known : cache.folders.lookup folder.components with
  | some kept =>
    refine ⟨cache,agrees,?_⟩
    have same := agrees _ _ known folder rfl
    simp only [listing,StateT.run_bind,StateT.run_get,pure_bind,known,StateT.run_pure,same]
  | none =>
    refine ⟨_,agrees.cons (byFolder.told folder),?_⟩
    simp [listing,known,FileSystem.lift]

theorem find?_serves (byFolder : files.ByFolder) (folder : Path) (name : String) :
    Serves files.told (find? (m := n) files.lift folder name) (files.find? folder name) :=
  (listing_serves byFolder folder).bind (serves_pure _)

theorem Serves.run_empty {action : StateT FolderCache Id α} {value : α} (serves : Serves may action value) :
    (action.run {}).run.1 = value := by
  obtain ⟨after,-,ran⟩ := serves {} agrees_empty
  exact congrArg Prod.fst ran

end FolderCache

namespace SearchPath

open FolderCache

/-- What an entry says when nothing has been asked before. -/
def reply (files : FileSystem Id) (search : SearchPath) (root : RootModule) (name : String)
    (entry : SearchEntry) : Reply :=
  ((search.ask files root name entry).run {}).run.1

/-- The first entry that knows a name, each being asked as if nothing had been asked before. -/
def answer? (files : FileSystem Id) (search : SearchPath) (root : RootModule) (name : String) :
    List SearchEntry → Option (SearchEntry × Path)
  | [] => none
  | entry :: entries =>
    match search.reply files root name entry with
    | .found path => some (entry,path)
    | .stop => none
    | .goOn => search.answer? files root name entries

/-- How a name is resolved without keeping anything. -/
def resolution (files : FileSystem Id) (search : SearchPath) (root : RootModule) (name : String) :
    Resolution :=
  match search.answer? files root name search.entries with
  | some (entry,path) => .found entry.strategy path
  | none => .notFound

theorem run_find? (files : FileSystem Id) (folder : Path) (name : String) :
    ∃ after, (FolderCache.find? files folder name).run {} = (files.find? folder name,after) :=
  ⟨_,rfl⟩

variable [LawfulMonad n]

theorem askApiSets_serves (byFolder : files.ByFolder) :
    Serves files.told (search.askApiSets (m := n) files.lift name)
      (search.reply files root name .apiSets) := by
  unfold reply ask askApiSets
  cases search.query.system? with
  | none => exact serves_pure _
  | some system =>
    dsimp only
    cases contract? system name with
    | none => exact serves_pure _
    | some entry =>
      dsimp only
      cases entry.defaultHost? with
      | none => exact serves_pure _
      | some host =>
        dsimp only
        cases search.knownDll? host with
        | some path => exact serves_pure _
        | none =>
          apply (find?_serves byFolder system.systemFolder host).bind
          obtain ⟨after,asked⟩ := run_find? files system.systemFolder host
          dsimp only
          rw [StateT.run_bind,asked,Id.run_bind]
          dsimp only [Id.run]
          cases files.find? system.systemFolder host with
          | some path => exact serves_pure _
          | none => exact serves_pure _

theorem askSideBySide_lift :
    askSideBySide (m := n) files.lift root name =
      pure (search.reply files root name .sideBySide) := by
  unfold reply ask askSideBySide
  cases (SideBySide.find? root.sideBySide name).bind (·.path?) with
  | none => rfl
  | some path =>
    have asked : (files.lift : FileSystem n).isFile path = pure (files.isFile path).run := by
      simp only [FileSystem.isFile,FileSystem.lift,pure_bind]
      rfl
    simp only [asked,pure_bind]
    change (if (files.isFile path).run then pure (Reply.found path) else pure Reply.goOn : n Reply) =
      pure (if (files.isFile path).run then Reply.found path else Reply.goOn)
    split <;> rfl

theorem ask_serves (byFolder : files.ByFolder) (entry : SearchEntry) :
    Serves files.told (search.ask (m := n) files.lift root name entry)
      (search.reply files root name entry) := by
  cases entry with
  | knownDlls => exact serves_pure _
  | apiSets => exact askApiSets_serves byFolder
  | sideBySide =>
    rw [ask,askSideBySide_lift]
    exact serves_lift _
  | folder role folder => exact (find?_serves byFolder folder name).bind (serves_pure _)

theorem askInTurn_serves (byFolder : files.ByFolder) (entries : List SearchEntry) :
    Serves files.told (search.askInTurn (m := n) files.lift root name entries)
      (search.answer? files root name entries) := by
  induction entries with
  | nil => exact serves_pure _
  | cons entry entries ih =>
    apply (ask_serves byFolder entry).bind
    rw [answer?]
    cases search.reply files root name entry with
    | found path => exact serves_pure _
    | stop => exact serves_pure _
    | goOn => exact ih

theorem resolve_serves (byFolder : files.ByFolder) (search : SearchPath) (root : RootModule) (name : String) :
    Serves files.told (search.resolve (m := n) files.lift root name)
      (search.resolution files root name) := by
  apply (askInTurn_serves byFolder search.entries).bind
  rw [resolution]
  cases search.answer? files root name search.entries with
  | none => exact serves_pure _
  | some found => exact serves_pure _

end SearchPath

end LoadMap
