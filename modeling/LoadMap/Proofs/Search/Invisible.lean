import LoadMap.Chain
import LoadMap.Proofs.Graph.Alike
import LoadMap.Proofs.Graph.Services
import LoadMap.Proofs.Search.Afresh

/-! The listings that a search keeps are never seen: not in a row of answers, nor in a graph that is built over the
search, nor in the session that such a build is part of. -/
namespace LoadMap

open FolderCache (agrees_empty)

variable {n : Type → Type} [Monad n] {α β : Type} {files : FileSystem Id}
  {may : List Path.Component → Listing → Prop}

namespace FolderCache

/-- From a cache that agrees, an action does what another does that has no cache. -/
def Hides (may : List Path.Component → Listing → Prop) (action : StateT FolderCache n α)
    (plain : n α) : Prop :=
  ∀ cache : FolderCache, cache.Agrees may →
    ∃ done : n (α × { after : FolderCache // after.Agrees may }),
      action.run cache = (fun last => (last.1,last.2.val)) <$> done ∧ plain = Prod.fst <$> done

variable [LawfulMonad n]

theorem Serves.hides {action : StateT FolderCache n α} {value : α} (serves : Serves may action value) :
    Hides may action (pure value) := by
  intro cache agrees
  obtain ⟨after,kept,ran⟩ := serves cache agrees
  refine ⟨pure (value,⟨after,kept⟩),?_,?_⟩
  · rw [ran,map_pure]
  · rw [map_pure]

theorem hides_lift (plain : n α) : Hides may (liftM plain : StateT FolderCache n α) plain := by
  intro cache agrees
  refine ⟨(fun value => (value,⟨cache,agrees⟩)) <$> plain,?_,?_⟩
  · simp
  · simp

theorem hides_composes : Composes (m := StateT FolderCache n) (n := n) fun _ => Hides may where
  pure value := (serves_pure value).hides
  bind first next := by
    intro cache agrees
    obtain ⟨done,ran,plain⟩ := first cache agrees
    -- Every cache that the first step can leave agrees, so the rest is chosen for all of them at once.
    choose rest ends same using fun last : _ × { after : FolderCache // after.Agrees may } =>
      next last.1 last.2.val last.2.property
    refine ⟨done >>= rest,?_,?_⟩
    · rw [StateT.run_bind,ran,bind_map_left,map_bind]
      exact bind_congr ends
    · rw [plain,bind_map_left,map_bind]
      exact bind_congr same

end FolderCache

namespace SearchPath

open LoadMap.Graph (buildWithin)
open FolderCache

section Builds

variable {m : Type → Type} [Monad m]

/-- Services that find modules along a search path, with any loader. -/
def services (search : SearchPath) (files : FileSystem m) (load : Path → m (Result Binary))
    (readManaged : Path → m (Result ManagedReferences)) : Services (StateT FolderCache m) where
  load path := liftM (load path)
  readManaged path := liftM (readManaged path)
  resolve root name := Except.ok <$> search.resolve files root name

/-- The same services without a cache. -/
def servicesAfresh (search : SearchPath) (files : FileSystem Id) (load : Path → m (Result Binary))
    (readManaged : Path → m (Result ManagedReferences)) : Services m where
  load := load
  readManaged := readManaged
  resolve root name := pure (.ok (search.resolution files root name))

end Builds

variable [LawfulMonad n]

theorem services_alike (byFolder : files.ByFolder) (search : SearchPath) (load : Path → n (Result Binary))
    (readManaged : Path → n (Result ManagedReferences)) :
    Services.Alike (fun _ => Hides files.told) (search.services files.lift load readManaged)
      (search.servicesAfresh files load readManaged) where
  load path := hides_lift (load path)
  readManaged path := hides_lift (readManaged path)
  resolve root name := ((resolve_serves byFolder search root name).map Except.ok).hides

theorem build_hides (byFolder : files.ByFolder) (search : SearchPath) (load : Path → n (Result Binary))
    (readManaged : Path → n (Result ManagedReferences)) (steps : Nat) (root : RootModule)
    (maxDepth : Nat) :
    Prod.fst <$> (buildWithin (search.services files.lift load readManaged) steps root maxDepth).run {} =
      buildWithin (search.servicesAfresh files load readManaged) steps root maxDepth := by
  have hides := Graph.build_alike hides_composes
    (services_alike byFolder search load readManaged) steps root maxDepth
  obtain ⟨done,ran,plain⟩ := hides {} agrees_empty
  rw [ran,plain,Functor.map_map]

/-- What can be asked of a search: how a name is resolved, or which entry knows it. -/
inductive Request
  | resolve (root : RootModule) (name : String)
  | find (root : RootModule) (name : String)

inductive Answer
  | resolved (resolution : Resolution)
  | found (place? : Option (SearchEntry × Path))

def answer {m : Type → Type} [Monad m] (files : FileSystem m) (search : SearchPath) :
    Request → StateT FolderCache m Answer
  | .resolve root name => Answer.resolved <$> search.resolve files root name
  | .find root name => Answer.found <$> search.find? files root name

def answerAfresh (files : FileSystem Id) (search : SearchPath) : Request → Answer
  | .resolve root name => .resolved (search.resolution files root name)
  | .find root name => .found (search.answer? files root name search.entries)

theorem answer_serves (byFolder : files.ByFolder) (search : SearchPath) (request : Request) :
    Serves (n := n) files.told (search.answer files.lift request) (search.answerAfresh files request) := by
  cases request with
  | resolve root name => exact (resolve_serves byFolder search root name).map _
  | find root name => exact (askInTurn_serves byFolder search.entries).map _

theorem run_answer (byFolder : files.ByFolder) (search : SearchPath) (request : Request) :
    ((search.answer files request).run {}).run.1 = search.answerAfresh files request :=
  (answer_serves (n := Id) byFolder search request).run_empty

theorem run_answers (byFolder : files.ByFolder) (search : SearchPath) (requests : List Request) :
    ((requests.mapM (search.answer files)).run {}).run.1 = requests.map (search.answerAfresh files) :=
  (serves_mapM requests (answer_serves (n := Id) byFolder search)).run_empty

end SearchPath

namespace Session

open FolderCache

/-- Work on a session, with the folders as a state of their own. -/
def apart (action : StateT Session n α) : StateT FolderCache (StateT BinaryStore n) α :=
  fun folders binaries =>
    (fun last => ((last.1,last.2.folders),last.2.binaries)) <$> action.run { folders, binaries }

variable [LawfulMonad n]

theorem apart_pure (value : α) : apart (pure value : StateT Session n α) = pure value := by
  funext folders binaries
  rw [apart,StateT.run_pure,map_pure]
  rfl

theorem apart_bind (action : StateT Session n α) (more : α → StateT Session n β) :
    apart (action >>= more) = apart action >>= fun value => apart (more value) := by
  funext folders binaries
  change _ = ((fun last : α × Session => ((last.1,last.2.folders),last.2.binaries)) <$>
    action.run { folders, binaries }) >>= fun last => apart (more last.1.1) last.1.2 last.2
  rw [apart,StateT.run_bind,map_bind,bind_map_left]
  rfl

theorem apart_onBinaries (work : StateT BinaryStore n α) : apart (onBinaries work) = liftM work := by
  funext folders binaries
  exact (map_bind _ _ _).trans (bind_congr fun last => map_pure _ _)

theorem apart_lift (action : n α) : apart (liftM action : StateT Session n α) =
    liftM (liftM action : StateT BinaryStore n α) := by
  funext folders binaries
  change _ = (action >>= fun value => pure (value,binaries)) >>= fun last => pure ((last.1,folders),last.2)
  rw [apart,StateT.run_monadLift,map_bind,bind_assoc]
  simp only [map_pure,pure_bind]
  rfl

theorem apart_onFolders {work : StateT FolderCache n α} {value : α} (serves : Serves may work value) :
    Serves may (apart (onFolders work)) value := by
  intro cache agrees
  obtain ⟨after,kept,ran⟩ := serves cache agrees
  refine ⟨after,kept,?_⟩
  funext binaries
  have worked : work cache = pure (value,after) := ran
  change (fun last : α × Session => ((last.1,last.2.folders),last.2.binaries)) <$>
    (work cache >>= fun last => pure (last.1,{ folders := last.2, binaries })) = _
  rw [worked,pure_bind,map_pure]
  rfl

theorem composes_apart : Composes (m := StateT Session n) (n := StateT BinaryStore n)
    fun _ action => Hides may (apart action) where
  pure value := by
    rw [apart_pure]
    exact hides_composes.pure value
  bind first next := by
    rw [apart_bind]
    exact hides_composes.bind first next

theorem services_alike (byFolder : files.ByFolder) (search : SearchPath) :
    Services.Alike (fun _ action => Hides files.told (apart action)) (services (m := n) files.lift search)
      (search.servicesAfresh files (BinaryStore.load files.lift)
        fun path => liftM (ManagedReferences.ofFile (m := n) files.lift path)) where
  load path := by
    have stored := apart_onBinaries (BinaryStore.load (m := n) files.lift path)
    exact stored ▸ hides_lift _
  readManaged path := by
    have read := apart_lift (ManagedReferences.ofFile (m := n) files.lift path)
    exact read ▸ hides_lift _
  resolve root name :=
    (apart_onFolders ((SearchPath.resolve_serves byFolder search root name).map Except.ok)).hides

/-- A build in a session, which keeps folders and binaries, is one that keeps binaries only. -/
theorem build_apart (byFolder : files.ByFolder) (search : SearchPath) (steps : Nat) (root : RootModule)
    (maxDepth : Nat) (binaries : BinaryStore) :
    (fun last => (last.1,last.2.binaries)) <$>
        (Graph.buildWithin (services (m := n) files.lift search) steps root maxDepth).run { binaries } =
      (Graph.buildWithin (search.servicesAfresh files (BinaryStore.load files.lift)
        fun path => liftM (ManagedReferences.ofFile (m := n) files.lift path)) steps root maxDepth).run
        binaries := by
  have hides := Graph.build_alike composes_apart (services_alike (n := n) byFolder search) steps root maxDepth
  obtain ⟨done,ran,plain⟩ := hides {} agrees_empty
  have whole := congrArg (fun action => (fun last => (last.1.1,last.2)) <$> action.run binaries) ran
  rw [plain,StateT.run_map]
  simp only [StateT.run_map,Functor.map_map] at whole
  exact (Functor.map_map _ _ _).symm.trans whole

end Session

namespace SearchPath

open LoadMap.Graph (buildWithin)

/-- The cache of a search is invisible: each of a sequence of requests is answered as if it were the only one,
and the graph that is built over a search is the one that is built without a cache, in a session too. -/
theorem cache_invisible (byFolder : files.ByFolder) (search : SearchPath) :
    (∀ requests : List Request, ((requests.mapM (search.answer files)).run {}).run.1 =
      requests.map fun request => ((search.answer files request).run {}).run.1) ∧
    ∀ {n : Type → Type} [Monad n] [LawfulMonad n] (steps : Nat) (root : RootModule) (maxDepth : Nat),
      (∀ (load : Path → n (Result Binary)) (readManaged : Path → n (Result ManagedReferences)),
        Prod.fst <$> (buildWithin (search.services files.lift load readManaged) steps root maxDepth).run {} =
          buildWithin (search.servicesAfresh files load readManaged) steps root maxDepth) ∧
      ∀ binaries : BinaryStore, (fun last => (last.1,last.2.binaries)) <$>
          (buildWithin (Session.services (m := n) files.lift search) steps root maxDepth).run { binaries } =
        (buildWithin (search.servicesAfresh files (BinaryStore.load files.lift)
          fun path => liftM (ManagedReferences.ofFile (m := n) files.lift path)) steps root maxDepth).run
          binaries := by
  constructor
  · intro requests
    rw [run_answers byFolder]
    exact List.map_congr_left fun request _ => (run_answer byFolder search request).symm
  · intro n _ _ steps root maxDepth
    constructor
    · intro load readManaged
      exact build_hides byFolder search load readManaged steps root maxDepth
    · intro binaries
      exact Session.build_apart byFolder search steps root maxDepth binaries

/-- A folder with two files of one name but for letter case, of which the last one listed counts. -/
def twins : Disk where
  workingFolder := ["app"]
  entries := [(["app"],.folder),(["app","Lib.dll"],.file .empty),(["app","lib.DLL"],.file .empty),
    (["app","tool.dll"],.file .empty)]

def twinsSearch : SearchPath := .ofQuery {
  system? := none
  executable := ⟨"/app/app.exe"⟩
  appFolder := ⟨"/app"⟩
  workingFolder := ⟨"//app/./"⟩ }

def twinsLinks : String → List String
  | "/app/app.exe" => ["LIB.dll","gone.dll","tool.DLL"]
  | _ => []

def Answer.shown : Answer → Strategy × Option String
  | .resolved resolution => (resolution.strategy,resolution.path?.map Path.text)
  | .found place? => ((place?.map (·.1.strategy)).getD .notFound,place?.map (·.2.text))

def twinsRequests : List Request :=
  let root : RootModule := .ofPath ⟨"/app/app.exe"⟩ []
  [.resolve root "gone.dll",.resolve root "LIB.dll",.find root "tool.dll",.resolve root "gone.dll"]

theorem cache_invisible_twins :
    twins.fileSystem.ByFolder ∧
    ((twinsRequests.mapM (twinsSearch.answer twins.fileSystem)).run {}).run.1 =
      (twinsRequests.map fun request => ((twinsSearch.answer twins.fileSystem request).run {}).run.1) ∧
    ((twinsRequests.mapM (twinsSearch.answer twins.fileSystem)).run {}).run.1.map Answer.shown =
      [(.notFound,none),(.standardSearch,some "/app/lib.DLL"),(.standardSearch,some "/app/tool.dll"),
        (.notFound,none)] ∧
    ((buildWithin (twinsSearch.services twins.fileSystem (Graph.linked (m := Id) twinsLinks).load
        fun _ => pure (.ok {})) 9 (.ofPath ⟨"/app/app.exe"⟩ []) 0).run {}).run.1 =
      (buildWithin (twinsSearch.servicesAfresh twins.fileSystem (Graph.linked (m := Id) twinsLinks).load
        fun _ => pure (.ok {})) 9 (.ofPath ⟨"/app/app.exe"⟩ []) 0).run := by
  obtain ⟨answered,built⟩ := cache_invisible twins.byFolder twinsSearch
  have same := (built (n := Id) 9 (.ofPath ⟨"/app/app.exe"⟩ []) 0).1 (Graph.linked twinsLinks).load
    fun _ => pure (.ok {})
  refine ⟨twins.byFolder,answered twinsRequests,by decide +kernel,?_⟩
  rw [← same,Id.run_map]
  rfl

end SearchPath
end LoadMap
