import LoadMap.Proofs.Disk.Proper
import LoadMap.Proofs.Graph.Trail
import LoadMap.Proofs.Search.Invisible

/-! What stands behind the answers of a search. Most of them are files that are there; the list of known modules
is taken at its word. So what stops a build is the root, a file that is there, or a module on that list. -/
namespace LoadMap

open LoadMap.Graph (buildWithin Reaches Fails FailedAt Progress ofRoot rootId)

variable {files : FileSystem Id} {search : SearchPath} {root : RootModule} {name : String}
  {resolution : Resolution}

/-- What a folder lists as a file is one. -/
def FileSystem.ListsFiles (files : FileSystem Id) : Prop :=
  ∀ (folder : Path) (file : String), (file,.file) ∈ (files.names? folder).run.getD [] →
    (files.kind? (folder.join file)).run = some .file

theorem Disk.Proper.listsFiles {disk : Disk} (proper : disk.Proper) : disk.fileSystem.ListsFiles := by
  intro folder file listed
  obtain ⟨here,-,-,regular⟩ := proper.find?_join listed
  exact regular

namespace SearchPath

/-- A path that is on the list of known modules, for a name or for the module behind its contract. Nobody has
looked whether there is a file. -/
inductive Listed (search : SearchPath) (name : String) : Strategy → Path → Prop
  | known {path : Path} (listed : search.knownDll? name = some path) : Listed search name .knownDll path
  | host {system : WindowsSystem} {entry : ApiSet.Entry} {host : String} {path : Path}
      (running : search.query.system? = some system) (contract : contract? system name = some entry)
      (hosted : entry.defaultHost? = some host) (listed : search.knownDll? host = some path) :
      Listed search name .apiSet path

/-- A path is that of a file, or it is on the list of known modules. -/
def Backs (files : FileSystem Id) (search : SearchPath) (name : String) (strategy : Strategy) (path : Path) :
    Prop :=
  (files.kind? path).run = some .file ∨ search.Listed name strategy path

def Backed (files : FileSystem Id) (search : SearchPath) (name : String) (resolution : Resolution) : Prop :=
  resolution.strategy ≠ .notFound →
    ∃ path, resolution.path? = some path ∧ search.Backs files name resolution.strategy path

theorem kind?_of_find? (lists : files.ListsFiles) {folder path : Path}
    (found : files.find? folder name = some path) : (files.kind? path).run = some .file := by
  obtain ⟨file,listed,rfl⟩ := Option.map_eq_some_iff.mp found
  exact lists folder file (Listing.mem_ofNames.mp (Listing.mem_of_find? listed)).1

theorem Reply.eq_some {path? : Option Path} {path : Path} (found : Reply.ofPath? path? = .found path) :
    path? = some path := by
  cases path? with
  | none => cases found
  | some other =>
    cases found
    rfl

/-- The host of a contract is a known module, or it lies in the folder of the system. -/
theorem host_of_apiSets {path : Path} (said : search.reply files root name .apiSets = .found path) :
    ∃ system entry host, search.query.system? = some system ∧ contract? system name = some entry ∧
      entry.defaultHost? = some host ∧
      (search.knownDll? host = some path ∨ files.find? system.systemFolder host = some path) := by
  unfold reply ask askApiSets at said
  cases running : search.query.system? with
  | none =>
    rw [running] at said
    cases said
  | some system =>
    rw [running] at said
    dsimp only at said
    cases standing : contract? system name with
    | none =>
      rw [standing] at said
      cases said
    | some entry =>
      rw [standing] at said
      dsimp only at said
      cases hosted : entry.defaultHost? with
      | none =>
        rw [hosted] at said
        cases said
      | some host =>
        rw [hosted] at said
        dsimp only at said
        refine ⟨system,entry,host,rfl,standing,hosted,?_⟩
        cases known : search.knownDll? host with
        | some other =>
          rw [known] at said
          cases said
          exact .inl rfl
        | none =>
          rw [known] at said
          obtain ⟨after,asked⟩ := run_find? files system.systemFolder host
          dsimp only at said
          rw [StateT.run_bind,asked,Id.run_bind] at said
          dsimp only [Id.run] at said
          cases found : files.find? system.systemFolder host with
          | none =>
            rw [found] at said
            cases said
          | some other =>
            rw [found] at said
            cases said
            exact .inr rfl

theorem apiSets_backs (lists : files.ListsFiles) {path : Path}
    (said : search.reply files root name .apiSets = .found path) : search.Backs files name .apiSet path := by
  obtain ⟨system,entry,host,running,contract,hosted,listed | found⟩ := host_of_apiSets said
  · exact .inr (.host running contract hosted listed)
  · exact .inl (kind?_of_find? lists found)

theorem sideBySide_backs {path : Path} (said : search.reply files root name .sideBySide = .found path) :
    (files.kind? path).run = some .file := by
  have asked : (askSideBySide files root name).run = .found path := said
  unfold askSideBySide at asked
  cases redirected : (SideBySide.find? root.sideBySide name).bind (·.path?) with
  | none =>
    rw [redirected] at asked
    cases asked
  | some other =>
    rw [redirected] at asked
    change (if (files.isFile other).run then pure (Reply.found other) else pure Reply.goOn : Id Reply).run =
      .found path at asked
    split at asked
    · rename_i there
      cases asked
      exact of_decide_eq_true there
    · cases asked

theorem reply_backs (lists : files.ListsFiles) {entry : SearchEntry} {path : Path}
    (said : search.reply files root name entry = .found path) :
    search.Backs files name entry.strategy path := by
  cases entry with
  | knownDlls => exact .inr (.known (Reply.eq_some said))
  | apiSets => exact apiSets_backs lists said
  | sideBySide => exact .inl (sideBySide_backs said)
  | folder role folder => exact .inl (kind?_of_find? lists (Reply.eq_some said))

theorem reply_of_answer? {entries : List SearchEntry} {entry : SearchEntry} {path : Path}
    (answered : search.answer? files root name entries = some (entry,path)) :
    search.reply files root name entry = .found path := by
  induction entries with
  | nil => cases answered
  | cons first rest ih =>
    rw [answer?] at answered
    cases said : search.reply files root name first with
    | found other =>
      rw [said] at answered
      cases answered
      exact said
    | stop =>
      rw [said] at answered
      cases answered
    | goOn =>
      rw [said] at answered
      exact ih answered

theorem resolution_backed (lists : files.ListsFiles) (search : SearchPath) (root : RootModule) (name : String) :
    search.Backed files name (search.resolution files root name) := by
  rw [resolution]
  cases answered : search.answer? files root name search.entries with
  | none => exact fun found => absurd rfl found
  | some place =>
    obtain ⟨entry,path⟩ := place
    have said := reply_of_answer? answered
    have found : Resolution.found entry.strategy path = ⟨entry.strategy,some path⟩ := by
      cases entry <;> rfl
    intro _
    dsimp only
    rw [found]
    exact ⟨path,rfl,reply_backs lists said⟩

end SearchPath

namespace Graph

variable {σ : Type} {services : Services (StateM σ)} {maxDepth : Nat} {graph : Graph} {before after : σ}
  {visited above : List NodeId} {failing : NodeId} {cause failure : Failure}

/-- A file that cannot be loaded, or what is managed in it cannot be read. -/
inductive Refused (load : Path → StateM σ (Result Binary))
    (readManaged : Path → StateM σ (Result ManagedReferences)) (path : Path) (cause : Failure) : Prop
  | load {before after : σ} (refused : (load path).run before = (.error cause,after))
  | managed {before after : σ} (foreign : ∀ image, cause ≠ .notManaged image)
      (refused : (readManaged path).run before = (.error cause,after))

/-- When every name has an answer, a build can only stop at a file, which is that of the root or the answer to
a name. -/
theorem FailedAt.refused
    (stopped : FailedAt services root maxDepth before failure after graph visited failing above cause)
    (answers : ∀ name before cause after, (services.resolve root name).run before ≠ (.error cause,after)) :
    ∃ path, (graph.node failing).path? = some path ∧ Refused services.load services.readManaged path cause ∧
      (path = root.path ∨ ∃ name resolution, Answers services root name resolution ∧
        resolution.path? = some path) := by
  obtain ⟨middle,reaches,fails⟩ := stopped.stops
  obtain ⟨rest,state⟩ := reaches.state
  have origin {path : Path} (file : (graph.node failing).path? = some path) : path = root.path ∨
      ∃ name resolution, Answers services root name resolution ∧ resolution.path? = some path := by
    by_cases top : failing = rootId
    · have first := congrArg Module.path? state.root.1
      rw [← top,file] at first
      exact .inl (Option.some.inj first)
    · obtain ⟨parent,origin⟩ := state.origin failing state.mem_head.1 top
      obtain ⟨name,-,resolution,answered,same⟩ := origin.found
      have place : (graph.node failing).path? = resolution.path? := congrArg Module.path? same
      exact .inr ⟨name,resolution,answered,place ▸ file⟩
  cases fails with
  | load file refused => exact ⟨_,file,.load refused,origin file⟩
  | managed file loaded recognized foreign refused => exact ⟨_,file,.managed foreign refused,origin file⟩
  | resolve loading imports resolved refused => exact absurd refused (answers _ _ _ _)

end Graph

namespace SearchPath

variable {σ : Type} {load : Path → StateM σ (Result Binary)}
  {readManaged : Path → StateM σ (Result ManagedReferences)} {steps maxDepth : Nat} {before after : σ}
  {run : Graph.Run} {failure : Failure}

theorem backs_of_answers (lists : files.ListsFiles) {path : Path}
    (answered : Graph.Answers (search.servicesAfresh files load readManaged) root name resolution)
    (file : resolution.path? = some path) : ∃ strategy, search.Backs files name strategy path := by
  obtain ⟨graph,before,after,rfl,resolved⟩ := answered
  rw [Graph.resolve_run] at resolved
  have same : (if (search.resolution files graph.rootModule name).strategy = .notFound then .notFound
      else search.resolution files graph.rootModule name) = resolution :=
    Except.ok.inj (congrArg Prod.fst resolved)
  subst same
  split at file
  · cases file
  · rename_i found
    obtain ⟨other,spelled,backs⟩ := resolution_backed lists search graph.rootModule name found
    rw [spelled] at file
    cases file
    exact ⟨_,backs⟩

/-- Where a build over a search has failed: at a file that a service refused. The file is that of the root, or one
that the search found or has on its list. -/
structure StoppedAt (search : SearchPath) (files : FileSystem Id) (load : Path → StateM σ (Result Binary))
    (readManaged : Path → StateM σ (Result ManagedReferences)) (root : RootModule) (failure : Failure)
    (path : Path) : Prop where
  origin : path = root.path ∨ ∃ name strategy, search.Backs files name strategy path
  refused : ∃ cause above, Graph.Refused load readManaged path cause ∧
    failure.trail = cause.trail ++ path.text :: above ∧ failure.rootCause = cause.rootCause

theorem stopped_afresh (lists : files.ListsFiles)
    (ran : (buildWithin (search.servicesAfresh files load readManaged) steps root maxDepth).run before =
      (run,after)) (failed : run.outcome = .failed failure) :
    ∃ path, StoppedAt search files load readManaged root failure path := by
  obtain ⟨graph,visited,failing,above,cause,stopped,-⟩ := Graph.failure_trail ran failed
  obtain ⟨path,file,refused,origin⟩ := stopped.refused fun _ _ _ _ given => by cases given
  refine ⟨path,origin.imp_right ?_,cause,above.map fun id => (graph.node id).identity,refused,?_,
    stopped.rootCause⟩
  · rintro ⟨name,resolution,answered,found⟩
    exact ⟨name,backs_of_answers lists answered found⟩
  · have identity : (graph.node failing).identity = path.text := by rw [Module.identity,file]
    rw [stopped.trail,List.map_cons,identity]

/-- Every answer of a search is backed, whatever was asked before. A build over it fails only at a file that a
service refuses, and this is the file of the root, a file that is there, or one on the list of known modules. -/
theorem search_backed (byFolder : files.ByFolder) (lists : files.ListsFiles) (search : SearchPath) :
    (∀ requests : List (RootModule × String),
      List.Forall₂ (fun request => search.Backed files request.2) requests
        ((requests.mapM fun request => search.resolve files request.1 request.2).run {}).run.1) ∧
    ∀ {σ : Type} (load : Path → StateM σ (Result Binary))
      (readManaged : Path → StateM σ (Result ManagedReferences)) (steps : Nat) (root : RootModule)
      (maxDepth : Nat) (before : σ) (failure : Failure),
      (((buildWithin (search.services files.lift load readManaged) steps root maxDepth).run {}).run
        before).1.1.outcome = .failed failure →
      ∃ path, StoppedAt search files load readManaged root failure path := by
  constructor
  · intro requests
    have answered : ((requests.mapM fun request => search.resolve files request.1 request.2).run {}).run.1 =
        requests.map fun request => search.resolution files request.1 request.2 :=
      (FolderCache.serves_mapM (n := Id) requests fun request =>
        resolve_serves byFolder search request.1 request.2).run_empty
    rw [answered,List.forall₂_map_right_iff,List.forall₂_same]
    exact fun request _ => resolution_backed lists search request.1 request.2
  · intro σ load readManaged steps root maxDepth before failure failed
    have plain := congrArg (fun action => action.run before)
      (build_hides byFolder search load readManaged steps root maxDepth)
    exact stopped_afresh lists plain.symm failed

/-- A system whose list of known modules names one that is not there. -/
def ghost : Query where
  system? := some {
    knownDlls? := some (.ofNames ["ghost.dll"] ⟨"/win/sys"⟩)
    windowsFolder := ⟨"/win"⟩
    systemFolder := ⟨"/win/sys"⟩ }
  executable := ⟨"/app/app.exe"⟩
  appFolder := ⟨"/app"⟩
  workingFolder := ⟨"/app"⟩

def ghostDisk : Disk where
  workingFolder := ["app"]
  entries := [(["app"],.folder),(["win"],.folder),(["win","sys"],.folder),(["app","app.exe"],.file .empty),
    (["app","Lib.dll"],.file .empty)]

def ghostLinks : String → List String
  | "/app/app.exe" => ["lib.dll","none.dll","ghost.dll"]
  | _ => []

/-- Only what is there can be loaded. -/
def loadPresent (disk : Disk) (links : String → List String) (path : Path) : StateM Nat (Result Binary) :=
  if (disk.fileSystem.kind? path).run = some .file then (Graph.linked links).load path
  else return .error (.file s!"cannot open {path}")

def ghostRun (root : RootModule) : Graph.Outcome :=
  (((buildWithin ((ofQuery ghost).services ghostDisk.fileSystem.lift (loadPresent ghostDisk ghostLinks)
    fun _ => pure (.ok {})) 9 root 0).run {}).run 0).1.1.outcome

def trailOf : Graph.Outcome → List String
  | .failed failure => failure.trail
  | _ => []

/-- A known module that is missing is answered as if it were there, and stops the build, as does a missing root. -/
theorem ghost_listed :
    (∃ path, (((ofQuery ghost).resolve ghostDisk.fileSystem (.ofPath ⟨"/app/app.exe"⟩ []) "ghost.dll").run {}).run.1 =
        ⟨.knownDll,some path⟩ ∧ (ghostDisk.fileSystem.kind? path).run = none) ∧
      trailOf (ghostRun (.ofPath ⟨"/app/app.exe"⟩ [])) = ["/win/sys/ghost.dll","/app/app.exe"] ∧
      trailOf (ghostRun (.ofPath ⟨"/app/none.exe"⟩ [])) = ["/app/none.exe"] :=
  ⟨⟨⟨"/win/sys/ghost.dll"⟩,rfl,rfl⟩,by decide +kernel,by decide +kernel⟩

theorem ghostDisk_proper : ghostDisk.Proper := by decide +kernel

theorem search_backed_ghost :
    ghostDisk.fileSystem.ByFolder ∧ ghostDisk.fileSystem.ListsFiles ∧
    (∃ answers, List.Forall₂ (fun request => (ofQuery ghost).Backed ghostDisk.fileSystem request.2)
        (["LIB.dll","Ghost.DLL","none.dll"].map fun name => (RootModule.ofPath ⟨"/app/app.exe"⟩ [],name)) answers ∧
      answers.map (fun answer => (answer.strategy,answer.path?.map Path.text)) =
        [(.standardSearch,some "/app/Lib.dll"),(.knownDll,some "/win/sys/ghost.dll"),(.notFound,none)]) ∧
    ∃ failure path, ghostRun (.ofPath ⟨"/app/app.exe"⟩ []) = .failed failure ∧
      failure.trail = ["/win/sys/ghost.dll","/app/app.exe"] ∧
      StoppedAt (ofQuery ghost) ghostDisk.fileSystem (loadPresent ghostDisk ghostLinks) (fun _ => pure (.ok {}))
        (.ofPath ⟨"/app/app.exe"⟩ []) failure path := by
  have lists := ghostDisk_proper.listsFiles
  obtain ⟨answered,stops⟩ := search_backed ghostDisk.byFolder lists (ofQuery ghost)
  refine ⟨ghostDisk.byFolder,lists,⟨_,answered _,by decide +kernel⟩,?_⟩
  have trail : trailOf (ghostRun (.ofPath ⟨"/app/app.exe"⟩ [])) = ["/win/sys/ghost.dll","/app/app.exe"] := by
    decide +kernel
  cases failed : ghostRun (.ofPath ⟨"/app/app.exe"⟩ []) with
  | failed failure =>
    rw [failed] at trail
    obtain ⟨path,stopped⟩ := stops _ _ 9 _ 0 0 failure failed
    exact ⟨failure,path,rfl,trail,stopped⟩
  | built graph =>
    rw [failed] at trail
    cases trail
  | unfinished =>
    rw [failed] at trail
    cases trail

end SearchPath
end LoadMap
