import LoadMap.Proofs.BinaryStore
import LoadMap.Proofs.Bounds
import LoadMap.Proofs.Graph.Trail
import LoadMap.Proofs.Graph.Twin
import LoadMap.Proofs.Search.Invisible

/-! A graph that is built over a store of binaries is the same whether or not the store keeps them, as long as the
files that are asked for read alike when they are mapped and the spelling of their paths does not matter. -/
namespace LoadMap

open BinaryStore (Remembers Recalls)

variable {σ : Type} {files : FileSystem Id} {services : Services (StateM σ)} {rootModule : RootModule}
  {path : Path}

theorem Failure.Alike.inModule {one other : Failure} (alike : one.Alike other) (identity : String) :
    (one.inModule identity).Alike (other.inModule identity) := by
  refine ⟨?_,?_,?_⟩
  · cases one <;> cases other <;> rfl
  · rw [trail_inModule,trail_inModule,alike.trail]
  · rw [rootCause_inModule,rootCause_inModule]
    exact alike.cause

theorem Failure.Alike.notManaged {one other : Failure} (alike : one.Alike other) :
    (∃ image, one = .notManaged image) ↔ ∃ image, other = .notManaged image := by
  have kind := alike.kind
  constructor
  · rintro ⟨image,rfl⟩
    cases other <;> first | exact ⟨_,rfl⟩ | cases kind
  · rintro ⟨image,rfl⟩
    cases one <;> first | exact ⟨_,rfl⟩ | cases kind

/-- A path with a file that reads alike; if it cannot be opened then no spelling of it can. -/
structure FileSystem.Reliable (files : FileSystem Id) (path : Path) : Prop where
  opened : ∀ content, (files.content? path).run = some content → Binary.ReadsAlike content
  closed : (files.content? path).run = none →
    ∀ other : Path, other.components = path.components → (files.content? other).run = none

theorem FileSystem.Reliable.indifferent (reliable : files.Reliable path) (asked : List Path) :
    files.Indifferent asked path := by
  refine ⟨reliable.opened,fun closed first _ same binary => ?_⟩
  rw [FileSystem.binary_closed (reliable.closed closed first same)]
  nofun

/-- The services with a store of binaries in the place of their loader. -/
def Services.storing (services : Services (StateM σ)) (files : FileSystem Id) :
    Services (StateT BinaryStore (StateM σ)) where
  load := BinaryStore.load files.lift
  readManaged path := liftM (services.readManaged path)
  resolve root name := liftM (services.resolve root name)

/-- From a store that keeps binaries and one that keeps none, related values and one state. -/
def InStores (files : FileSystem Id) {α β : Type} (related : α → β → Prop) (one : StateT BinaryStore (StateM σ) α)
    (other : StateT BinaryStore (StateM σ) β) : Prop :=
  ∀ asked store before, Remembers files asked store → ∃ first second later kept after,
    (one.run store).run before = ((first,kept),after) ∧
    (other.run { keeps := false }).run before = ((second,{ keeps := false }),after) ∧
    related first second ∧ Remembers files later kept

theorem couples_inStores : Couples (@InStores σ files) where
  pure both asked store before remembers := ⟨_,_,asked,store,before,rfl,rfl,both,remembers⟩
  bind here next asked store before remembers := by
    obtain ⟨first,second,later,kept,middle,one,other,related,still⟩ := here asked store before remembers
    obtain ⟨last,final,latest,stored,after,more,further,ended,fine⟩ := next _ _ related later kept middle still
    refine ⟨last,final,latest,stored,after,?_,?_,ended,fine⟩
    · rw [StateT.run_bind,Graph.bind_run,one]
      exact more
    · rw [StateT.run_bind,Graph.bind_run,other]
      exact further

/-- Failures of one kind are tolerated, and reliable paths are asked for. -/
def reliably (files : FileSystem Id) : Tolerance where
  failures := Failure.Alike
  notes := Eq
  files := files.Reliable

theorem steady_reliably : (reliably files).Steady where
  managed alike := alike.notManaged
  inModule alike := alike.inModule
  nothing := rfl
  append here there := by
    change _ = _ at here there
    change _ = _
    rw [here,there]

/-- What a graph shows of a binary does not hang on the spelling of its path. -/
theorem Binary.Alike.twin {one other : Binary} (alike : one.Alike other) : one.Twin (reliably files) other := by
  rw [alike.rest]
  exact ⟨rfl,rfl,rfl⟩

/-- Services of which a root is told reliable paths only. -/
def Services.Reliable (files : FileSystem Id) (services : Services (StateM σ)) (rootModule : RootModule) : Prop :=
  ∀ name before resolution after, (services.resolve rootModule name).run before = (.ok resolution,after) →
    ∀ path, resolution.path? = some path → files.Reliable path

theorem load_inStores (byFile : files.ByFile) (reliable : files.Reliable path) :
    InStores files (Result.Both Failure.Alike (Binary.Twin (reliably files)))
      (BinaryStore.load (files.lift : FileSystem (StateM σ)) path) (BinaryStore.load files.lift path) := by
  intro asked store before remembers
  obtain ⟨answer,kept,ran,recalls,still⟩ := BinaryStore.load_remembers (n := StateM σ) remembers path
  have alike := (recalls.alike_iff byFile).mpr (reliable.indifferent asked)
  refine ⟨answer,files.mappedBinary path,asked ++ [path],kept,before,?_,?_,alike.imp fun _ _ => (·.twin),still⟩
  · rw [ran]
    rfl
  · rw [BinaryStore.load_mapped]
    rfl

/-- Work that leaves the store alone. -/
theorem lift_inStores {α : Type} {related : α → α → Prop} (work : StateM σ α)
    (same : ∀ before value after, work.run before = (value,after) → related value value) :
    InStores files related (liftM work : StateT BinaryStore (StateM σ) α) (liftM work) :=
  fun asked store before remembers =>
    ⟨_,_,asked,store,_,rfl,rfl,same before _ _ rfl,remembers⟩

theorem twin_storing (byFile : files.ByFile) (reliable : services.Reliable files rootModule) :
    Services.Twin (@InStores σ files) (reliably files) rootModule (services.storing files)
      (services.storing files) where
  load path asked := load_inStores byFile asked
  readManaged path _ := lift_inStores _ fun _ _ _ _ => .self .refl (fun _ => rfl) _
  resolve name := by
    refine lift_inStores _ fun before answer after resolved => ?_
    cases answer with
    | error failure => exact .error (.refl failure)
    | ok resolution => exact .ok ⟨rfl,reliable name before resolution after resolved⟩

namespace Graph

/-- The same graph, or failures of one kind with one trail. -/
inductive Outcome.Alike : Outcome → Outcome → Prop
  | built (graph : Graph) : Alike (.built graph) (.built graph)
  | failed {one other : Failure} (alike : one.Alike other) : Alike (.failed one) (.failed other)
  | unfinished : Alike .unfinished .unfinished

theorem Outcome.Twin.alike {one other : Outcome} (twin : one.Twin (reliably files) rootModule other) :
    one.Alike other := by
  cases twin with
  | @built one other twin =>
    have nodes : one.nodes = other.nodes := by
      rw [← List.forall₂_eq_eq_eq]
      refine twin.nodes.imp fun first second same => ?_
      have notes : first.diagnostics = second.diagnostics := same.notes
      rw [same.same,← notes]
    rw [twin.same,← nodes]
    exact .built one
  | failed related => exact .failed related
  | unfinished => exact .unfinished

/-- The build over a store. -/
def storing (files : FileSystem Id) (services : Services (StateM σ)) (steps : Nat) (rootModule : RootModule)
    (maxDepth : Nat) (store : BinaryStore) : StateM σ (Run × BinaryStore) :=
  (buildWithin (services.storing files) steps rootModule maxDepth).run store

theorem storing_alike (byFile : files.ByFile) (reliable : services.Reliable files rootModule)
    (root : files.Reliable rootModule.path) (steps maxDepth : Nat) (before : σ) :
    ∃ one other kept after,
      (storing files services steps rootModule maxDepth { keeps := true }).run before = ((one,kept),after) ∧
      (storing files services steps rootModule maxDepth { keeps := false }).run before =
        ((other,{ keeps := false }),after) ∧
      one.outcome.Alike other.outcome ∧ one.loads = other.loads := by
  obtain ⟨one,other,-,kept,after,keeping,mapping,twin,-⟩ :=
    build_twin couples_inStores steady_reliably (twin_storing byFile reliable) steps maxDepth root []
      { keeps := true } before BinaryStore.remembers_nothing
  exact ⟨one,other,kept,after,keeping,mapping,twin.outcome.alike,twin.loads⟩

/-- The build in a session that searches along a path. -/
def inSession (files : FileSystem Id) (search : SearchPath) (steps : Nat) (rootModule : RootModule) (maxDepth : Nat)
    (binaries : BinaryStore) : StateM σ (Run × Session) :=
  (buildWithin (Session.services (m := StateM σ) files.lift search) steps rootModule maxDepth).run { binaries }

/-- The services of a session, with a loader that is not asked. -/
def searching (files : FileSystem Id) (search : SearchPath) : Services (StateM σ) :=
  search.servicesAfresh files (fun path => pure (files.binary path)) (ManagedReferences.ofFile files.lift)

theorem inSession_eq (byFolder : files.ByFolder) (search : SearchPath) (steps maxDepth : Nat) (binaries : BinaryStore)
    (before : σ) : ((inSession files search steps rootModule maxDepth binaries).run before).1.1 =
      ((storing files (searching files search) steps rootModule maxDepth binaries).run before).1.1 :=
  congrArg (fun action : StateM σ (Run × BinaryStore) => (action.run before).1.1)
    (Session.build_apart (n := StateM σ) byFolder search steps rootModule maxDepth binaries)

/-- In a session the option to keep binaries changes no graph, if the files that the search finds are reliable. -/
theorem inSession_alike (byFile : files.ByFile) (byFolder : files.ByFolder) {search : SearchPath}
    (root : files.Reliable rootModule.path)
    (found : ∀ name path, (search.resolution files rootModule name).path? = some path → files.Reliable path)
    (steps maxDepth : Nat) (before : σ) :
    ((inSession files search steps rootModule maxDepth { keeps := true }).run before).1.1.outcome.Alike
      ((inSession files search steps rootModule maxDepth { keeps := false }).run before).1.1.outcome := by
  have reliable : (searching (σ := σ) files search).Reliable files rootModule := by
    rintro name before resolution after ⟨⟩
    exact found name
  obtain ⟨one,other,kept,after,keeping,mapping,alike,-⟩ := storing_alike byFile reliable root steps maxDepth before
  rw [inSession_eq byFolder,inSession_eq byFolder,keeping,mapping]
  exact alike

end Graph

/-- A path that ends in a name is reliable if there is no file, or one that is neither empty nor ragged. -/
theorem FileSystem.ByFile.reliable (byFile : files.ByFile) (ends : path.EndsInName)
    (whole : ∀ content, (files.content? path).run = some content → content.size ≠ 0 ∧ ¬ Image.Ragged content) :
    files.Reliable path where
  opened content found := Binary.readsAlike_of_whole (whole content found).1 (whole content found).2
  closed nothing _ spelled := byFile.named ends spelled nothing

namespace BinaryStore

open LoadMap.Graph (storing inSession)

/-- Whether binaries are kept makes a difference to two requests only: for a file that does not read alike when it is
mapped, and for a path that cannot be opened when another spelling of it has been loaded. It makes none to paths that
end in a name and lead to no file or to one that is neither empty nor ragged, and none to a graph of such files, for
any services or in a session that searches along a path. -/
theorem keeping_alike (byFile : files.ByFile) :
    (∀ requests : List Path,
      List.Forall₂ Result.Alike (answers files requests { keeps := true }) (answers files requests { keeps := false }) ↔
        ∀ before path after, requests = before ++ path :: after → files.Indifferent before path) ∧
    (∀ path : Path, path.EndsInName → (∀ content, (files.content? path).run = some content →
      content.size ≠ 0 ∧ ¬ Image.Ragged content) → files.Reliable path) ∧
    (∀ requests : List Path, (∀ path ∈ requests, files.Reliable path) → List.Forall₂ Result.Alike
      (answers files requests { keeps := true }) (answers files requests { keeps := false })) ∧
    (∀ {σ : Type} (services : Services (StateM σ)) (rootModule : RootModule) (steps maxDepth : Nat) (before : σ),
      services.Reliable files rootModule → files.Reliable rootModule.path →
      ∃ one other kept after,
        (storing files services steps rootModule maxDepth { keeps := true }).run before = ((one,kept),after) ∧
        (storing files services steps rootModule maxDepth { keeps := false }).run before =
          ((other,{ keeps := false }),after) ∧
        one.outcome.Alike other.outcome ∧ one.loads = other.loads) ∧
    ∀ {σ : Type} (search : SearchPath) (rootModule : RootModule) (steps maxDepth : Nat) (before : σ),
      files.ByFolder → files.Reliable rootModule.path →
      (∀ name path, (search.resolution files rootModule name).path? = some path → files.Reliable path) →
      ((inSession files search steps rootModule maxDepth { keeps := true }).run before).1.1.outcome.Alike
        ((inSession files search steps rootModule maxDepth { keeps := false }).run before).1.1.outcome := by
  have answered (requests : List Path) := answers_alike_iff byFile remembers_nothing requests
  refine ⟨answered,fun _ ends whole => byFile.reliable ends whole,fun requests reliable => ?_,?_,?_⟩
  · refine (answered requests).mpr fun before path after split => ?_
    exact (reliable path (split ▸ List.mem_append_cons_self)).indifferent before
  · intro σ services rootModule steps maxDepth before reliable root
    exact Graph.storing_alike byFile reliable root steps maxDepth before
  · intro σ search rootModule steps maxDepth before byFolder root found
    exact Graph.inSession_alike byFile byFolder root found steps maxDepth before

/-- A program that imports a library, which is no image. -/
def shelf : Disk where
  workingFolder := ["app"]
  entries := [(["app"],.folder),(["app","app.exe"],.file delayImage),(["app","a.dll"],.file "text".toUTF8)]

/-- Services that find the library, and count what they are asked for. -/
def besides : Services (StateM Nat) where
  load path := pure (.ok { path })
  readManaged path := pure (.error (.notManaged path.text))
  resolve _ name := do
    modify (· + 1)
    return .ok (if name = "a.dll" then .found .standardSearch ⟨"/app/a.dll"⟩ else .notFound)

def shelfRequests : List Path := [⟨"/app//a.dll"⟩,⟨"gone.dll"⟩,⟨"/app/a.dll"⟩,⟨"a.dll"⟩]

def recognizes (answer : Result Binary) : Option Bool := answer.toOption.map (·.recognized)

def shownNames : Graph.Outcome → List String
  | .built graph => graph.nodes.map (·.name)
  | _ => []

theorem shownNames_alike {one other : Graph.Outcome} (alike : one.Alike other) : shownNames one = shownNames other := by
  cases alike <;> rfl

theorem shelf_whole {path : Path} {content : ByteArray} (opened : shelf.content? path = some content) :
    content.size ≠ 0 ∧ ¬ Image.Ragged content := by
  have read : (Binary.ofBytes ⟨""⟩ delayImage).toOption.isSome := by decide +kernel
  have bare : (Image.SectionView.parse delayImage).toOption.all (·.sections.isEmpty) := by decide +kernel
  rw [Disk.content?,Disk.find?] at opened
  split at opened
  · rename_i found
    cases opened
    obtain ⟨location,-,there⟩ := Option.bind_eq_some_iff.mp found
    rw [Disk.entry?] at there
    split at there
    · cases there
    · obtain ⟨before,after,listed,-⟩ := List.lookup_eq_some_iff.mp there
      have member : (location,.file content) ∈ shelf.entries := listed ▸ List.mem_append_cons_self
      simp only [shelf,List.mem_cons,Prod.mk.injEq,reduceCtorEq,and_false,false_or,List.not_mem_nil,or_false,
        Disk.Entry.file.injEq] at member
      rcases member with ⟨-,rfl⟩ | ⟨-,rfl⟩
      · refine ⟨by decide +kernel,fun ragged => ?_⟩
        cases answer : Binary.ofBytes ⟨""⟩ delayImage with
        | error failure =>
          rw [answer] at read
          cases read
        | ok binary =>
          refine ragged.cut (fun view parsed part inside => ?_) binary answer
          rw [parsed] at bare
          rw [List.isEmpty_iff.mp bare] at inside
          cases inside
      · exact ⟨by decide +kernel,fun ragged => absurd ragged.begins (by decide +kernel)⟩
  · cases opened

theorem keeping_alike_shelf :
    shelf.fileSystem.ByFile ∧
    List.Forall₂ Result.Alike (answers shelf.fileSystem shelfRequests { keeps := true })
      (answers shelf.fileSystem shelfRequests { keeps := false }) ∧
    (answers shelf.fileSystem shelfRequests { keeps := true }).map recognizes =
      [some false,none,some false,some false] ∧
    ∃ run after, (storing shelf.fileSystem besides 20 (.ofPath ⟨"app.exe"⟩ []) 0 { keeps := false }).run 0 =
      ((run,{ keeps := false }),after) ∧ shownNames run.outcome = ["app.exe","a.dll"] := by
  obtain ⟨-,fine,answered,built,-⟩ := keeping_alike shelf.byFile
  have reliable (path : Path) (ends : path.EndsInName) : shelf.fileSystem.Reliable path :=
    fine path ends fun _ => shelf_whole
  have ends : ∀ path ∈ shelfRequests, path.EndsInName := by decide +kernel
  have resolved : besides.Reliable shelf.fileSystem (.ofPath ⟨"app.exe"⟩ []) := by
    intro name before resolution after found path there
    cases found
    split at there
    · cases there
      exact reliable _ (by decide +kernel)
    · cases there
  refine ⟨shelf.byFile,answered _ fun path asked => reliable path (ends path asked),by decide +kernel,?_⟩
  obtain ⟨one,other,kept,after,keeping,mapping,alike,-⟩ :=
    built besides (.ofPath ⟨"app.exe"⟩ []) 20 0 0 resolved (reliable _ (by decide +kernel))
  have ran : shownNames ((storing shelf.fileSystem besides 20 (.ofPath ⟨"app.exe"⟩ []) 0 { keeps := true }).run
    0).1.1.outcome = ["app.exe","a.dll"] := by decide +kernel
  rw [keeping] at ran
  exact ⟨other,after,mapping,(shownNames_alike alike).symm.trans ran⟩

/-- An empty file is no image when it is read, and cannot be mapped. -/
def hollow : Disk where
  workingFolder := []
  entries := [(["empty.dll"],.file .empty)]

theorem empty_unmapped :
    (answers hollow.fileSystem [⟨"empty.dll"⟩] { keeps := true }).map recognizes = [some false] ∧
    (answers hollow.fileSystem [⟨"empty.dll"⟩] { keeps := false }).map recognizes = [none] ∧
    ¬ List.Forall₂ Result.Alike (answers hollow.fileSystem [⟨"empty.dll"⟩] { keeps := true })
      (answers hollow.fileSystem [⟨"empty.dll"⟩] { keeps := false }) := by
  refine ⟨by decide +kernel,by decide +kernel,fun alike => ?_⟩
  have indifferent := (answers_alike_iff hollow.byFile remembers_nothing _).mp alike [] _ [] rfl
  exact (indifferent.opened .empty rfl).1 rfl

end BinaryStore
end LoadMap
