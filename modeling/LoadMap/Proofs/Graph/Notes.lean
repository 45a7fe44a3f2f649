import LoadMap.Proofs.Graph.Content
import LoadMap.Proofs.Graph.Progress
import LoadMap.Proofs.Graph.Twin

/-! Of what stands in a file, the names of its imports alone shape the graph. What else differs shows in the notes
on the modules only, and a module has a note, and no second one, when its manifest cannot be read. -/
namespace LoadMap

variable {σ : Type} {services : Services (StateM σ)} {left right : Path → Result Binary}

/-- The same services with a loader that goes by the path alone. -/
def Services.reading (services : Services (StateM σ)) (file : Path → Result Binary) : Services (StateM σ) :=
  { services with load := fun path => pure (file path) }

/-- Answers of a loader with the same failure, or with files of which both or none are images and that import the
same names. -/
inductive Result.SameImports : Result Binary → Result Binary → Prop
  | failed (failure : Failure) : SameImports (.error failure) (.error failure)
  | loaded {one other : Binary} (recognized : one.recognized = other.recognized)
      (names : one.imports.map (·.dll) = other.imports.map (·.dll)) : SameImports (.ok one) (.ok other)

/-- A file that comes with a manifest which cannot be read. -/
def Malformed (answer : Result Binary) : Prop :=
  ∃ binary manifest failure, answer = .ok binary ∧ binary.manifest? = some manifest ∧
    Manifest.ofBytes manifest = .error failure

namespace Graph

variable {graph : Graph} {rootModule : RootModule} {steps maxDepth : Nat} {id : Nat} {work : List NodeId}
  {loads : List Path} {before : σ}

def Node.silent (node : Node) : Node := { node with diagnostics := [] }

/-- Outcomes that differ in the notes on the modules only. -/
inductive Outcome.SameButNotes : Outcome → Outcome → Prop
  | built {graph : Graph} {nodes : List Node} (same : nodes.map Node.silent = graph.nodes.map Node.silent) :
      SameButNotes (.built graph) (.built { graph with nodes })
  | failed (failure : Failure) : SameButNotes (.failed failure) (.failed failure)
  | unfinished : SameButNotes .unfinished .unfinished

/-- The modules that were loaded are the resolved ones that have a file, and among them those with a malformed
manifest have one note. No other module has any. -/
structure Noted (file : Path → Result Binary) (graph : Graph) (loads : List Path) : Prop where
  loaded : loads.Perm graph.resolvedPaths
  once : ∀ node ∈ graph.nodes, node.diagnostics.length ≤ 1
  noted : ∀ node ∈ graph.nodes, node.diagnostics.length = 1 ↔
    node.resolved = true ∧ ∃ path, node.path? = some path ∧ Malformed (file path)

/-- Builds in one state, that differ in the notes and stop in one state again. -/
def notesAside : Tolerance where
  failures := Eq
  notes _ _ := True
  files _ := True

theorem steady_notesAside : notesAside.Steady where
  managed := by
    rintro one _ rfl
    exact Iff.rfl
  inModule := by
    rintro one _ rfl identity
    rfl
  nothing := trivial
  append _ _ := trivial

/-- From every state, related values and one state. -/
def InStep {α β : Type} (related : α → β → Prop) (one : StateM σ α) (other : StateM σ β) : Prop :=
  ∀ before, ∃ first second after, one.run before = (first,after) ∧ other.run before = (second,after) ∧
    related first second

theorem couples_inStep : Couples (@InStep σ) where
  pure both before := ⟨_,_,before,rfl,rfl,both⟩
  bind here next before := by
    obtain ⟨first,second,middle,one,other,related⟩ := here before
    obtain ⟨last,final,after,more,further,ended⟩ := next _ _ related middle
    refine ⟨last,final,after,?_,?_,ended⟩
    · rw [bind_run,one]
      exact more
    · rw [bind_run,other]
      exact further

theorem twin_of_sameImports {one other : Result Binary} (alike : one.SameImports other) :
    one.Both Eq (Binary.Twin notesAside) other := by
  cases alike with
  | failed failure => exact .error rfl
  | loaded recognized names => exact .ok ⟨recognized,names,trivial⟩

theorem twin_reading (alike : ∀ path, (left path).SameImports (right path)) :
    Services.Twin (@InStep σ) notesAside rootModule (services.reading left) (services.reading right) where
  load path _ before := ⟨_,_,before,rfl,rfl,twin_of_sameImports (alike path)⟩
  readManaged _ _ _ := ⟨_,_,_,rfl,rfl,.self (fun _ => rfl) (fun _ => rfl) _⟩
  resolve _ _ := ⟨_,_,_,rfl,rfl,.self (fun _ => rfl) (fun _ => ⟨rfl,fun _ _ => trivial⟩) _⟩

theorem Outcome.Twin.sameButNotes {one other : Outcome} (twin : one.Twin notesAside rootModule other) :
    one.SameButNotes other := by
  cases twin with
  | @built one other twin =>
    have silent : other.nodes.map Node.silent = one.nodes.map Node.silent := by
      have pairs : List.Forall₂ Eq (one.nodes.map Node.silent) (other.nodes.map Node.silent) := by
        rw [List.forall₂_map_left_iff,List.forall₂_map_right_iff]
        refine twin.nodes.imp fun first second same => ?_
        rw [same.same]
        rfl
      rw [List.forall₂_eq_eq_eq] at pairs
      exact pairs.symm
    rw [twin.same]
    exact .built silent
  | failed related =>
    cases related
    exact .failed _
  | unfinished => exact .unfinished

theorem manifestNotes_length_le (manifest? : Option ByteArray) : (manifestNotes manifest?).length ≤ 1 := by
  unfold manifestNotes
  split
  · exact Nat.le_refl 1
  · exact Nat.zero_le 1

theorem manifestNotes_length_iff (manifest? : Option ByteArray) : (manifestNotes manifest?).length = 1 ↔
    ∃ manifest failure, manifest? = some manifest ∧ Manifest.ofBytes manifest = .error failure := by
  cases manifest? with
  | none => simp [manifestNotes]
  | some manifest =>
    cases answer : Manifest.ofBytes manifest with
    | ok manifest => simp [manifestNotes,answer]
    | error failure => simp [manifestNotes,answer]

section Progress

variable {file : Path → Result Binary} (progress : Progress (services.reading file) rootModule maxDepth graph work loads)
include progress

/-- The notes of a loaded module come from its file. -/
theorem Progress.notes_of_file (inside : id < graph.size) (resolved : (graph.node id).resolved = true) {path : Path}
    (place : (graph.node id).path? = some path) : ∃ binary, file path = .ok binary ∧
      (graph.node id).diagnostics = manifestNotes binary.manifest? := by
  obtain ⟨-,⟨loaded,before,after,loading,-,-,same⟩,-⟩ := progress.settled id inside resolved
  have there : (Node.untouched (graph.node id).toModule (graph.node id).level).path? = some path := place
  obtain ⟨binary,middle,managed,read,-,rfl⟩ := load_content there loading
  exact ⟨binary,congrArg Prod.fst read,same.symm⟩

theorem Progress.no_notes (inside : id < graph.size)
    (apart : ¬ ((graph.node id).resolved = true ∧ ∃ path, (graph.node id).path? = some path)) :
    (graph.node id).diagnostics = [] := by
  by_cases resolved : (graph.node id).resolved = true
  · obtain ⟨-,⟨loaded,before,after,loading,-,-,same⟩,-⟩ := progress.settled id inside resolved
    have nowhere : (Node.untouched (graph.node id).toModule (graph.node id).level).path? = none :=
      Option.eq_none_iff_forall_ne_some.mpr fun path found => apart ⟨resolved,path,found⟩
    obtain rfl := load_nowhere nowhere loading
    exact same.symm
  · rw [progress.untouched id inside (Bool.not_eq_true _ ▸ resolved)]
    rfl

theorem Progress.noted : Noted file graph loads := by
  refine ⟨progress.loads,fun node member => ?_,fun node member => ?_⟩
  all_goals
    obtain ⟨id,inside,rfl⟩ := mem_nodes_iff.mp member
    by_cases loaded : (graph.node id).resolved = true ∧ ∃ path, (graph.node id).path? = some path
  · obtain ⟨resolved,path,place⟩ := loaded
    obtain ⟨binary,-,notes⟩ := progress.notes_of_file inside resolved place
    rw [notes]
    exact manifestNotes_length_le _
  · rw [progress.no_notes inside loaded]
    exact Nat.zero_le 1
  · obtain ⟨resolved,path,place⟩ := loaded
    obtain ⟨binary,read,notes⟩ := progress.notes_of_file inside resolved place
    rw [notes,manifestNotes_length_iff]
    constructor
    · rintro ⟨manifest,failure,found,broken⟩
      exact ⟨resolved,path,place,binary,manifest,failure,read,found,broken⟩
    · rintro ⟨-,path,again,binary,manifest,failure,known,found,broken⟩
      obtain rfl := Option.some.inj (place.symm.trans again)
      obtain rfl := Except.ok.inj (read.symm.trans known)
      exact ⟨manifest,failure,found,broken⟩
  · rw [progress.no_notes inside loaded]
    constructor
    · rintro ⟨⟩
    · rintro ⟨resolved,path,place,-⟩
      exact absurd ⟨resolved,path,place⟩ loaded

end Progress

theorem noted_of_built {file : Path → Result Binary} {run : Run} {after : σ}
    (ran : (buildWithin (services.reading file) steps rootModule maxDepth).run before = (run,after))
    (built : run.outcome = .built graph) : Noted file graph run.loads :=
  ((build_invariant (Progress (services.reading file) rootModule maxDepth) Progress.visit progress_ofRoot
    ran).1 graph built).noted

/-- With loaders that fail alike and name the same imports, whatever else their files hold, builds fail alike or give
graphs that differ in the notes only. They load the same files in the same order, and ask the other services for the
same. A module has one note or none, and it has one when its file was loaded with a manifest that cannot be read. -/
theorem only_names_shape_graph (alike : ∀ path, (left path).SameImports (right path)) (before : σ) :
    ∃ one other after, (buildWithin (services.reading left) steps rootModule maxDepth).run before = (one,after) ∧
      (buildWithin (services.reading right) steps rootModule maxDepth).run before = (other,after) ∧
      one.outcome.SameButNotes other.outcome ∧ one.loads = other.loads ∧
      (∀ graph, one.outcome = .built graph → Noted left graph one.loads) ∧
      ∀ graph, other.outcome = .built graph → Noted right graph other.loads := by
  have twins : Services.Twin (@InStep σ) notesAside rootModule (services.reading left) (services.reading right) :=
    twin_reading alike
  obtain ⟨one,other,after,first,second,twin⟩ :=
    build_twin couples_inStep steady_notesAside twins steps maxDepth trivial before
  exact ⟨one,other,after,first,second,twin.outcome.sameButNotes,twin.loads,
    fun _ built => noted_of_built first built,fun _ built => noted_of_built second built⟩

/-- Services that count the names that they are asked for. -/
def counting : Services (StateM Nat) where
  load path := pure (.ok { path })
  readManaged path := pure (.error (.notManaged path.text))
  resolve _ name := do
    modify (· + 1)
    return .ok { strategy := .standardSearch, path? := some ⟨name⟩ }

/-- A program and a library, with a manifest or none. -/
def withManifest (manifest? : String → Option ByteArray) (path : Path) : Result Binary :=
  if path.text = "gone" then .error (.file "not found")
  else .ok {
    path
    recognized := true
    manifest? := manifest? path.text
    imports := (if path.text = "app" then ["lib","other"] else []).map fun dll =>
      { dll, delay := (manifest? path.text).isSome, functions := [] } }

def emptyManifest (name : String) : Option ByteArray := if name = "other" then none else some .empty

theorem only_names_shape_graph_counting :
    ∃ one other : Run, ∃ graph after,
      (buildWithin (counting.reading (withManifest emptyManifest)) 20 (.ofPath ⟨"app"⟩ []) 0).run 0 = (one,after) ∧
      (buildWithin (counting.reading (withManifest fun _ => none)) 20 (.ofPath ⟨"app"⟩ []) 0).run 0 = (other,after) ∧
      one.outcome = .built graph ∧ graph.nodes.map (·.diagnostics.length) = [1,1,0] ∧
      one.outcome.SameButNotes other.outcome ∧ Noted (withManifest emptyManifest) graph one.loads := by
  have alike (path : Path) :
      (withManifest emptyManifest path).SameImports (withManifest (fun _ => none) path) := by
    unfold withManifest
    split
    · exact .failed _
    · refine .loaded rfl ?_
      rw [List.map_map,List.map_map]
      rfl
  have ran : ∃ graph, ((buildWithin (counting.reading (withManifest emptyManifest)) 20 (.ofPath ⟨"app"⟩ []) 0).run
      0).1.outcome = .built graph ∧ graph.nodes.map (·.diagnostics.length) = [1,1,0] := ⟨_,rfl,by decide +kernel⟩
  obtain ⟨one,other,after,first,second,same,-,noted,-⟩ :=
    @only_names_shape_graph Nat counting _ _ (.ofPath ⟨"app"⟩ []) 20 0 alike 0
  obtain ⟨graph,built,notes⟩ := ran
  rw [first] at built
  exact ⟨one,other,graph,after,first,second,built,notes,same,noted graph built⟩

end Graph
end LoadMap
