import LoadMap.Proofs.Graph.Content
import LoadMap.Proofs.Graph.Coverage

/-! The edges of a finished graph mirror the imports of its files: one for each import, in the same order, to the
only node that has the name and the file that the name resolves to. -/
namespace LoadMap.Graph

variable {services : Services Id} {rootModule : RootModule} {maxDepth steps : Nat} {graph : Graph} {id : Nat}
  {work : List NodeId} {loads : List Path} {name : String}

/-- The modules that the managed part of a file refers to. A file without one refers to none. -/
inductive ManagedNames (services : Services Id) (binary : Binary) (path : Path) : List String → Prop
  | unrecognized (plain : binary.recognized = false) : ManagedNames services binary path []
  | native {image : String} (recognized : binary.recognized = true)
      (answer : (services.readManaged path).run = .error (.notManaged image)) :
      ManagedNames services binary path []
  | managed {references : ManagedReferences} (recognized : binary.recognized = true)
      (answer : (services.readManaged path).run = .ok references) :
      ManagedNames services binary path references.modules

/-- The key of the node that a name leads to. What was not found has no file. -/
def keyFor (name : String) (resolution : Resolution) : Key :=
  { name, place := if resolution.strategy = .notFound then none else placeOf resolution.path? }

/-- The places in a list of names at which a name stands for the first time. -/
def firstPlaces (names : List String) : List Nat :=
  (List.range names.length).filter fun place => ∀ earlier < place, names[earlier]? ≠ names[place]?

/-- A node whose imports are those of its file, and whose edges lead where its imports do. -/
structure Mirrors (services : Services Id) (rootModule : RootModule) (graph : Graph) (node : Node) : Prop where
  imports : ∀ path, node.path? = some path → ∃ binary managed, (services.load path).run = .ok binary ∧
    ManagedNames services binary path managed ∧ node.imports = binary.imports.map (·.dll) ++ managed
  count : node.dependencies.length = node.imports.length
  edges : ∀ (place : Nat) (name : String), node.imports[place]? = some name → ∃ resolution child,
    (services.resolve rootModule name).run = .ok resolution ∧ node.dependencies[place]? = some child ∧
    child < graph.size ∧ (graph.node child).key = keyFor name resolution ∧
    ∀ other < graph.size, (graph.node other).key = keyFor name resolution → other = child
  children : node.children.map some = (firstPlaces node.imports).map fun place => node.dependencies[place]?
  strategies : ∀ child ∈ node.dependencies, child ≠ rootId → ∃ resolution,
    (services.resolve rootModule (graph.node child).name).run = .ok resolution ∧
    (graph.node child).strategy = resolution.strategy

theorem managedNames_of_part {binary : Binary} {path : Path} {managed : Option ManagedReferences}
    (part : (managedPart services binary path).run = .ok managed) :
    ManagedNames services binary path ((managed.map (·.modules)).getD []) := by
  unfold managedPart at part
  split at part
  · rename_i recognized
    rw [Id.run_bind] at part
    cases answer : (services.readManaged path).run with
    | ok references =>
      rw [answer] at part
      cases part
      exact .managed recognized answer
    | error failure =>
      rw [answer] at part
      cases failure
      case notManaged image =>
        cases part
        exact .native recognized answer
      all_goals cases part
  · rename_i plain
    cases part
    exact .unrecognized (Bool.not_eq_true _ ▸ plain)

theorem answerFor_eq_ok_iff {resolution : Resolution} : answerFor services rootModule name = .ok resolution ↔
    ∃ given, (services.resolve rootModule name).run = .ok given ∧
      resolution = if given.strategy = .notFound then .notFound else given := by
  unfold answerFor
  cases (services.resolve rootModule name).run with
  | error failure => simp
  | ok given => simp [eq_comm]

theorem firstPlaces_concat (names : List String) (name : String) :
    firstPlaces (names ++ [name]) = firstPlaces names ++ if name ∈ names then [] else [names.length] := by
  unfold firstPlaces
  rw [List.length_append,List.length_singleton,List.range_succ,List.filter_append]
  congr 1
  · refine List.filter_congr fun place inside => ?_
    have bound := List.mem_range.mp inside
    apply decide_eq_decide.mpr
    refine forall_congr' fun earlier => forall_congr' fun sooner => ?_
    rw [List.getElem?_append_left bound,List.getElem?_append_left (sooner.trans bound)]
  · have first : (∀ earlier < names.length, (names ++ [name])[earlier]? ≠ (names ++ [name])[names.length]?) ↔
        name ∉ names := by
      rw [List.getElem?_concat_length,List.mem_iff_getElem?,not_exists]
      constructor
      · intro none earlier found
        have sooner := (List.getElem?_eq_some_iff.mp found).1
        exact none earlier sooner (by rw [List.getElem?_append_left sooner,found])
      · intro none earlier sooner
        rw [List.getElem?_append_left sooner]
        exact none earlier
    by_cases known : name ∈ names
    · rw [if_pos known,List.filter_cons_of_neg (by simpa using mt first.mp (not_not.mpr known)),List.filter_nil]
    · rw [if_neg known,List.filter_cons_of_pos (by simpa using first.mpr known),List.filter_nil]

/-- The children are the edges for the imports that name something for the first time. -/
theorem firstEdges_eq {names : List String} {edges : List NodeId} (same : names.length = edges.length) :
    (firstEdges [] names edges).map some = (firstPlaces names).map fun place => edges[place]? := by
  induction names using List.reverseRecOn generalizing edges with
  | nil => rfl
  | append_singleton names name ih =>
    obtain rfl | ⟨before,edge,rfl⟩ := List.eq_nil_or_concat' edges
    · simp at same
    have rest : names.length = before.length := by simpa using same
    rw [firstEdges_concat edge rest,firstPlaces_concat,List.map_append,List.map_append,ih rest,List.nil_append]
    congr 1
    · refine List.map_congr_left fun place listed => ?_
      have inside := List.mem_range.mp (List.mem_of_mem_filter listed)
      rw [List.getElem?_append_left (rest ▸ inside)]
    · split
      · rfl
      · rw [List.map_singleton,List.map_singleton,rest,List.getElem?_concat_length]

namespace Progress

variable (progress : Progress (recorded services) rootModule maxDepth graph work loads)
include progress

theorem fileImports (inside : id < graph.size) (resolved : (graph.node id).resolved = true) {path : Path}
    (file : (graph.node id).path? = some path) :
    ∃ binary managed, (services.load path).run = .ok binary ∧ ManagedNames services binary path managed ∧
      (graph.node id).imports = binary.imports.map (·.dll) ++ managed := by
  obtain ⟨-,⟨loaded,before,after,loading,same,-⟩,-⟩ := progress.settled id inside resolved
  have there : (Node.untouched (graph.node id).toModule (graph.node id).level).path? = some path := file
  obtain ⟨binary,middle,managed,read,part,rfl⟩ := load_content there loading
  rw [managedPart_recorded] at part
  refine ⟨binary,_,congrArg Prod.fst read,managedNames_of_part (congrArg Prod.fst part),same.symm⟩

theorem edge_unique {place : Nat} (inside : id < graph.size) (resolved : (graph.node id).resolved = true)
    (named : (graph.node id).imports[place]? = some name) : ∃ resolution child,
      (services.resolve rootModule name).run = .ok resolution ∧
      (graph.node id).dependencies[place]? = some child ∧ child < graph.size ∧
      (graph.node child).key = keyFor name resolution ∧
      ∀ other < graph.size, (graph.node other).key = keyFor name resolution → other = child := by
  have settled := (progress.settled id inside resolved).2
  obtain ⟨within,rfl⟩ := List.getElem?_eq_some_iff.mp named
  have bound : place < (graph.node id).dependencies.length := by rwa [← settled.edges.length_eq]
  obtain ⟨resolution,answer,found⟩ := settled.edges.get within bound
  obtain ⟨given,answered,rfl⟩ := answerFor_eq_ok_iff.mp (answers_iff.mp answer)
  have child := lt_size_of_getElem?_keys found
  rw [getElem?_keys child] at found
  have key : (moduleFor (graph.node id).imports[place]
      (if given.strategy = .notFound then .notFound else given)).key =
      keyFor (graph.node id).imports[place] given := by
    unfold keyFor
    split <;> rfl
  have leads := (Option.some.inj found).trans key
  refine ⟨given,_,answered,List.getElem?_eq_getElem bound,child,leads,fun other known same => ?_⟩
  exact eq_of_key_eq progress.distinct known child (same.trans leads.symm)

theorem edge_strategy {child : Nat} (inside : id < graph.size) (resolved : (graph.node id).resolved = true)
    (edge : child ∈ (graph.node id).dependencies) (apart : child ≠ rootId) : ∃ resolution,
      (services.resolve rootModule (graph.node child).name).run = .ok resolution ∧
      (graph.node child).strategy = resolution.strategy := by
  have within := (progress.settled id inside resolved).2.inside edge
  obtain ⟨parent,origin⟩ := progress.origin child within apart
  obtain ⟨name,-,resolution,answer,same⟩ := origin.found
  obtain ⟨given,answered,rfl⟩ := answerFor_eq_ok_iff.mp (answers_iff.mp answer)
  refine ⟨given,?_,?_⟩
  · rw [same]
    exact answered
  · rw [same]
    change (if given.strategy = .notFound then Resolution.notFound else given).strategy = given.strategy
    split
    · rename_i missing
      exact missing.symm
    · rfl

theorem mirrors (inside : id < graph.size) (resolved : (graph.node id).resolved = true) :
    Mirrors services rootModule graph (graph.node id) := by
  have settled := (progress.settled id inside resolved).2
  refine ⟨fun path file => progress.fileImports inside resolved file,settled.edges.length_eq.symm,
    fun place name named => progress.edge_unique inside resolved named,?_,
    fun child edge apart => progress.edge_strategy inside resolved edge apart⟩
  rw [settled.children]
  exact firstEdges_eq settled.edges.length_eq

end Progress

/-- In a graph that was built, with or without a limit, every node that was resolved mirrors its file. -/
theorem edges_mirror_imports
    (built : (buildWithin services steps rootModule maxDepth).run.outcome = .built graph) :
    ∀ node ∈ graph.nodes, node.resolved = true → Mirrors services rootModule graph node := by
  obtain ⟨progress,-⟩ := progress_of_built built
  intro node member resolved
  obtain ⟨id,inside,rfl⟩ := mem_nodes_iff.mp member
  exact progress.mirrors inside resolved

/-- A managed program that imports itself and names a library twice, one time from its managed part; a file that is
no image; and a name that leads nowhere. -/
def mixed : Services Id where
  load path := .ok {
    path
    recognized := path.text ≠ "notes"
    imports := (if path.text = "app" then ["lib","app","notes","lib"] else []).map fun dll =>
      { dll, delay := false, functions := [] } }
  readManaged path := if path.text = "app" then .ok { modules := ["gone","lib"] }
    else .error (.notManaged path.text)
  resolve _ name := .ok (if name = "gone" then { strategy := .notFound, path? := some ⟨"trace"⟩ }
    else { strategy := .standardSearch, path? := some ⟨name⟩ })

theorem edges_mirror_imports_mixed :
    ∃ graph, (buildWithin mixed 20 (.ofPath ⟨"app"⟩ []) 0).run.outcome = .built graph ∧
      (graph.node 0).imports = ["lib","app","notes","lib","gone","lib"] ∧
      (graph.node 0).dependencies = [1,0,2,1,3,1] ∧ (graph.node 0).children = [1,0,2,3] ∧
      ∀ node ∈ graph.nodes, Mirrors mixed (.ofPath ⟨"app"⟩ []) graph node := by
  have ran : ∃ graph, (buildWithin mixed 20 (.ofPath ⟨"app"⟩ []) 0).run.outcome = .built graph ∧
      (graph.node 0).imports = ["lib","app","notes","lib","gone","lib"] ∧
      (graph.node 0).dependencies = [1,0,2,1,3,1] ∧ (graph.node 0).children = [1,0,2,3] ∧
      ∀ node ∈ graph.nodes, node.resolved = true := ⟨_,rfl,rfl,rfl,rfl,by decide +kernel⟩
  obtain ⟨graph,built,imports,dependencies,children,resolved⟩ := ran
  exact ⟨graph,built,imports,dependencies,children,fun node member =>
    edges_mirror_imports built node member (resolved node member)⟩

end LoadMap.Graph
