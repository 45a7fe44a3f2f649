import LoadMap.Proofs.Graph.Progress
import LoadMap.Proofs.Graph.Services
import LoadMap.Proofs.Graph.Walk

/-! The table and its index through everything that can be done with a graph once it is built: they
agree with each other, edges lead into the table, and what the table holds stays as it is. -/
namespace LoadMap.Graph

variable {σ : Type} {services : Services (StateM σ)} {rootModule : RootModule} {maxDepth : Nat}
  {graph : Graph}

/-- What can be done with a graph, apart from asking it questions. -/
inductive Operation
  | getOrCreate (item : Module) (level : Nat)
  | mark (id : NodeId)
  | forgetVisited
  | print
  | exportTree

def perform (graph : Graph) : Operation → Graph
  | .getOrCreate item level => (graph.getOrCreate item level).1
  | .mark id => (graph.mark id).1
  | .forgetVisited => graph.forgetVisited
  | .print => graph.print.1
  | .exportTree => graph.exportTree.1

/-- The graphs that one can come to: a new one, a built one, and what operations make of them. -/
inductive Reached (services : Services (StateM σ)) (rootModule : RootModule) (maxDepth : Nat) :
    Graph → Prop
  | created : Reached services rootModule maxDepth (ofRoot rootModule maxDepth)
  | built {graph : Graph} {steps : Nat} {before after : σ} {run : Run}
      (ran : (buildWithin services steps rootModule maxDepth).run before = (run,after))
      (built : run.outcome = .built graph) : Reached services rootModule maxDepth graph
  | performed {graph : Graph} (reached : Reached services rootModule maxDepth graph)
      (operation : Operation) : Reached services rootModule maxDepth (graph.perform operation)

/-- The invariant: the index knows the keys of the table, and edges lead into it. -/
structure Stored (rootModule : RootModule) (graph : Graph) : Prop where
  indexed : graph.Indexed
  root : (graph.node rootId).toModule = rootModule.asModule
  children : ValidEdges Node.children graph
  dependencies : ValidEdges Node.dependencies graph

/-- An operation marks files at most, or it puts a new node without edges behind the table. -/
theorem perform_cases (inside : rootId < graph.size) (operation : Operation) :
    (∃ visited, graph.perform operation = graph.withVisited visited) ∨
    ∃ item level, graph.lookup? item.name item.path? = none ∧
      graph.perform operation = graph.put rootId (graph.node rootId) [.untouched item level] := by
  cases operation with
  | getOrCreate item level =>
    cases found : graph.lookup? item.name item.path? with
    | some child =>
      exact .inl ⟨graph.visited,congrArg Prod.fst (getOrCreate_known item level found)⟩
    | none =>
      exact .inr ⟨item,level,found,congrArg Prod.fst (getOrCreate_new item level found inside)⟩
  | mark id =>
    rcases graph.mark_cases id with ⟨-,same⟩ | ⟨-,same⟩
    · exact .inl ⟨graph.visited,congrArg Prod.fst same⟩
    · exact .inl ⟨_,congrArg Prod.fst same⟩
  | forgetVisited => exact .inl ⟨[],rfl⟩
  | print =>
    obtain ⟨_,last,-,same⟩ := print_unfolds graph
    exact .inl ⟨last,congrArg Prod.fst same⟩
  | exportTree =>
    obtain ⟨_,last,-,-,same⟩ := exportTree_unfolds graph
    exact .inl ⟨last,congrArg Prod.fst same⟩

theorem ValidEdges.put_untouched {edges : Node → List NodeId} {item : Module} {level : Nat}
    (none : edges (.untouched item level) = []) (valid : ValidEdges edges graph) :
    ValidEdges edges (graph.put rootId (graph.node rootId) [.untouched item level]) := by
  have size : (graph.put rootId (graph.node rootId) [.untouched item level]).size = graph.size + 1 :=
    size_put
  refine ⟨by rw [size]; exact Nat.lt_succ_of_lt valid.root,fun id inside child edge => ?_⟩
  rw [size] at inside ⊢
  by_cases known : id < graph.size
  · rw [node_put_same known] at edge
    exact Nat.lt_succ_of_lt (valid.edge id known child edge)
  · obtain rfl : id = graph.size + 0 := by omega
    rw [node_put_new Nat.one_pos,List.getElem_cons_zero,none] at edge
    cases edge

theorem Stored.perform (stored : Stored rootModule graph) (operation : Operation) :
    Stored rootModule (graph.perform operation) := by
  have inside := stored.children.root
  rcases perform_cases inside operation with ⟨visited,same⟩ | ⟨item,level,absent,same⟩
  · rw [same]
    exact ⟨stored.indexed,stored.root,⟨inside,stored.children.edge⟩,⟨inside,stored.dependencies.edge⟩⟩
  · rw [same]
    have new : item.key ∉ graph.keys := (lookup?_eq_none_iff stored.indexed).mp absent
    refine ⟨stored.indexed.put rfl ?_,?_,stored.children.put_untouched rfl,
      stored.dependencies.put_untouched rfl⟩
    · rw [keys_put rfl,List.map_singleton,← List.concat_eq_append]
      exact stored.indexed.distinct.concat new
    · rw [node_put_same inside]
      exact stored.root

theorem perform_extends (inside : rootId < graph.size) (operation : Operation) :
    Extends graph (graph.perform operation) := by
  rcases perform_cases inside operation with ⟨visited,same⟩ | ⟨item,level,-,same⟩
  · rw [same]
    exact .of_same (Nat.le_refl _) fun id known => rfl
  · rw [same]
    exact .of_same (by rw [size_put]; exact Nat.le_add_right _ _) fun id known => node_put_same known

theorem Progress.stored {work : List NodeId} {loads : List Path}
    (progress : Progress services rootModule maxDepth graph work loads) : Stored rootModule graph := by
  have edges : ∀ id < graph.size, ∀ child ∈ (graph.node id).dependencies, child < graph.size := by
    intro id inside child edge
    by_cases done : (graph.node id).resolved = true
    · exact (progress.settled id inside done).2.inside edge
    · rw [progress.untouched id inside (Bool.not_eq_true _ ▸ done)] at edge
      cases edge
  refine ⟨progress.indexed,progress.root.1,⟨progress.nonempty,?_⟩,⟨progress.nonempty,edges⟩⟩
  intro id inside child edge
  by_cases done : (graph.node id).resolved = true
  · rw [(progress.settled id inside done).2.children] at edge
    exact edges id inside child (firstEdges_sublist.subset edge)
  · rw [progress.untouched id inside (Bool.not_eq_true _ ▸ done)] at edge
    cases edge

theorem Progress.extends_root {work : List NodeId} {loads : List Path}
    (progress : Progress services rootModule maxDepth graph work loads) :
    Extends (ofRoot rootModule maxDepth) graph := by
  refine ⟨progress.nonempty,fun id inside => ?_,fun id inside resolved => ?_⟩
  · obtain rfl : id = rootId := Nat.lt_one_iff.mp inside
    exact progress.root
  · obtain rfl : id = rootId := Nat.lt_one_iff.mp inside
    cases resolved

theorem Reached.stored (reached : Reached services rootModule maxDepth graph) :
    Stored rootModule graph ∧ Extends (ofRoot rootModule maxDepth) graph := by
  induction reached with
  | created =>
    have start : Progress services rootModule maxDepth _ _ _ := progress_ofRoot
    exact ⟨start.stored,.refl _⟩
  | built ran built =>
    have done := (build_invariant _ Progress.visit progress_ofRoot ran).1 _ built
    exact ⟨done.stored,done.extends_root⟩
  | performed _ operation ih =>
    obtain ⟨stored,grown⟩ := ih
    exact ⟨stored.perform operation,grown.trans (perform_extends stored.children.root operation)⟩

/-- The table and the index say the same, and all numbers in the graph stand for nodes. -/
structure Consistent (rootModule : RootModule) (graph : Graph) : Prop where
  /-- What is looked up is found where it stands, whatever else was added since. -/
  found : ∀ id < graph.size, graph.lookup? (graph.node id).name (graph.node id).path? = some id
  known : ∀ name path? id, graph.lookup? name path? = some id →
    id < graph.size ∧ (graph.node id).key = { name, place := placeOf path? }
  unique : ∀ left < graph.size, ∀ right < graph.size,
    (graph.node left).key = (graph.node right).key → left = right
  root : rootId < graph.size ∧ (graph.node rootId).name = rootModule.name ∧
    (graph.node rootId).path? = some rootModule.path ∧ (graph.node rootId).strategy = .root
  children : ∀ id < graph.size, ∀ child ∈ (graph.node id).children, child < graph.size
  dependencies : ∀ id < graph.size, ∀ child ∈ (graph.node id).dependencies, child < graph.size

theorem Stored.consistent (stored : Stored rootModule graph) : Consistent rootModule graph where
  found _ inside := (lookup?_eq_some_iff stored.indexed).mpr (getElem?_keys inside)
  known name path? id answered := by
    have found := (lookup?_eq_some_iff stored.indexed).mp answered
    have inside := lt_size_of_getElem?_keys found
    rw [getElem?_keys inside] at found
    exact ⟨inside,Option.some.inj found⟩
  unique _ leftIn _ rightIn := eq_of_key_eq stored.indexed.distinct leftIn rightIn
  root := by
    refine ⟨stored.children.root,?_⟩
    rw [stored.root]
    exact ⟨rfl,rfl,rfl⟩
  children := stored.children.edge
  dependencies := stored.dependencies.edge

/-- However a graph was come by, its table and its index agree; no operation takes a node away or
changes its name, file, strategy or level, and none has done so since the root was there alone. -/
theorem store_consistent (reached : Reached services rootModule maxDepth graph) :
    Consistent rootModule graph ∧ Extends (ofRoot rootModule maxDepth) graph ∧
      ∀ operation, Extends graph (graph.perform operation) := by
  obtain ⟨stored,grown⟩ := reached.stored
  exact ⟨stored.consistent,grown,perform_extends stored.children.root⟩

theorem store_consistent_again :
    ∃ graph, Reached (linked (m := StateM Nat) fun _ => ["lib"]) (.ofPath ⟨"app"⟩ []) 0 graph ∧
      graph.size = 3 ∧ Consistent (.ofPath ⟨"app"⟩ []) graph := by
  let again : Operation := .getOrCreate { name := "lib", path? := none, strategy := .knownDll } 7
  have ran : (buildWithin (linked (m := StateM Nat) fun _ => ["lib"]) 9 (.ofPath ⟨"app"⟩ []) 0).run 0 =
    _ := rfl
  have reached := ((Reached.built ran rfl).performed again).performed (.mark 1)
  exact ⟨_,reached,by decide +kernel,(store_consistent reached).1⟩

end LoadMap.Graph
