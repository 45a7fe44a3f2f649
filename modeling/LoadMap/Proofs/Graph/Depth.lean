import LoadMap.Proofs.Graph.Refinement
import LoadMap.Proofs.Graph.Services

/-! A build with a limit. The procedure goes one level down with every call, so it cannot go deeper
than the limit, and the nodes at the limit are the ones that were never loaded. -/
namespace LoadMap.Graph

variable {σ : Type} {services : Services (StateM σ)} {rootModule : RootModule} {maxDepth : Nat}
  {graph : Graph} {id : Nat} {work : List NodeId} {loads : List Path} {before after : σ}

inductive ImportPath (graph : Graph) : (length : Nat) → NodeId → Prop
  | root : ImportPath graph 0 rootId
  | step {length : Nat} {parent child : NodeId} (path : ImportPath graph length parent)
      (resolved : (graph.node parent).resolved = true)
      (edge : child ∈ (graph.node parent).dependencies)
      (named : (graph.node child).name ∈ (graph.node parent).imports) :
      ImportPath graph (length + 1) child

theorem Progress.importPath (progress : Progress services rootModule maxDepth graph work loads)
    (inside : id < graph.size) : ImportPath graph (graph.node id).level id := by
  refine progress.from_root (motive := fun id => ImportPath graph (graph.node id).level id) ?_
    (fun _ origin path => ?_) inside
  · rw [progress.root.2]
    exact .root
  · obtain ⟨name,named,resolution,-,same⟩ := origin.found
    rw [origin.level]
    refine .step path origin.resolved origin.edge ?_
    rw [same]
    exact named

/-- What the levels of a finished graph tell. -/
structure Levelled (graph : Graph) (maxDepth : Nat) (loads : List Path) : Prop where
  bounded : ∀ id < graph.size, (graph.node id).level ≤ maxDepth
  resolved : ∀ id < graph.size, (graph.node id).resolved = true ↔ (graph.node id).level < maxDepth
  untouched : ∀ id < graph.size, (graph.node id).level = maxDepth →
    graph.node id = .untouched (graph.node id).toModule maxDepth
  loads : loads.Perm ((graph.nodes.filter (·.level < maxDepth)).filterMap (·.path?))
  parent : ∀ id < graph.size, id ≠ rootId → ∃ parent < graph.size,
    (graph.node parent).resolved = true ∧ (graph.node id).level = (graph.node parent).level + 1 ∧
    id ∈ (graph.node parent).dependencies
  path : ∀ id < graph.size, ImportPath graph (graph.node id).level id

theorem Progress.levelled (positive : 0 < maxDepth)
    (progress : Progress services rootModule maxDepth graph [] loads) :
    Levelled graph maxDepth loads := by
  have resolved : ∀ id < graph.size,
      (graph.node id).resolved = true ↔ (graph.node id).level < maxDepth := by
    intro id inside
    constructor
    · intro done
      rcases (progress.settled id inside done).1 with unlimited | below
      · omega
      · exact below
    · intro below
      by_contra left
      rw [Bool.not_eq_true] at left
      exact List.not_mem_nil ((progress.mem_work id).mpr ⟨inside,left,.inr below⟩)
  refine ⟨progress.limit positive,resolved,?_,?_,?_,fun id inside => progress.importPath inside⟩
  · intro id inside level
    have left : (graph.node id).resolved = false := by
      rw [← Bool.not_eq_true,resolved id inside,level]
      exact Nat.lt_irrefl maxDepth
    have untouched := progress.untouched id inside left
    rwa [level] at untouched
  · have same : graph.nodes.filter (·.resolved) = graph.nodes.filter (·.level < maxDepth) := by
      refine List.filter_congr fun node member => ?_
      obtain ⟨id,inside,rfl⟩ := mem_nodes_iff.mp member
      rw [Bool.eq_iff_iff,resolved id inside,decide_eq_true_iff]
    have loaded := progress.loads
    rwa [resolvedPaths,resolvedNodes,same] at loaded
  · intro id inside apart
    obtain ⟨parent,origin⟩ := progress.origin id inside apart
    exact ⟨parent,origin.inside,origin.resolved,origin.level,origin.edge⟩

theorem inOrder_ended_of_limit {depth : Nat} {ids : List NodeId} (positive : 0 < maxDepth)
    (progress : Progress services rootModule maxDepth graph (ids ++ work) loads)
    (deep : ∀ id ∈ ids, maxDepth ≤ (graph.node id).level + depth) :
    ((inOrder (explore services depth) ids graph loads).run before).1.outcome ≠ .unfinished := by
  induction depth generalizing ids work graph loads before with
  | zero =>
    match ids with
    | [] => exact Outcome.built_ended graph
    | child :: ids =>
      have limit := deep child List.mem_cons_self
      rcases progress.mem_head.2.2 with unlimited | below <;> omega
  | succ depth ih =>
    induction ids generalizing graph loads before with
    | nil => exact Outcome.built_ended graph
    | cons child ids next =>
      refine inOrder_ended_of_visit (fun visited => ?_) fun visited ran outcome => ?_
      · refine ih (progress.visit visited) fun new member => ?_
        have limit := deep child List.mem_cons_self
        rw [(progress.added_new visited member).2.2.1]
        omega
      · obtain ⟨grown,others⟩ := (progress.visit visited).inOrder ran outcome
        refine next others fun id member => ?_
        have known := ((progress.mem_work id).mp
          (List.mem_cons_of_mem _ (List.mem_append_left _ member))).1
        rw [(((progress.extends visited).trans grown).outline id known).2]
        exact deep id (List.mem_cons_of_mem _ member)

theorem buildRecursively_ended_of_limit (positive : 0 < maxDepth) :
    ((buildRecursively services maxDepth rootModule maxDepth).run before).1.outcome ≠ .unfinished := by
  have start : Progress services rootModule maxDepth (ofRoot rootModule maxDepth) ([rootId] ++ []) [] :=
    progress_ofRoot
  have ended : ((inOrder (explore services maxDepth) [rootId] (ofRoot rootModule maxDepth) []).run
      before).1.outcome ≠ .unfinished :=
    inOrder_ended_of_limit positive start fun id _ => Nat.le_add_left maxDepth _
  intro endless
  apply ended
  rw [buildRecursively_run] at endless
  simp only [inOrder,bind_run,endless]
  exact endless

/-- A build with a limit ends, whatever the services answer; the files that its run names are the
ones that the services were asked to load, and what it builds is levelled. -/
theorem limited_build (positive : 0 < maxDepth) (before : σ) :
    ∃ run after, Settles (fun steps => buildWithin services steps rootModule maxDepth) before run after ∧
      (∃ enough, ∀ steps ≥ enough, ∀ log,
        ((buildWithin (recorded services) steps rootModule maxDepth).run log).run before =
          ((run,log ++ run.loads),after)) ∧
      ∀ graph, run.outcome = .built graph → Levelled graph maxDepth run.loads := by
  have ended : ((buildRecursively services maxDepth rootModule maxDepth).run before).1.outcome ≠
      .unfinished := buildRecursively_ended_of_limit positive
  cases called : (buildRecursively services maxDepth rootModule maxDepth).run before with
  | mk run after =>
    rw [called] at ended
    obtain ⟨steps,ran⟩ := buildWithin_of_recursively called ended
    have settles := settles_of_ended ran ended
    refine ⟨run,after,settles,?_,fun graph built => ?_⟩
    · obtain ⟨-,enough,settled⟩ := settles
      refine ⟨enough,fun more less log => ?_⟩
      rw [build_recorded,StateT.run_map,settled more less]
      rfl
    · have state := (build_invariant _ Progress.visit progress_ofRoot ran).1 graph built
      exact state.levelled positive

def endless (name : String) : List String := [name ++ "x"]

theorem limited_build_endless :
    ∃ run after, (buildWithin (linked (m := StateM Nat) endless) 9 (.ofPath ⟨"app"⟩ []) 2).run 0 =
        (run,after) ∧
      ∃ graph, run.outcome = .built graph ∧ graph.size = 3 ∧ Levelled graph 2 run.loads := by
  have positive : 0 < 2 := by decide
  have limited : ∃ run after, Settles (fun steps => buildWithin (linked (m := StateM Nat) endless)
      steps (.ofPath ⟨"app"⟩ []) 2) 0 run after ∧ _ := limited_build positive 0
  obtain ⟨run,after,⟨ended,enough,settled⟩,-,levelled⟩ := limited
  have nine : ((buildWithin (linked (m := StateM Nat) endless) 9 (.ofPath ⟨"app"⟩ []) 2).run
      0).1.outcome ≠ .unfinished := Outcome.built_ended _
  have same := (buildWithin_more (Nat.le_max_right enough 9) nine).symm.trans
    (settled _ (Nat.le_max_left enough 9))
  refine ⟨run,after,same,?_⟩
  cases same
  exact ⟨_,rfl,rfl,levelled _ rfl⟩

end LoadMap.Graph
