import LoadMap.Proofs.Graph.Reachability
import Mathlib.Data.Set.Card

/-! A build without a limit. When the modules that can be reached are finitely many it ends, because
every visit resolves one more of them, and what it builds is exactly these modules. -/
namespace LoadMap.Graph

variable {services : Services Id} {rootModule : RootModule} {maxDepth : Nat} {graph : Graph} {id : Nat}
  {work : List NodeId} {loads : List Path} {run : Run} {steps : Nat}

namespace Progress

theorem keys_reachable (progress : Progress (recorded services) rootModule maxDepth graph work loads) :
    ∀ key ∈ graph.keys, key ∈ reachableKeys services rootModule := by
  intro key member
  obtain ⟨node,listed,rfl⟩ := List.mem_map.mp member
  obtain ⟨id,inside,rfl⟩ := mem_nodes_iff.mp listed
  exact ⟨_,progress.reachable inside,rfl⟩

theorem size_le (progress : Progress (recorded services) rootModule maxDepth graph work loads)
    (finite : (reachableKeys services rootModule).Finite) :
    graph.size ≤ (reachableKeys services rootModule).ncard := by
  have within : (graph.keys.toFinset : Set Key) ⊆ reachableKeys services rootModule := by
    intro key member
    exact progress.keys_reachable key (by simpa using member)
  have bound := Set.ncard_le_ncard within finite
  rwa [Set.ncard_coe_finset,List.toFinset_card_of_nodup progress.distinct,length_keys] at bound

theorem resolvedNodes_lt
    (progress : Progress (recorded services) rootModule maxDepth graph (id :: work) loads) :
    graph.resolvedNodes.length < graph.size := by
  obtain ⟨inside,unresolved,-⟩ := progress.mem_head
  refine List.length_filter_lt_length_iff_exists.mpr ⟨graph.node id,?_,by simp [unresolved]⟩
  exact mem_nodes_iff.mpr ⟨id,inside,rfl⟩

theorem not_sound {failure : Failure} {before after : List Path}
    (progress : Progress (recorded services) rootModule maxDepth graph (id :: work) loads)
    (visiting : (graph.visit (recorded services) id).run before = (.error failure,after)) :
    ¬ Sound services rootModule (graph.node id).toModule := by
  obtain ⟨inside,unresolved,-⟩ := progress.mem_head
  have untouched := progress.untouched id inside unresolved
  rintro ⟨names,imported,resolves⟩
  rcases visit_error visiting with loading | ⟨loaded,middle,loading,done,name,rest,start,names,-,refused⟩
  · rw [untouched] at loading
    rw [importsOf_of_load loading] at imported
    cases imported
  · rw [untouched] at loading
    rw [importsOf_of_load loading] at imported
    cases imported
    have named : name ∈ loaded.imports := by
      rw [names]
      exact List.mem_append_cons_self
    obtain ⟨resolution,answered⟩ := resolves name named
    rw [progress.sameRoot] at refused
    rw [answerFor_of_refuses (refuses_of_error refused)] at answered
    cases answered

section Finished

variable (progress : Progress (recorded services) rootModule 0 graph [] loads)
include progress

theorem all_resolved (inside : id < graph.size) : (graph.node id).resolved = true := by
  by_contra left
  rw [Bool.not_eq_true] at left
  exact List.not_mem_nil ((progress.mem_work id).mpr ⟨inside,left,.inl rfl⟩)

theorem covers {item : Module} (reachable : Reachable services rootModule item) :
    ∃ id < graph.size, (graph.node id).toModule = item := by
  obtain ⟨via,chain⟩ := reachable
  induction chain with
  | root => exact ⟨rootId,progress.nonempty,progress.root.1⟩
  | step chain imports ih =>
    obtain ⟨id,inside,rfl⟩ := ih
    obtain ⟨child,within,-,same⟩ := progress.import_found inside (progress.all_resolved inside) imports
    exact ⟨child,within,same⟩

theorem mem_keys_iff {key : Key} : key ∈ graph.keys ↔ key ∈ reachableKeys services rootModule := by
  refine ⟨progress.keys_reachable key,?_⟩
  rintro ⟨item,reachable,rfl⟩
  obtain ⟨id,inside,rfl⟩ := progress.covers reachable
  exact List.mem_map.mpr ⟨_,mem_nodes_iff.mpr ⟨id,inside,rfl⟩,rfl⟩

end Finished

end Progress

/-- A graph whose nodes are exactly the modules that can be reached, each resolved and its file, if
it has one, loaded for it alone. -/
structure Exact (services : Services Id) (rootModule : RootModule) (graph : Graph)
    (loads : List Path) : Prop where
  distinct : graph.keys.Nodup
  keys : ∀ key, key ∈ graph.keys ↔ key ∈ reachableKeys services rootModule
  resolved : ∀ node ∈ graph.nodes, node.resolved = true
  loads : loads.Perm (graph.nodes.filterMap (·.path?))

theorem Progress.exact (progress : Progress (recorded services) rootModule 0 graph [] loads) :
    Exact services rootModule graph loads := by
  have resolved : ∀ node ∈ graph.nodes, node.resolved = true := by
    intro node member
    obtain ⟨id,inside,rfl⟩ := mem_nodes_iff.mp member
    exact progress.all_resolved inside
  refine ⟨progress.distinct,fun key => progress.mem_keys_iff,resolved,?_⟩
  have loaded := progress.loads
  rwa [resolvedPaths,resolvedNodes,List.filter_eq_self.mpr resolved] at loaded

theorem unlimited_ended (finite : (reachableKeys services rootModule).Finite)
    (enough : 2 * (reachableKeys services rootModule).ncard ≤ steps) :
    (buildWithin services steps rootModule 0).run.outcome ≠ .unfinished := by
  have ended : ((buildWithin (recorded services) steps rootModule 0).run []).1.outcome ≠ .unfinished :=
    build_ended (Progress (recorded services) rootModule 0) Progress.visit
      (fun graph => (reachableKeys services rootModule).ncard - graph.resolvedNodes.length) ?_
      progress_ofRoot (by omega)
  · rwa [recorded_run] at ended
  · intro graph last id work added loads before after progress visiting
    have grown := progress.resolvedNodes_visit visiting
    have left := progress.resolvedNodes_lt
    have bound := progress.size_le finite
    omega

private theorem steady_more {more : Nat} (enough : steps ≤ more)
    (ended : (buildWithin services steps rootModule maxDepth).run.outcome ≠ .unfinished) :
    (buildWithin services more rootModule maxDepth).run =
      (buildWithin services steps rootModule maxDepth).run := by
  have same : (buildWithin (recorded services) more rootModule maxDepth).run [] =
      (buildWithin (recorded services) steps rootModule maxDepth).run [] :=
    buildWithin_more enough (by rwa [recorded_run])
  rw [recorded_run,recorded_run] at same
  exact congrArg Prod.fst same

theorem unlimited_outcome (ran : (buildWithin services steps rootModule 0).run = run)
    (ended : run.outcome ≠ .unfinished) :
    ((∃ graph, run.outcome = .built graph) ↔
      ∀ item, Reachable services rootModule item → Sound services rootModule item) ∧
    ∀ graph, run.outcome = .built graph → Exact services rootModule graph run.loads := by
  have logged : (buildWithin (recorded services) steps rootModule 0).run [] = (run,run.loads) := by
    rw [recorded_run,ran,List.nil_append]
  obtain ⟨state,refusal⟩ := build_invariant _ Progress.visit progress_ofRoot logged
  refine ⟨⟨?_,?_⟩,fun graph built => (state graph built).exact⟩
  · rintro ⟨graph,built⟩ item reachable
    have progress := state graph built
    obtain ⟨id,inside,rfl⟩ := progress.covers reachable
    exact progress.sound inside (progress.all_resolved inside)
  · intro sound
    cases outcome : run.outcome with
    | built graph => exact ⟨graph,rfl⟩
    | unfinished => exact absurd outcome ended
    | failed failure =>
      obtain ⟨graph,id,work,loads,cause,before,after,progress,visiting⟩ := refusal failure outcome
      exact absurd (sound _ (progress.reachable progress.mem_head.1)) (progress.not_sound visiting)

/-- A build without a limit ends when finitely many keys can be reached, in at most twice as many
steps, and is exact; it fails only where a module that can be reached is not sound. -/
theorem unlimited_build (finite : (reachableKeys services rootModule).Finite) :
    ∃ run : Run, run.outcome ≠ .unfinished ∧
      (∀ steps ≥ 2 * (reachableKeys services rootModule).ncard,
        (buildWithin services steps rootModule 0).run = run ∧
        ∀ log, (buildWithin (recorded services) steps rootModule 0).run log = (run,log ++ run.loads)) ∧
      ((∃ graph, run.outcome = .built graph) ↔
        ∀ item, Reachable services rootModule item → Sound services rootModule item) ∧
      ∀ graph, run.outcome = .built graph → Exact services rootModule graph run.loads := by
  have ended := unlimited_ended finite (Nat.le_refl _)
  obtain ⟨success,result⟩ := unlimited_outcome rfl ended
  refine ⟨_,ended,fun steps enough => ?_,success,result⟩
  have same := steady_more enough ended
  refine ⟨same,fun log => ?_⟩
  rw [recorded_run,same]

def cycle : String → List String
  | "app" => ["app","lib"]
  | "lib" => ["app","lib"]
  | _ => []

private theorem cycle_closed {via : List Module} {item : Module}
    (chain : Chain (linked cycle) (.ofPath ⟨"app"⟩ []) via item) :
    item = (RootModule.ofPath ⟨"app"⟩ []).asModule ∨ item = linkedModule "lib" := by
  induction chain with
  | root => exact .inl rfl
  | step chain imports ih =>
    obtain ⟨names,imported,name,named,resolution,answered,rfl⟩ := imports
    cases answered
    have both : names = ["app","lib"] := by
      rcases ih with rfl | rfl <;> cases imported <;> rfl
    subst both
    rcases List.mem_pair.mp named with rfl | rfl
    · exact .inl rfl
    · exact .inr rfl

theorem unlimited_build_cycle :
    (reachableKeys (linked (m := Id) cycle) (.ofPath ⟨"app"⟩ [])).Finite ∧
    ∃ graph, (buildWithin (linked (m := Id) cycle) 20 (.ofPath ⟨"app"⟩ []) 0).run =
        ⟨.built graph,[⟨"app"⟩,⟨"lib"⟩]⟩ ∧
      graph.nodes.map (·.toModule) = [⟨"app",some ⟨"app"⟩,.root⟩,⟨"lib",some ⟨"lib"⟩,.standardSearch⟩] ∧
      graph.nodes.map (·.dependencies) = [[0,1],[0,1]] ∧
      Exact (linked cycle) (.ofPath ⟨"app"⟩ []) graph [⟨"app"⟩,⟨"lib"⟩] := by
  have few : reachableKeys (linked (m := Id) cycle) (.ofPath ⟨"app"⟩ []) ⊆
      {(RootModule.ofPath ⟨"app"⟩ []).asModule.key,(linkedModule "lib").key} := by
    rintro key ⟨item,⟨via,chain⟩,rfl⟩
    rcases cycle_closed chain with rfl | rfl
    · exact .inl rfl
    · exact .inr rfl
  have finite := (Set.toFinite _).subset few
  have two : (reachableKeys (linked (m := Id) cycle) (.ofPath ⟨"app"⟩ [])).ncard ≤ 2 :=
    (Set.ncard_le_ncard few).trans ((Set.ncard_insert_le _ _).trans (by rw [Set.ncard_singleton]))
  obtain ⟨run,-,steady,-,result⟩ := unlimited_build finite
  obtain ⟨ran,-⟩ := steady 20 (by omega)
  have built : ∃ graph, (buildWithin (linked (m := Id) cycle) 20 (.ofPath ⟨"app"⟩ []) 0).run =
        ⟨.built graph,[⟨"app"⟩,⟨"lib"⟩]⟩ ∧
      graph.nodes.map (·.toModule) = [⟨"app",some ⟨"app"⟩,.root⟩,⟨"lib",some ⟨"lib"⟩,.standardSearch⟩] ∧
      graph.nodes.map (·.dependencies) = [[0,1],[0,1]] := ⟨_,rfl,rfl,rfl⟩
  obtain ⟨graph,done,modules,edges⟩ := built
  rw [done] at ran
  subst ran
  exact ⟨finite,graph,done,modules,edges,result graph rfl⟩

end LoadMap.Graph
