import LoadMap.Proofs.Graph.Depth
import LoadMap.Proofs.Graph.Unlimited

/-! Which modules a build with a limit finds. A chain of imports is followed up to a node that was
first met at the limit, by way of some longer chain; such a node is not loaded when it is met again
nearer to the root. -/
namespace LoadMap.Graph

variable {services : Services Id} {rootModule : RootModule} {maxDepth : Nat} {graph : Graph} {id : Nat}
  {work : List NodeId} {loads : List Path} {via : List Module} {item : Module} {steps : Nat}

/-- The root is visited before anything else, and what it imports is met then. -/
structure NearRoot (graph : Graph) : Prop where
  alone : (graph.node rootId).resolved = false → graph.size = 1
  near : ∀ child ∈ (graph.node rootId).dependencies, child < graph.size ∧ (graph.node child).level ≤ 1

theorem nearRoot_ofRoot : NearRoot (ofRoot rootModule maxDepth) :=
  ⟨fun _ => rfl,fun _ member => absurd member List.not_mem_nil⟩

theorem NearRoot.visit {σ : Type} {services : Services (StateM σ)} {last : Graph}
    {added : List NodeId} {before after : σ} (near : NearRoot graph)
    (progress : Progress services rootModule maxDepth graph (id :: work) loads)
    (visiting : (graph.visit services id).run before = (.ok (last,added),after)) : NearRoot last := by
  obtain ⟨inside,unresolved,-⟩ := progress.mem_head
  obtain ⟨visited,more,visit,rfl,-⟩ := progress.visit_eq visiting
  by_cases top : id = rootId
  · subst top
    have alone := near.alone unresolved
    have self : (graph.put rootId visited more).node rootId = visited := node_put_self inside
    refine ⟨?_,?_⟩
    · rw [self,visit.resolved]
      intro left
      cases left
    · rw [self]
      intro child member
      have state := progress.visit visiting
      have settled := (state.settled rootId state.nonempty (by rw [self,visit.resolved])).2
      rw [self] at settled
      have within := settled.inside member
      refine ⟨within,?_⟩
      rcases node_put_cases within with rfl | ⟨apart,known⟩ | ⟨-,new⟩
      · rw [self,visit.level,progress.root.2]
        exact Nat.zero_le 1
      · exact absurd (Nat.lt_one_iff.mp (alone ▸ known)) apart
      · rw [visit.new_eq new,visit.level,progress.root.2]
        exact Nat.le_refl 1
  · have self : (graph.put id visited more).node rootId = graph.node rootId :=
      node_put_of_ne progress.nonempty (Ne.symm top)
    refine ⟨?_,?_⟩
    · rw [self]
      intro left
      have alone := near.alone left
      exact absurd (Nat.lt_one_iff.mp (alone ▸ inside)) top
    · rw [self]
      intro child member
      obtain ⟨known,level⟩ := near.near child member
      have grown := visit.extends unresolved
      refine ⟨Nat.lt_of_lt_of_le known grown.size,?_⟩
      rwa [(grown.outline child known).2]

/-- A module that was first met at the limit, so that it was not loaded. -/
def Cut (graph : Graph) (maxDepth : Nat) (item : Module) : Prop :=
  ∃ id < graph.size, (graph.node id).toModule = item ∧ (graph.node id).level = maxDepth ∧
    (graph.node id).resolved = false

/-- Among some modules, the last one first, there is one that was cut, and not before the second, or
the first when that is the limit. -/
def CutAmong (graph : Graph) (maxDepth : Nat) (items : List Module) : Prop :=
  ∃ later cut earlier, items = later ++ cut :: earlier ∧ min maxDepth 2 ≤ earlier.length ∧
    Cut graph maxDepth cut

theorem CutAmong.cons (cut : CutAmong graph maxDepth via) : CutAmong graph maxDepth (item :: via) := by
  obtain ⟨later,first,earlier,rfl,rest⟩ := cut
  exact ⟨item :: later,first,earlier,rfl,rest⟩

theorem Chain.eq_root (chain : Chain services rootModule [] item) : item = rootModule.asModule := by
  cases chain
  rfl

/-- A chain leads to a resolved node, or it passes through one that was cut. -/
theorem chain_resolved (progress : Progress (recorded services) rootModule maxDepth graph [] loads)
    (positive : 0 < maxDepth) (near : NearRoot graph) (chain : Chain services rootModule via item) :
    (∃ id < graph.size, (graph.node id).toModule = item ∧ (graph.node id).resolved = true) ∨
      CutAmong graph maxDepth (item :: via) := by
  have levelled := progress.levelled positive
  induction chain with
  | root =>
    refine .inl ⟨rootId,progress.nonempty,progress.root.1,?_⟩
    rw [levelled.resolved rootId progress.nonempty,progress.root.2]
    exact positive
  | @step via item other chain imports ih =>
    rcases ih with ⟨id,inside,rfl,resolved⟩ | cut
    · obtain ⟨child,within,member,rfl⟩ := progress.import_found inside resolved imports
      by_cases done : (graph.node child).resolved = true
      · exact .inl ⟨child,within,rfl,done⟩
      · have level : (graph.node child).level = maxDepth := by
          have bounded := levelled.bounded child within
          rw [levelled.resolved child within] at done
          omega
        have left := Bool.not_eq_true _ ▸ done
        refine .inr ⟨[],_,_,rfl,?_,child,within,rfl,level,left⟩
        -- What the root imports was met at level one, so the cut is further away if the limit is.
        cases via with
        | cons _ _ => exact Nat.le_trans (Nat.min_le_right _ _) (Nat.le_add_left 2 _)
        | nil =>
          have top : (graph.node id).key = (graph.node rootId).key := by
            rw [← Node.key_toModule,chain.eq_root,← progress.root.1,Node.key_toModule]
          obtain rfl := eq_of_key_eq progress.distinct inside progress.nonempty top
          have first := (near.near child member).2
          exact Nat.le_trans (Nat.min_le_left _ _) (level ▸ first)
    · exact .inr cut.cons

theorem chain_found (progress : Progress (recorded services) rootModule maxDepth graph [] loads)
    (positive : 0 < maxDepth) (near : NearRoot graph) (chain : Chain services rootModule via item) :
    (∃ id < graph.size, (graph.node id).toModule = item) ∨ CutAmong graph maxDepth via := by
  rcases chain_resolved progress positive near chain with ⟨id,inside,same,-⟩ | cut
  · exact .inl ⟨id,inside,same⟩
  · obtain ⟨later,first,earlier,split,deep,cut⟩ := cut
    cases later with
    | nil =>
      obtain ⟨rfl,rfl⟩ := List.cons.inj split
      obtain ⟨id,inside,same,-⟩ := cut
      exact .inl ⟨id,inside,same⟩
    | cons _ later =>
      obtain ⟨-,rfl⟩ := List.cons.inj split
      exact .inr ⟨later,first,earlier,rfl,deep,cut⟩

/-- The application imports two modules: the one leads to the fifth the long way, through two others,
and the other at once. The fifth imports the sixth. -/
def detour : String → List String
  | "app" => ["first","second"]
  | "first" => ["third"]
  | "third" => ["fourth"]
  | "fourth" => ["fifth"]
  | "second" => ["fifth"]
  | "fifth" => ["sixth"]
  | _ => []

/-- With a limit of four the fifth is first met at the limit, and what it imports is not found,
although a chain of three imports leads there. With a limit of three it is found. -/
theorem detour_lost :
    (∃ graph via, (buildWithin (linked (m := Id) detour) 20 (.ofPath ⟨"app"⟩ []) 4).run.outcome =
        .built graph ∧
      Chain (linked detour) (.ofPath ⟨"app"⟩ []) via (linkedModule "sixth") ∧ via.length = 3 ∧
      (linkedModule "sixth").key ∉ graph.keys) ∧
    ∃ graph, (buildWithin (linked (m := Id) detour) 20 (.ofPath ⟨"app"⟩ []) 3).run.outcome =
        .built graph ∧
      (linkedModule "sixth").key ∈ graph.keys := by
  refine ⟨⟨_,[linkedModule "fifth",linkedModule "second",(RootModule.ofPath ⟨"app"⟩ []).asModule],rfl,
    .step (.step (.step .root ?_) ?_) ?_,rfl,?_⟩,_,rfl,?_⟩
  · exact ⟨_,rfl,"second",by decide,_,rfl,rfl⟩
  · exact ⟨_,rfl,"fifth",by decide,_,rfl,rfl⟩
  · exact ⟨_,rfl,"sixth",by decide,_,rfl,rfl⟩
  · decide +kernel
  · decide +kernel

/-- What a graph built with a limit holds of the modules that can be reached. -/
structure Covered (services : Services Id) (rootModule : RootModule) (graph : Graph) (maxDepth : Nat) :
    Prop where
  found : ∀ via item, Chain services rootModule via item →
    item.key ∈ graph.keys ∨ CutAmong graph maxDepth via
  resolved : ∀ via item, Chain services rootModule via item →
    (∃ node ∈ graph.nodes, node.toModule = item ∧ node.resolved = true) ∨
      CutAmong graph maxDepth (item :: via)
  /-- A limit of one or two loses nothing. -/
  small : maxDepth ≤ 2 → ∀ via item, Chain services rootModule via item →
    (via.length ≤ maxDepth → item.key ∈ graph.keys) ∧
    (via.length < maxDepth → ∃ node ∈ graph.nodes, node.toModule = item ∧ node.resolved = true)
  reached : ∀ node ∈ graph.nodes, node.level ≤ maxDepth ∧
    ∃ via, Chain services rootModule via node.toModule ∧ via.length = node.level

theorem CutAmong.length_le (cut : CutAmong graph maxDepth via) : min maxDepth 2 < via.length := by
  obtain ⟨later,first,earlier,rfl,deep,-⟩ := cut
  rw [List.length_append,List.length_cons]
  omega

theorem covered (progress : Progress (recorded services) rootModule maxDepth graph [] loads)
    (positive : 0 < maxDepth) (near : NearRoot graph) :
    Covered services rootModule graph maxDepth := by
  have found : ∀ via item, Chain services rootModule via item →
      item.key ∈ graph.keys ∨ CutAmong graph maxDepth via := by
    intro via item chain
    refine (chain_found progress positive near chain).imp_left ?_
    rintro ⟨id,inside,rfl⟩
    exact List.mem_map.mpr ⟨_,mem_nodes_iff.mpr ⟨id,inside,rfl⟩,rfl⟩
  have resolved : ∀ via item, Chain services rootModule via item →
      (∃ node ∈ graph.nodes, node.toModule = item ∧ node.resolved = true) ∨
        CutAmong graph maxDepth (item :: via) := by
    intro via item chain
    refine (chain_resolved progress positive near chain).imp_left ?_
    rintro ⟨id,inside,rest⟩
    exact ⟨_,mem_nodes_iff.mpr ⟨id,inside,rfl⟩,rest⟩
  refine ⟨found,resolved,fun limit via item chain => ⟨fun short => ?_,fun short => ?_⟩,?_⟩
  · refine (found via item chain).resolve_right fun cut => ?_
    have long := cut.length_le
    omega
  · refine (resolved via item chain).resolve_right fun cut => ?_
    have long := cut.length_le
    rw [List.length_cons] at long
    omega
  · intro node member
    obtain ⟨id,inside,rfl⟩ := mem_nodes_iff.mp member
    exact ⟨progress.limit positive id inside,progress.chain inside⟩

theorem progress_of_built (built : (buildWithin services steps rootModule maxDepth).run.outcome =
      .built graph) :
    Progress (recorded services) rootModule maxDepth graph []
      (buildWithin services steps rootModule maxDepth).run.loads ∧ NearRoot graph := by
  let Inv (graph : Graph) (work : List NodeId) (loads : List Path) : Prop :=
    Progress (recorded services) rootModule maxDepth graph work loads ∧ NearRoot graph
  exact (build_invariant Inv
    (fun held visiting => ⟨held.1.visit visiting,held.2.visit held.1 visiting⟩)
    ⟨progress_ofRoot,nearRoot_ofRoot⟩ (recorded_run [])).1 graph built

/-- A limit loses only what lies behind a module that was first met at the limit. Without the limit
nothing is lost, and with another limit only what lies behind a module first met at that one. -/
theorem limited_coverage (positive : 0 < maxDepth)
    (built : (buildWithin services steps rootModule maxDepth).run.outcome = .built graph) :
    Covered services rootModule graph maxDepth ∧
    (∀ steps full, (buildWithin services steps rootModule 0).run.outcome = .built full →
      ∀ key ∈ graph.keys, key ∈ full.keys) ∧
    ∀ steps other deeper, 0 < deeper →
      (buildWithin services steps rootModule deeper).run.outcome = .built other →
      ∀ node ∈ graph.nodes, node.key ∈ other.keys ∨
        ∀ via, Chain services rootModule via node.toModule → CutAmong other deeper via := by
  obtain ⟨progress,near⟩ := progress_of_built built
  refine ⟨covered progress positive near,?_,?_⟩
  · intro steps full unlimited key member
    obtain ⟨whole,-⟩ := progress_of_built unlimited
    exact whole.mem_keys_iff.mpr (progress.keys_reachable key member)
  · intro steps other deeper some raised node member
    obtain ⟨state,first⟩ := progress_of_built raised
    by_cases kept : node.key ∈ other.keys
    · exact .inl kept
    · exact .inr fun via chain => ((covered state some first).found via _ chain).resolve_left kept

theorem limited_coverage_detour :
    ∃ graph, (buildWithin (linked (m := Id) detour) 20 (.ofPath ⟨"app"⟩ []) 4).run.outcome =
        .built graph ∧
      graph.nodes.map (fun node => (node.name,node.level,node.dependencies,node.resolved)) =
        [("app",0,[1,2],true),("first",1,[3],true),("second",1,[5],true),("third",2,[4],true),
          ("fourth",3,[5],true),("fifth",4,[],false)] ∧
      Covered (linked detour) (.ofPath ⟨"app"⟩ []) graph 4 := by
  have positive : 0 < 4 := by decide
  have ran : ∃ graph, (buildWithin (linked (m := Id) detour) 20 (.ofPath ⟨"app"⟩ []) 4).run.outcome =
        .built graph ∧
      graph.nodes.map (fun node => (node.name,node.level,node.dependencies,node.resolved)) =
        [("app",0,[1,2],true),("first",1,[3],true),("second",1,[5],true),("third",2,[4],true),
          ("fourth",3,[5],true),("fifth",4,[],false)] := ⟨_,rfl,rfl⟩
  obtain ⟨graph,built,nodes⟩ := ran
  exact ⟨graph,built,nodes,(limited_coverage positive built).1⟩

end LoadMap.Graph
