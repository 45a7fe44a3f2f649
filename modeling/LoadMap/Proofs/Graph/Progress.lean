import LoadMap.Proofs.Graph.Expansion
import Mathlib.Data.List.Perm.Basic

/-! What holds of a graph while it is built: which nodes are still to be visited, which files have
been loaded, and how each node came to be where it is. -/
namespace LoadMap

def RootModule.asModule (rootModule : RootModule) : Module :=
  { name := rootModule.name, path? := some rootModule.path, strategy := .root }

namespace Graph

variable {σ : Type} {services : Services (StateM σ)} {rootModule : RootModule} {maxDepth : Nat}
  {graph : Graph} {id : Nat} {work : List NodeId} {loads : List Path} {visited : Node}
  {more : List Node}

def InDepth (maxDepth level : Nat) : Prop := maxDepth = 0 ∨ level < maxDepth

theorem follows_iff {level : Nat} :
    graph.follows level = true ↔ InDepth graph.maxDepth (level + 1) := by
  simp [follows,InDepth]

def resolvedNodes (graph : Graph) : List Node := graph.nodes.filter (·.resolved)

def resolvedPaths (graph : Graph) : List Path := graph.resolvedNodes.filterMap (·.path?)

/-- A graph that has all the nodes of another, each with its name, file, strategy and level, and the
resolved ones as they are. -/
structure Extends (graph larger : Graph) : Prop where
  size : graph.size ≤ larger.size
  outline : ∀ id < graph.size, (larger.node id).toModule = (graph.node id).toModule ∧
    (larger.node id).level = (graph.node id).level
  kept : ∀ id < graph.size, (graph.node id).resolved = true → larger.node id = graph.node id

theorem Extends.of_same {larger : Graph} (size : graph.size ≤ larger.size)
    (same : ∀ id < graph.size, larger.node id = graph.node id) : Extends graph larger := by
  refine ⟨size,fun id inside => ?_,fun id inside _ => same id inside⟩
  rw [same id inside]
  exact ⟨rfl,rfl⟩

theorem Extends.refl (graph : Graph) : Extends graph graph := .of_same (Nat.le_refl _) fun _ _ => rfl

theorem Extends.trans {first second third : Graph} (early : Extends first second)
    (late : Extends second third) : Extends first third := by
  refine ⟨Nat.le_trans early.size late.size,fun id inside => ?_,fun id inside resolved => ?_⟩
  · have before := early.outline id inside
    have after := late.outline id (Nat.lt_of_lt_of_le inside early.size)
    exact ⟨after.1.trans before.1,after.2.trans before.2⟩
  · have before := early.kept id inside resolved
    have after := late.kept id (Nat.lt_of_lt_of_le inside early.size) (by rwa [before])
    exact after.trans before

/-- How a node other than the root came about: a resolved node one level above imports a name that
leads to it. -/
structure Origin (answers : String → Resolution → Prop) (graph : Graph) (parent child : Nat) :
    Prop where
  inside : parent < graph.size
  resolved : (graph.node parent).resolved = true
  level : (graph.node child).level = (graph.node parent).level + 1
  edge : child ∈ (graph.node parent).dependencies
  found : ∃ name ∈ (graph.node parent).imports, ∃ resolution, answers name resolution ∧
    (graph.node child).toModule = moduleFor name resolution

/-- What a resolved node says is what its file said, and its edges follow its imports. -/
structure Settled (services : Services (StateM σ)) (rootModule : RootModule) (graph : Graph)
    (node : Node) : Prop where
  content : ∃ (loaded : Node) (before after : σ),
    (load services (.untouched node.toModule node.level)).run before = (.ok loaded,after) ∧
    loaded.imports = node.imports ∧ loaded.assemblies = node.assemblies ∧
    loaded.diagnostics = node.diagnostics
  edges : List.Forall₂ (Leads (Answers services rootModule) graph) node.imports node.dependencies
  children : node.children = firstEdges [] node.imports node.dependencies

/-- The state of a build: `work` are the nodes still to be visited and `loads` the files loaded. -/
structure Progress (services : Services (StateM σ)) (rootModule : RootModule) (maxDepth : Nat)
    (graph : Graph) (work : List NodeId) (loads : List Path) : Prop where
  sameRoot : graph.rootModule = rootModule
  sameDepth : graph.maxDepth = maxDepth
  nonempty : 0 < graph.size
  root : (graph.node rootId).toModule = rootModule.asModule ∧ (graph.node rootId).level = 0
  indexed : graph.Indexed
  once : work.Nodup
  mem_work : ∀ id, id ∈ work ↔ id < graph.size ∧ (graph.node id).resolved = false ∧
    InDepth maxDepth (graph.node id).level
  untouched : ∀ id < graph.size, (graph.node id).resolved = false →
    graph.node id = .untouched (graph.node id).toModule (graph.node id).level
  settled : ∀ id < graph.size, (graph.node id).resolved = true →
    InDepth maxDepth (graph.node id).level ∧ Settled services rootModule graph (graph.node id)
  limit : 0 < maxDepth → ∀ id < graph.size, (graph.node id).level ≤ maxDepth
  origin : ∀ id < graph.size, id ≠ rootId →
    ∃ parent, Origin (Answers services rootModule) graph parent id
  loads : loads.Perm graph.resolvedPaths

theorem progress_ofRoot :
    Progress services rootModule maxDepth (ofRoot rootModule maxDepth) [rootId] [] where
  sameRoot := rfl
  sameDepth := rfl
  nonempty := Nat.one_pos
  root := ⟨rfl,rfl⟩
  indexed := indexed_ofRoot
  once := List.nodup_singleton _
  mem_work id := by
    rw [List.mem_singleton]
    constructor
    · rintro rfl
      exact ⟨Nat.one_pos,rfl,Nat.eq_zero_or_pos _⟩
    · rintro ⟨inside,-,-⟩
      exact Nat.lt_one_iff.mp inside
  untouched id inside _ := by
    obtain rfl := Nat.lt_one_iff.mp inside
    rfl
  settled id inside resolved := by
    obtain rfl := Nat.lt_one_iff.mp inside
    cases resolved
  limit _ id inside := by
    obtain rfl := Nat.lt_one_iff.mp inside
    exact Nat.zero_le _
  origin id inside other := absurd (Nat.lt_one_iff.mp inside) other
  loads := List.Perm.nil

theorem Progress.distinct (progress : Progress services rootModule maxDepth graph work loads) :
    graph.keys.Nodup := progress.indexed.distinct

theorem Progress.mem_head (progress : Progress services rootModule maxDepth graph (id :: work) loads) :
    id < graph.size ∧ (graph.node id).resolved = false ∧ InDepth maxDepth (graph.node id).level :=
  (progress.mem_work id).mp List.mem_cons_self

/-- What holds of the root, and of every node that comes about from one of which it holds, holds of
all nodes. -/
theorem Progress.from_root (progress : Progress services rootModule maxDepth graph work loads)
    {motive : Nat → Prop} (root : motive rootId)
    (step : ∀ {parent child : Nat}, child < graph.size →
      Origin (Answers services rootModule) graph parent child → motive parent → motive child)
    (inside : id < graph.size) : motive id := by
  induction level : (graph.node id).level using Nat.strongRecOn generalizing id with
  | ind depth ih =>
    by_cases top : id = rootId
    · exact top ▸ root
    · obtain ⟨parent,origin⟩ := progress.origin id inside top
      have above := origin.level
      exact step inside origin (ih _ (by omega) origin.inside rfl)

theorem Progress.visit_eq {last : Graph} {added : List NodeId} {before after : σ}
    (progress : Progress services rootModule maxDepth graph (id :: work) loads)
    (visiting : (graph.visit services id).run before = (.ok (last,added),after)) :
    ∃ visited more, Visited services graph id visited more ∧ last = graph.put id visited more ∧
      added = if graph.follows (graph.node id).level then List.range' graph.size more.length else [] := by
  obtain ⟨inside,unresolved,-⟩ := progress.mem_head
  exact visit_ok visiting inside progress.indexed (progress.untouched id inside unresolved)

theorem Visited.new_eq (visit : Visited services graph id visited more) {node : Node}
    (member : node ∈ more) : node = .untouched node.toModule (visited.level + 1) := by
  obtain ⟨_,_,_,_,rfl⟩ := visit.linking.new node member
  rfl

theorem Visited.extends (visit : Visited services graph id visited more)
    (unresolved : (graph.node id).resolved = false) :
    Extends graph (graph.put id visited more) := by
  refine ⟨by rw [size_put]; exact Nat.le_add_right _ _,fun other inside => ?_,fun other inside done => ?_⟩
  · by_cases same : other = id
    · subst same
      rw [node_put_self inside]
      exact ⟨visit.toModule,visit.level⟩
    · rw [node_put_of_ne inside same]
      exact ⟨rfl,rfl⟩
  · refine node_put_of_ne inside ?_
    rintro rfl
    rw [done] at unresolved
    cases unresolved

theorem Visited.grown (visit : Visited services graph id visited more) :
    graph.keys <+: (graph.put id visited more).keys := by
  rw [visit.keys]
  exact List.prefix_append _ _

theorem resolvedNodes_put (inside : id < graph.size) (unresolved : (graph.node id).resolved = false)
    (resolved : visited.resolved = true) (new : ∀ node ∈ more, node.resolved = false) :
    (graph.put id visited more).resolvedNodes.Perm (graph.resolvedNodes ++ [visited]) := by
  have bound : id < graph.nodes.length := inside
  have none : more.filter (·.resolved) = [] := by
    rw [List.filter_eq_nil_iff]
    intro node member
    simp [new node member]
  have split : graph.nodes = graph.nodes.take id ++ graph.node id :: graph.nodes.drop (id + 1) := by
    rw [node_eq bound,List.getElem_cons_drop,List.take_append_drop]
  have before : graph.resolvedNodes = (graph.nodes.take id).filter (·.resolved) ++
      (graph.nodes.drop (id + 1)).filter (·.resolved) := by
    unfold resolvedNodes
    conv_lhs => rw [split]
    rw [List.filter_append,List.filter_cons_of_neg (by simp [unresolved])]
  have after : (graph.put id visited more).resolvedNodes = (graph.nodes.take id).filter (·.resolved) ++
      ([visited] ++ (graph.nodes.drop (id + 1)).filter (·.resolved)) := by
    simp only [resolvedNodes,put,List.filter_append,none,List.append_nil]
    rw [List.set_eq_take_append_cons_drop,if_pos bound,List.filter_append,
      List.filter_cons_of_pos resolved]
    rfl
  rw [before,after,List.append_assoc]
  exact List.Perm.append_left _ List.perm_append_comm

theorem Settled.mono {larger : Graph} {node : Node} (grown : graph.keys <+: larger.keys)
    (settled : Settled services rootModule graph node) :
    Settled services rootModule larger node :=
  ⟨settled.content,settled.edges.imp fun _ _ old => old.mono grown,settled.children⟩

theorem Settled.leads {node : Node} {name : String}
    (settled : Settled services rootModule graph node) (named : name ∈ node.imports) :
    ∃ child ∈ node.dependencies, Leads (Answers services rootModule) graph name child := by
  obtain ⟨place,bound,rfl⟩ := List.mem_iff_getElem.mp named
  have within : place < node.dependencies.length := by
    rwa [← settled.edges.length_eq]
  exact ⟨_,List.getElem_mem within,settled.edges.get bound within⟩

theorem Settled.inside {node : Node} {child : Nat} (settled : Settled services rootModule graph node)
    (member : child ∈ node.dependencies) : child < graph.size := by
  obtain ⟨place,bound,rfl⟩ := List.mem_iff_getElem.mp member
  have within : place < node.imports.length := by
    rwa [settled.edges.length_eq]
  obtain ⟨resolution,-,found⟩ := settled.edges.get within bound
  exact lt_size_of_getElem?_keys found

section Step

variable (progress : Progress services rootModule maxDepth graph (id :: work) loads)
  (visit : Visited services graph id visited more)
include progress visit

private theorem mem_work_put (other : Nat) :
    other ∈ (if graph.follows (graph.node id).level then List.range' graph.size more.length else []) ++
        work ↔
      other < (graph.put id visited more).size ∧
        ((graph.put id visited more).node other).resolved = false ∧
        InDepth maxDepth ((graph.put id visited more).node other).level := by
  obtain ⟨inside,-,-⟩ := progress.mem_head
  have old (member : other ∈ work) : other < graph.size :=
    ((progress.mem_work other).mp (List.mem_cons_of_mem _ member)).1
  have added (member : other ∈ if graph.follows (graph.node id).level
      then List.range' graph.size more.length else []) : graph.size ≤ other := by
    split at member
    · exact (List.mem_range'_1.mp member).1
    · cases member
  rw [List.mem_append]
  by_cases within : other < (graph.put id visited more).size
  · rcases node_put_cases within with rfl | ⟨apart,known⟩ | ⟨new,member⟩
    · rw [node_put_self inside,visit.resolved]
      constructor
      · rintro (member | member)
        · have := added member
          omega
        · exact absurd member (List.nodup_cons.mp progress.once).1
      · rintro ⟨-,⟨⟩,-⟩
    · rw [node_put_of_ne known apart]
      have before := progress.mem_work other
      rw [List.mem_cons,or_iff_right apart] at before
      constructor
      · rintro (member | member)
        · have := added member
          omega
        · obtain ⟨-,unresolved,level⟩ := before.mp member
          exact ⟨within,unresolved,level⟩
      · rintro ⟨-,unresolved,level⟩
        exact .inr (before.mpr ⟨known,unresolved,level⟩)
    · rw [visit.new_eq member]
      have follows : graph.follows (graph.node id).level = true ↔
          InDepth graph.maxDepth ((graph.node id).level + 1) := follows_iff
      rw [progress.sameDepth,← visit.level] at follows
      rw [size_put] at within
      constructor
      · rintro (member | member)
        · rw [visit.level] at follows
          split at member
          case isTrue followed =>
            exact ⟨by rwa [size_put],rfl,by rw [visit.level]; exact follows.mp followed⟩
          case isFalse => cases member
        · exact absurd (old member) (by omega)
      · rintro ⟨-,-,level⟩
        rw [← visit.level,if_pos (follows.mpr level),List.mem_range'_1]
        exact .inl ⟨new,within⟩
  · constructor
    · rintro (member | member)
      · split at member
        · have := (List.mem_range'_1.mp member).2
          rw [size_put] at within
          exact absurd this (by omega)
        · cases member
      · have := old member
        rw [size_put] at within
        omega
    · exact fun outside => absurd outside.1 within

private theorem settled_put (other : Nat) (within : other < (graph.put id visited more).size)
    (resolved : ((graph.put id visited more).node other).resolved = true) :
    InDepth maxDepth ((graph.put id visited more).node other).level ∧
      Settled services rootModule (graph.put id visited more)
        ((graph.put id visited more).node other) := by
  obtain ⟨inside,unresolved,level⟩ := progress.mem_head
  rcases node_put_cases within with rfl | ⟨apart,known⟩ | ⟨new,member⟩
  · rw [node_put_self inside]
    refine ⟨by rwa [visit.level],?_,?_,visit.linking.children⟩
    · obtain ⟨loaded,before,after,_,_,loading,same⟩ := visit.content
      rw [progress.untouched other inside unresolved] at loading
      refine ⟨loaded,before,after,?_,?_⟩
      · rw [visit.toModule,visit.level]
        exact loading
      · subst same
        exact ⟨rfl,rfl,rfl⟩
    · have edges := visit.linking.edges
      rwa [progress.sameRoot] at edges
  · rw [node_put_of_ne known apart] at resolved ⊢
    obtain ⟨level,settled⟩ := progress.settled other known resolved
    exact ⟨level,settled.mono visit.grown⟩
  · rw [visit.new_eq member] at resolved
    cases resolved

private theorem limit_put (positive : 0 < maxDepth) (other : Nat)
    (within : other < (graph.put id visited more).size) :
    ((graph.put id visited more).node other).level ≤ maxDepth := by
  obtain ⟨inside,-,level⟩ := progress.mem_head
  by_cases known : other < graph.size
  · rw [((visit.extends progress.mem_head.2.1).outline other known).2]
    exact progress.limit positive other known
  · rcases node_put_cases within with rfl | ⟨-,old⟩ | ⟨-,member⟩
    · exact absurd inside known
    · exact absurd old known
    · rw [visit.new_eq member,visit.level]
      rcases level with unlimited | below
      · omega
      · exact below

private theorem origin_put (other : Nat) (within : other < (graph.put id visited more).size)
    (apart : other ≠ rootId) :
    ∃ parent, Origin (Answers services rootModule) (graph.put id visited more) parent other := by
  obtain ⟨inside,unresolved,-⟩ := progress.mem_head
  by_cases known : other < graph.size
  · obtain ⟨parent,origin⟩ := progress.origin other known apart
    have differs : parent ≠ id := by
      rintro rfl
      rw [origin.resolved] at unresolved
      cases unresolved
    have kept : (graph.put id visited more).node parent = graph.node parent :=
      node_put_of_ne origin.inside differs
    obtain ⟨item,level⟩ := (visit.extends unresolved).outline other known
    refine ⟨parent,⟨?_,?_,?_,?_,?_⟩⟩
    · rw [size_put]
      exact Nat.lt_add_right _ origin.inside
    · rw [kept,origin.resolved]
    · rw [kept,level,origin.level]
    · rw [kept]
      exact origin.edge
    · rw [kept,item]
      exact origin.found
  · obtain ⟨index,rfl⟩ := Nat.exists_eq_add_of_le (Nat.le_of_not_lt known)
    have bound : index < more.length := by
      rw [size_put] at within
      omega
    have member := List.getElem_mem bound
    obtain ⟨name,named,resolution,answer,same⟩ := visit.linking.new _ member
    have self : (graph.put id visited more).node id = visited := node_put_self inside
    refine ⟨id,⟨?_,?_,?_,?_,?_⟩⟩
    · rw [size_put]
      exact Nat.lt_add_right _ inside
    · rw [self,visit.resolved]
    · rw [self,node_put_new bound,same]
      rfl
    · rw [self]
      exact visit.linking.used index bound
    · rw [self,node_put_new bound]
      rw [progress.sameRoot] at answer
      exact ⟨name,named,resolution,answer,by rw [same]; rfl⟩

end Step

/-- Every visit leaves the build in such a state again. -/
theorem Progress.visit {last : Graph} {added : List NodeId} {before after : σ}
    (progress : Progress services rootModule maxDepth graph (id :: work) loads)
    (visiting : (graph.visit services id).run before = (.ok (last,added),after)) :
    Progress services rootModule maxDepth last (added ++ work)
      (loads ++ (graph.node id).path?.toList) := by
  obtain ⟨inside,unresolved,-⟩ := progress.mem_head
  obtain ⟨visited,more,visit,rfl,rfl⟩ := progress.visit_eq visiting
  have old : ∀ other ∈ work, other < graph.size := fun other member =>
    ((progress.mem_work other).mp (List.mem_cons_of_mem _ member)).1
  have isNew : ∀ node ∈ more, node.resolved = false := by
    intro node member
    rw [visit.new_eq member]
    rfl
  exact {
    sameRoot := progress.sameRoot
    sameDepth := progress.sameDepth
    nonempty := by
      rw [size_put]
      exact Nat.lt_add_right _ progress.nonempty
    root := by
      obtain ⟨item,depth⟩ := (visit.extends unresolved).outline rootId progress.nonempty
      rw [item,depth]
      exact progress.root
    indexed := progress.indexed.put visit.key visit.linking.distinct
    once := by
      refine List.Nodup.append ?_ (List.nodup_cons.mp progress.once).2 ?_
      · split
        · exact List.nodup_range'
        · exact List.nodup_nil
      · intro other new known
        split at new
        · exact absurd (old other known) (Nat.not_lt.mpr (List.mem_range'_1.mp new).1)
        · cases new
    mem_work := mem_work_put progress visit
    untouched := by
      intro other within unresolved
      rcases node_put_cases within with rfl | ⟨apart,known⟩ | ⟨-,member⟩
      · rw [node_put_self inside,visit.resolved] at unresolved
        cases unresolved
      · rw [node_put_of_ne known apart] at unresolved ⊢
        exact progress.untouched other known unresolved
      · rw [visit.new_eq member]
        rfl
    settled := settled_put progress visit
    limit := limit_put progress visit
    origin := origin_put progress visit
    loads := by
      have grown := (resolvedNodes_put inside unresolved visit.resolved isNew).filterMap (·.path?)
      rw [List.filterMap_append,List.filterMap_cons,visit.toModule] at grown
      refine (progress.loads.append_right _).trans (List.Perm.trans ?_ grown.symm)
      cases (graph.node id).path? <;> rfl }

theorem Progress.extends {last : Graph} {added : List NodeId} {before after : σ}
    (progress : Progress services rootModule maxDepth graph (id :: work) loads)
    (visiting : (graph.visit services id).run before = (.ok (last,added),after)) :
    Extends graph last := by
  obtain ⟨visited,more,visit,rfl,-⟩ := progress.visit_eq visiting
  exact visit.extends progress.mem_head.2.1

theorem Progress.resolvedNodes_visit {last : Graph} {added : List NodeId} {before after : σ}
    (progress : Progress services rootModule maxDepth graph (id :: work) loads)
    (visiting : (graph.visit services id).run before = (.ok (last,added),after)) :
    last.resolvedNodes.length = graph.resolvedNodes.length + 1 := by
  obtain ⟨inside,unresolved,-⟩ := progress.mem_head
  obtain ⟨visited,more,visit,rfl,-⟩ := progress.visit_eq visiting
  have grown := resolvedNodes_put inside unresolved visit.resolved fun node member => by
    rw [visit.new_eq member]
    rfl
  rw [grown.length_eq,List.length_append,List.length_singleton]

/-- What a visit leaves to be done next is new: it was met below the module visited. -/
theorem Progress.added_new {last : Graph} {added : List NodeId} {new : NodeId} {before after : σ}
    (progress : Progress services rootModule maxDepth graph (id :: work) loads)
    (visiting : (graph.visit services id).run before = (.ok (last,added),after))
    (member : new ∈ added) :
    graph.size ≤ new ∧ new < last.size ∧ (last.node new).level = (graph.node id).level + 1 ∧
      new ∈ (last.node id).dependencies := by
  obtain ⟨inside,-,-⟩ := progress.mem_head
  obtain ⟨visited,more,visit,rfl,rfl⟩ := progress.visit_eq visiting
  split at member
  case isFalse => cases member
  case isTrue =>
    obtain ⟨index,bound,rfl⟩ := List.mem_range'.mp member
    rw [Nat.one_mul,node_put_new bound,visit.new_eq (List.getElem_mem bound),visit.level,size_put,
      node_put_self inside]
    exact ⟨Nat.le_add_right _ _,Nat.add_lt_add_left bound _,rfl,visit.linking.used index bound⟩

end Graph
end LoadMap
