import LoadMap.Proofs.Graph.Table

/-! Resolving the imports of a node one after another. All that changes is the edges of the node and
what is added behind the table: a node for each name that leads to a module not met before. -/
namespace LoadMap.Graph

def moduleFor (name : String) (resolution : Resolution) : Module :=
  { name, path? := resolution.path?, strategy := resolution.strategy }

def Node.withEdges (node : Node) (children dependencies : List NodeId) : Node :=
  { node with children, dependencies }

@[simp] theorem Node.key_withEdges (node : Node) (children dependencies : List NodeId) :
    (node.withEdges children dependencies).key = node.key := rfl

@[simp] theorem Node.level_withEdges (node : Node) (children dependencies : List NodeId) :
    (node.withEdges children dependencies).level = node.level := rfl

@[simp] theorem Node.dependencies_withEdges (node : Node) (children dependencies : List NodeId) :
    (node.withEdges children dependencies).dependencies = dependencies := rfl

@[simp] theorem Node.withEdges_withEdges (node : Node) (first second third fourth : List NodeId) :
    (node.withEdges first second).withEdges third fourth = node.withEdges third fourth := rfl

@[simp] theorem Node.key_untouched (item : Module) (level : Nat) :
    (Node.untouched item level).key = item.key := rfl

/-- What an import that leads to `child` adds to a table with the given keys: nothing, or a last node
one level below the importing one. -/
structure Arrival (keys : List Key) (name : String) (resolution : Resolution) (level child : Nat)
    (newer : List Node) : Prop where
  distinct : keys.Nodup → (keys ++ newer.map Node.key).Nodup
  leads : (keys ++ newer.map Node.key)[child]? = some (moduleFor name resolution).key
  new : ∀ item ∈ newer, item = .untouched (moduleFor name resolution) level
  last : ∀ index < newer.length, keys.length + index = child

variable {answers : String → Resolution → Prop} {graph : Graph} {id : Nat} {done : List String}
  {node : Node} {more : List Node} {name : String} {resolution : Resolution}

theorem link_of_created {larger : Graph} {child : Nat} (id : Nat)
    (created : graph.getOrCreate (moduleFor name resolution) ((graph.node id).level + 1) =
      (larger,child)) :
    graph.link id name resolution = (larger.update id (larger.addEdge child name),
      if (graph.lookup? name resolution.path?).isSome then none else some child) := by
  simp only [moduleFor] at created
  rw [link,created]

theorem link_eq (name : String) (resolution : Resolution) (inside : id < graph.size)
    (indexed : graph.Indexed) (known : ∀ other ∈ (graph.node id).children, other < graph.size) :
    ∃ children child newer, Arrival graph.keys name resolution ((graph.node id).level + 1) child newer ∧
      (children = if (graph.node id).children.any fun other => (graph.node other).name == name
        then (graph.node id).children else (graph.node id).children ++ [child]) ∧
      (graph.link id name resolution).1 = graph.put id ((graph.node id).withEdges children
        ((graph.node id).dependencies ++ [child])) newer ∧
      (graph.link id name resolution).2.toList = List.range' graph.size newer.length := by
  cases found : graph.lookup? name resolution.path? with
  | some child =>
    have linked := link_of_created id (getOrCreate_known (moduleFor name resolution) _ found)
    rw [update_eq_put inside,found] at linked
    rw [linked]
    refine ⟨_,child,[],⟨?_,?_,by simp,by simp⟩,rfl,rfl,by simp⟩
    · simp
    · simpa [moduleFor,Module.key] using (lookup?_eq_some_iff indexed).mp found
  | none =>
    let fresh := Node.untouched (moduleFor name resolution) ((graph.node id).level + 1)
    have absent : fresh.key ∉ graph.keys := (lookup?_eq_none_iff indexed).mp found
    have linked := link_of_created id (getOrCreate_new (moduleFor name resolution) _ found inside)
    rw [update_eq_put (by rw [size_put]; omega),node_put_self inside,put_put inside,found] at linked
    rw [linked]
    have same : ((graph.node id).children.any fun other =>
        ((graph.put id (graph.node id) [fresh]).node other).name == name) =
        (graph.node id).children.any fun other => (graph.node other).name == name := by
      rw [Bool.eq_iff_iff,List.any_eq_true,List.any_eq_true]
      apply exists_congr
      intro other
      apply and_congr_right
      intro member
      rw [node_put_same (known other member)]
    refine ⟨_,graph.size,[fresh],⟨?_,?_,by simp [fresh],by simp⟩,by rw [← same],rfl,by simp⟩
    · intro distinct
      rw [List.map_singleton,← List.concat_eq_append]
      exact distinct.concat absent
    · simp [← length_keys,fresh]

@[simp] theorem rootModule_link : (graph.link id name resolution).1.rootModule = graph.rootModule := by
  simp only [link,getOrCreate]
  split <;> rfl

/-- The edge for an import: some answer that the name may get leads to the node. -/
def Leads (answers : String → Resolution → Prop) (graph : Graph) (name : String) (child : Nat) :
    Prop :=
  ∃ resolution, answers name resolution ∧
    graph.keys[child]? = some (moduleFor name resolution).key

theorem Leads.mono {larger : Graph} {child : Nat} (grown : graph.keys <+: larger.keys)
    (leads : Leads answers graph name child) : Leads answers larger name child := by
  obtain ⟨resolution,answer,found⟩ := leads
  obtain ⟨rest,same⟩ := grown
  have bound := (List.getElem?_eq_some_iff.mp found).1
  exact ⟨resolution,answer,by rw [← same,List.getElem?_append_left bound,found]⟩

theorem Leads.named {child : Nat} (leads : Leads answers graph name child) :
    child < graph.size ∧ (graph.node child).name = name := by
  obtain ⟨resolution,-,found⟩ := leads
  have inside := lt_size_of_getElem?_keys found
  rw [getElem?_keys inside] at found
  exact ⟨inside,congrArg Key.name (Option.some.inj found)⟩

/-- Of the edges for some names, those for the names that have not occurred before. -/
def firstEdges (seen : List String) : List String → List NodeId → List NodeId
  | name :: names, edge :: edges =>
    if name ∈ seen then firstEdges seen names edges
    else edge :: firstEdges (name :: seen) names edges
  | _, _ => []

section FirstEdges

variable {seen names : List String} {edges : List NodeId}

theorem firstEdges_sublist : (firstEdges seen names edges).Sublist edges := by
  induction names generalizing seen edges with
  | nil => exact List.nil_sublist _
  | cons name names ih =>
    cases edges with
    | nil => exact List.nil_sublist _
    | cons edge edges =>
      rw [firstEdges]
      split
      · exact ih.cons edge
      · exact ih.cons_cons edge

theorem firstEdges_concat (edge : NodeId) (same : names.length = edges.length) :
    firstEdges seen (names ++ [name]) (edges ++ [edge]) =
      firstEdges seen names edges ++ if name ∈ seen ++ names then [] else [edge] := by
  induction names generalizing seen edges with
  | nil =>
    obtain rfl := List.length_eq_zero_iff.mp same.symm
    simp [firstEdges]
  | cons first names ih =>
    obtain ⟨other,edges,rfl⟩ := List.exists_cons_of_length_eq_add_one same.symm
    have rest : names.length = edges.length := Nat.succ.inj same
    rw [List.cons_append,List.cons_append,firstEdges,firstEdges]
    by_cases known : first ∈ seen
    · have either : name ∈ seen ++ first :: names ↔ name ∈ seen ++ names := by
        simp only [List.mem_append,List.mem_cons]
        constructor
        · rintro (old | rfl | new)
          · exact .inl old
          · exact .inl known
          · exact .inr new
        · exact Or.imp_right .inr
      rw [if_pos known,if_pos known,ih rest]
      simp only [either]
    · have either : name ∈ seen ++ first :: names ↔ name ∈ first :: seen ++ names := by
        simp only [List.mem_append,List.mem_cons]
        tauto
      rw [if_neg known,if_neg known,ih rest]
      simp only [either,List.cons_append]

/-- Every name has an edge among those for its first occurrence. -/
theorem mem_firstEdges {leads : String → NodeId → Prop} (related : List.Forall₂ leads names edges)
    (named : name ∈ names) (new : name ∉ seen) : ∃ edge ∈ firstEdges seen names edges, leads name edge := by
  induction related generalizing seen with
  | nil => cases named
  | @cons first edge names edges here rest ih =>
    rw [firstEdges]
    by_cases same : name = first
    · subst same
      rw [if_neg new]
      exact ⟨edge,List.mem_cons_self,here⟩
    · have later := (List.mem_cons.mp named).resolve_left same
      split
      · exact ih later new
      · have unseen : name ∉ first :: seen := by simp [same,new]
        obtain ⟨other,member,related⟩ := ih later unseen
        exact ⟨other,List.mem_cons_of_mem _ member,related⟩

/-- A name has an edge among the first ones as soon as it is one of the names. -/
theorem any_firstEdges (related : List.Forall₂ (Leads answers graph) names edges) :
    ((firstEdges [] names edges).any fun other => (graph.node other).name == name) =
      decide (name ∈ names) := by
  rw [Bool.eq_iff_iff,List.any_eq_true,decide_eq_true_iff]
  constructor
  · rintro ⟨other,member,same⟩
    obtain ⟨place,bound,rfl⟩ := List.mem_iff_getElem.mp (firstEdges_sublist.subset member)
    have within : place < names.length := by rwa [related.length_eq]
    have leads := (related.get within bound).named.2
    rw [List.get_eq_getElem] at leads
    rw [← beq_iff_eq.mp same,leads]
    exact List.getElem_mem within
  · intro named
    obtain ⟨other,member,leads⟩ := mem_firstEdges related named List.not_mem_nil
    exact ⟨other,member,beq_iff_eq.mpr leads.named.2⟩

end FirstEdges

/-- How far the imports of a node are resolved: `done` are the names so far, `node` is the node with
its edges, and `more` are the modules that were new. -/
structure Linking (answers : String → Resolution → Prop) (graph : Graph) (id : Nat)
    (done : List String) (node : Node) (more : List Node) : Prop where
  distinct : (graph.put id node more).keys.Nodup
  edges : List.Forall₂ (Leads answers (graph.put id node more)) done node.dependencies
  children : node.children = firstEdges [] done node.dependencies
  new : ∀ item ∈ more, ∃ name ∈ done, ∃ resolution, answers name resolution ∧
    item = .untouched (moduleFor name resolution) (node.level + 1)
  used : ∀ index < more.length, graph.size + index ∈ node.dependencies

theorem Linking.resolved (linking : Linking answers graph id done node more) :
    Linking answers graph id done { node with resolved := true } more := by
  have keys : (graph.put id { node with resolved := true } more).keys =
      (graph.put id node more).keys := by
    simp [Graph.keys,put,List.map_set,Node.key]
  refine ⟨by rw [keys]; exact linking.distinct,?_,linking.children,linking.new,linking.used⟩
  exact linking.edges.imp fun name child old => old.mono (keys ▸ List.prefix_rfl)

theorem Linking.step (linking : Linking answers graph id done node more) (inside : id < graph.size)
    (indexed : graph.Indexed) (same : node.key = (graph.node id).key)
    (answer : answers name resolution) :
    ∃ children dependencies newer,
      ((graph.put id node more).link id name resolution).1 =
        graph.put id (node.withEdges children dependencies) (more ++ newer) ∧
      ((graph.put id node more).link id name resolution).2.toList =
        List.range' (graph.size + more.length) newer.length ∧
      Linking answers graph id (done ++ [name]) (node.withEdges children dependencies)
        (more ++ newer) := by
  have within : id < (graph.put id node more).size := by rw [size_put]; omega
  have self : (graph.put id node more).node id = node := node_put_self inside
  have known : ∀ other ∈ ((graph.put id node more).node id).children,
      other < (graph.put id node more).size := by
    intro other member
    rw [self,linking.children] at member
    obtain ⟨place,bound,rfl⟩ := List.mem_iff_getElem.mp (firstEdges_sublist.subset member)
    have among : place < done.length := by rwa [linking.edges.length_eq]
    exact (linking.edges.get among bound).named.1
  obtain ⟨children,child,newer,arrival,edge,table,added⟩ :=
    link_eq name resolution within (indexed.put same linking.distinct) known
  rw [self] at arrival edge table
  rw [linking.children,any_firstEdges linking.edges] at edge
  rw [put_put inside] at table
  rw [size_put] at added
  have old : (graph.put id node more).keys = graph.keys ++ more.map Node.key := keys_put same
  have keys : (graph.put id (node.withEdges children (node.dependencies ++ [child]))
      (more ++ newer)).keys = (graph.put id node more).keys ++ newer.map Node.key := by
    rw [old,keys_put (by simpa using same),List.map_append,List.append_assoc]
  refine ⟨children,_,newer,table,added,?_,?_,?_,?_,?_⟩
  · rw [keys]
    exact arrival.distinct linking.distinct
  · refine List.rel_append (linking.edges.imp fun name child old => ?_) (.cons ?_ .nil)
    · exact old.mono (by rw [keys]; exact List.prefix_append _ _)
    · exact ⟨resolution,answer,by rw [keys]; exact arrival.leads⟩
  · have next : children = firstEdges [] (done ++ [name]) (node.dependencies ++ [child]) := by
      rw [firstEdges_concat child linking.edges.length_eq,List.nil_append,edge]
      by_cases old : name ∈ done <;> simp [old]
    exact next
  · intro item member
    rcases List.mem_append.mp member with old | new
    · obtain ⟨name,named,rest⟩ := linking.new item old
      exact ⟨name,List.mem_append_left _ named,rest⟩
    · exact ⟨name,by simp,resolution,answer,arrival.new item new⟩
  · intro index bound
    rw [List.length_append] at bound
    rw [Node.dependencies_withEdges]
    by_cases old : index < more.length
    · exact List.mem_append_left _ (linking.used index old)
    · have last := arrival.last (index - more.length) (by omega)
      rw [length_keys,size_put] at last
      exact List.mem_append_right _ (by simp; omega)

end LoadMap.Graph
