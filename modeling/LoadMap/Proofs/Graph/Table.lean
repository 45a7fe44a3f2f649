import LoadMap.Graph.Build
import Mathlib.Data.List.Forall2
import Mathlib.Data.List.Nodup

/-! The table of nodes and its index: what looking up, adding and replacing a node does to them. A key
stands in the table at most once, where the index says, and the keys that it has stay where they are. -/
namespace LoadMap.Graph

theorem Node.key_toModule (node : Node) : node.toModule.key = node.key := rfl

def Node.untouched (item : Module) (level : Nat) : Node := { toModule := item, level }

def keys (graph : Graph) : List Key := graph.nodes.map Node.key

/-- The index when nodes with some keys are added behind a table of the given size. -/
def enter (index : List (Key × NodeId)) (size : Nat) (keys : List Key) : List (Key × NodeId) :=
  (keys.zipIdx size).reverse ++ index

/-- The table with another node at one place and more nodes behind. -/
def put (graph : Graph) (id : NodeId) (node : Node) (more : List Node) : Graph :=
  { graph with
    nodes := graph.nodes.set id node ++ more
    index := enter graph.index graph.size (more.map Node.key) }

/-- An index finds each of some keys where it stands, and no other key. -/
def Locates (index : List (Key × NodeId)) (keys : List Key) : Prop :=
  ∀ key id, index.lookup key = some id ↔ keys[id]? = some key

def Indexed (graph : Graph) : Prop := Locates graph.index graph.keys

variable {graph : Graph} {id : Nat} {node : Node} {more : List Node}

@[simp] theorem length_keys : graph.keys.length = graph.size := by simp [keys,size]

theorem node_eq (inside : id < graph.nodes.length) : graph.node id = graph.nodes[id] := by
  simp [Graph.node,List.getElem?_eq_getElem inside]

theorem getElem?_nodes (inside : id < graph.size) : graph.nodes[id]? = some (graph.node id) := by
  have bound : id < graph.nodes.length := inside
  rw [List.getElem?_eq_getElem bound,node_eq bound]

theorem getElem?_keys (inside : id < graph.size) : graph.keys[id]? = some (graph.node id).key := by
  simp [keys,List.getElem?_map,getElem?_nodes inside]

theorem lt_size_of_getElem?_keys {key : Key} (found : graph.keys[id]? = some key) :
    id < graph.size := by
  have bound := (List.getElem?_eq_some_iff.mp found).1
  rwa [length_keys] at bound

theorem mem_nodes_iff : node ∈ graph.nodes ↔ ∃ id < graph.size, graph.node id = node := by
  constructor
  · intro member
    obtain ⟨id,inside,same⟩ := List.mem_iff_getElem.mp member
    exact ⟨id,inside,(node_eq inside).trans same⟩
  · rintro ⟨id,inside,rfl⟩
    rw [node_eq inside]
    exact List.getElem_mem inside

theorem eq_of_key_eq (distinct : graph.keys.Nodup) {left right : Nat} (leftIn : left < graph.size)
    (rightIn : right < graph.size) (same : (graph.node left).key = (graph.node right).key) :
    left = right := by
  have found := getElem?_keys leftIn
  rw [same,← getElem?_keys rightIn] at found
  exact (List.getElem?_inj (by rwa [length_keys]) distinct).mp found

@[simp] theorem size_put : (graph.put id node more).size = graph.size + more.length := by
  simp [put,size]

@[simp] theorem rootModule_put : (graph.put id node more).rootModule = graph.rootModule := rfl

theorem node_put_self (inside : id < graph.size) : (graph.put id node more).node id = node := by
  have bound : id < graph.nodes.length := inside
  simp [put,Graph.node,List.getElem?_append_left,bound]

theorem node_put_of_ne {other : Nat} (inside : other < graph.size) (apart : other ≠ id) :
    (graph.put id node more).node other = graph.node other := by
  have bound : other < graph.nodes.length := inside
  simp [put,Graph.node,List.getElem?_append_left,bound,List.getElem_set_ne apart.symm]

theorem node_put_new {index : Nat} (bound : index < more.length) :
    (graph.put id node more).node (graph.size + index) = more[index] := by
  simp [put,Graph.node,size,bound]

theorem node_put_cases {other : Nat} (inside : other < (graph.put id node more).size) :
    other = id ∨ (other ≠ id ∧ other < graph.size) ∨
      graph.size ≤ other ∧ (graph.put id node more).node other ∈ more := by
  rw [size_put] at inside
  by_cases same : other = id
  · exact .inl same
  · by_cases old : other < graph.size
    · exact .inr (.inl ⟨same,old⟩)
    · obtain ⟨index,rfl⟩ := Nat.exists_eq_add_of_le (Nat.le_of_not_lt old)
      have bound : index < more.length := by omega
      refine .inr (.inr ⟨by omega,?_⟩)
      rw [node_put_new bound]
      exact List.getElem_mem _

theorem keys_set {nodes : List Node} (same : node.key = (nodes.getD id default).key) :
    (nodes.set id node).map Node.key = nodes.map Node.key := by
  rw [List.map_set,same]
  by_cases inside : id < nodes.length
  · have bound : id < (nodes.map Node.key).length := by simpa using inside
    have key : (nodes.getD id default).key = (nodes.map Node.key)[id] := by simp [inside]
    rw [key,List.set_getElem_self]
  · rw [List.set_eq_of_length_le (by simpa using inside)]

theorem keys_put (same : node.key = (graph.node id).key) :
    (graph.put id node more).keys = graph.keys ++ more.map Node.key := by
  rw [keys,put,List.map_append,keys_set same,keys]

theorem enter_enter (index : List (Key × NodeId)) (size : Nat) (keys others : List Key) :
    enter (enter index size keys) (size + keys.length) others = enter index size (keys ++ others) := by
  simp [enter,List.zipIdx_append]

theorem put_put {later : Node} {others : List Node} (inside : id < graph.size) :
    (graph.put id node more).put id later others = graph.put id later (more ++ others) := by
  have bound : id < graph.nodes.length := inside
  have index := enter_enter graph.index graph.size (more.map Node.key) (others.map Node.key)
  rw [List.length_map] at index
  unfold put
  congr 1
  · simp [bound]
  · simpa [size] using index

theorem update_eq_put {change : Node → Node} (inside : id < graph.size) :
    graph.update id change = graph.put id (change (graph.node id)) [] := by
  have bound : id < graph.nodes.length := inside
  simp only [update,put,List.append_nil,node_eq bound]
  rw [List.modify_eq_set_getElem?]
  simp [List.getElem?_eq_getElem bound,enter]

theorem Locates.cons {index : List (Key × NodeId)} {keys : List Key} {key : Key}
    (locates : Locates index keys) (new : key ∉ keys) :
    Locates ((key,keys.length) :: index) (keys ++ [key]) := by
  intro other id
  by_cases same : other = key
  · subst same
    rw [List.lookup_cons_self,Option.some.injEq]
    constructor
    · rintro rfl
      rw [List.getElem?_concat_length]
    · intro found
      have bound := (List.getElem?_eq_some_iff.mp found).1
      rw [List.length_append,List.length_singleton] at bound
      by_cases inside : id < keys.length
      · rw [List.getElem?_append_left inside] at found
        exact absurd (List.mem_of_getElem? found) new
      · exact Nat.le_antisymm (Nat.le_of_not_lt inside) (Nat.le_of_lt_succ bound)
  · have differs : (other == key) = false := beq_eq_false_iff_ne.mpr same
    rw [List.lookup_cons,differs]
    refine (locates other id).trans ?_
    constructor
    · intro found
      rw [List.getElem?_append_left (List.getElem?_eq_some_iff.mp found).1,found]
    · intro found
      by_cases inside : id < keys.length
      · rwa [List.getElem?_append_left inside] at found
      · rw [List.getElem?_append_right (Nat.le_of_not_lt inside),List.getElem?_singleton] at found
        split at found
        · exact absurd (Option.some.inj found).symm same
        · cases found

theorem Locates.enter {index : List (Key × NodeId)} {keys more : List Key}
    (locates : Locates index keys) (distinct : (keys ++ more).Nodup) :
    Locates (enter index keys.length more) (keys ++ more) := by
  induction more generalizing index keys with
  | nil => simpa [Graph.enter] using locates
  | cons key more ih =>
    have new : key ∉ keys := fun known =>
      (List.nodup_append.mp distinct).2.2 key known key List.mem_cons_self rfl
    have split : keys ++ key :: more = (keys ++ [key]) ++ more := by simp
    rw [split] at distinct ⊢
    have next := ih (locates.cons new) distinct
    rw [List.length_append,List.length_singleton] at next
    simpa [Graph.enter] using next

theorem Locates.nodup {index : List (Key × NodeId)} {keys : List Key}
    (locates : Locates index keys) : keys.Nodup := by
  rw [List.nodup_iff_getElem?_ne_getElem?]
  intro i j before bound same
  have found := (locates _ j).mpr (List.getElem?_eq_getElem bound)
  have other := (locates _ i).mpr (same.trans (List.getElem?_eq_getElem bound))
  rw [found] at other
  exact Nat.ne_of_gt before (Option.some.inj other)

theorem Indexed.distinct (indexed : graph.Indexed) : graph.keys.Nodup := indexed.nodup

theorem indexed_ofRoot {rootModule : RootModule} {maxDepth : Nat} :
    (ofRoot rootModule maxDepth).Indexed := by
  have empty : Locates [] [] := by
    intro key id
    simp
  exact empty.cons List.not_mem_nil

/-- Nodes with new keys that are put behind the table are found where they stand. -/
theorem Indexed.put (indexed : graph.Indexed) (same : node.key = (graph.node id).key)
    (distinct : (graph.put id node more).keys.Nodup) : (graph.put id node more).Indexed := by
  unfold Indexed
  rw [keys_put same] at distinct ⊢
  have entered := indexed.enter distinct
  rwa [length_keys] at entered

theorem lookup?_eq_some_iff {name : String} {path? : Option Path} {child : Nat}
    (indexed : graph.Indexed) :
    graph.lookup? name path? = some child ↔
      graph.keys[child]? = some { name, place := placeOf path? } :=
  indexed _ _

theorem lookup?_eq_none_iff {name : String} {path? : Option Path} (indexed : graph.Indexed) :
    graph.lookup? name path? = none ↔ { name, place := placeOf path? } ∉ graph.keys := by
  rw [Option.eq_none_iff_forall_ne_some,List.mem_iff_getElem?,not_exists]
  exact forall_congr' fun child => not_congr (lookup?_eq_some_iff indexed)

section GetOrCreate

variable (item : Module) (level : Nat)

theorem getOrCreate_known {child : Nat} (found : graph.lookup? item.name item.path? = some child) :
    graph.getOrCreate item level = (graph,child) := by
  simp only [getOrCreate,found]

theorem getOrCreate_new (absent : graph.lookup? item.name item.path? = none)
    (inside : id < graph.size) :
    graph.getOrCreate item level =
      (graph.put id (graph.node id) [.untouched item level],graph.size) := by
  have bound : id < graph.nodes.length := inside
  simp [getOrCreate,absent,put,enter,node_eq bound,Node.untouched,Node.key,Module.key]

theorem node_put_same {other : Nat} (known : other < graph.size) :
    (graph.put id (graph.node id) more).node other = graph.node other := by
  by_cases same : other = id
  · subst same
    exact node_put_self known
  · exact node_put_of_ne known same

end GetOrCreate

end LoadMap.Graph
