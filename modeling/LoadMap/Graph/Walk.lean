import LoadMap.Graph.Basic
import LoadMap.Tree

/-! Walks over a graph. A walk unfolds every file at its first occurrence; the later ones are
leaves. What is still to be done lies on a stack. A walk ends because each of its steps marks a file
or leaves less on the stack. -/
namespace LoadMap.Graph

/-- How many files of the table are not marked. What is not in the table counts as without a file. -/
def unmarked (graph : Graph) : Nat :=
  (none :: graph.nodes.map (placeOf ·.path?)).countP (· ∉ graph.visited)

theorem place_mem (graph : Graph) (id : NodeId) :
    placeOf (graph.node id).path? ∈ none :: graph.nodes.map (placeOf ·.path?) := by
  unfold node
  rw [List.getD_eq_getElem?_getD]
  cases found : graph.nodes[id]? with
  | none => exact List.mem_cons_self
  | some node =>
    exact List.mem_cons_of_mem _ (List.mem_map.mpr ⟨node,List.mem_of_getElem? found,rfl⟩)

theorem countP_mark {places visited : List Place} {place : Place} (member : place ∈ places)
    (fresh : place ∉ visited) :
    places.countP (· ∉ place :: visited) < places.countP (· ∉ visited) := by
  have fewer (others : List Place) :
      others.countP (· ∉ place :: visited) ≤ others.countP (· ∉ visited) := by
    apply List.countP_mono_left
    simp
  obtain ⟨before,after,rfl⟩ := List.append_of_mem member
  have left := fewer before
  have right := fewer after
  rw [List.countP_append,List.countP_append,List.countP_cons_of_neg (by simp),
    List.countP_cons_of_pos (by simpa using fresh)]
  omega

theorem mark_cases (graph : Graph) (id : NodeId) :
    (placeOf (graph.node id).path? ∈ graph.visited ∧ graph.mark id = (graph,false)) ∨
    (placeOf (graph.node id).path? ∉ graph.visited ∧ graph.mark id =
      ({ graph with visited := placeOf (graph.node id).path? :: graph.visited },true)) := by
  unfold mark
  by_cases known : placeOf (graph.node id).path? ∈ graph.visited
  · exact .inl ⟨known,if_pos known⟩
  · exact .inr ⟨known,if_neg known⟩

theorem unmarked_mark {graph : Graph} {id : NodeId} (marked : (graph.mark id).2 = true) :
    (graph.mark id).1.unmarked < graph.unmarked := by
  rcases graph.mark_cases id with ⟨-,same⟩ | ⟨fresh,same⟩
  · rw [same] at marked
    cases marked
  · rw [same]
    exact countP_mark (graph.place_mem id) fresh

theorem mark_known {graph : Graph} {id : NodeId} (marked : ¬ (graph.mark id).2 = true) :
    (graph.mark id).1 = graph := by
  rcases graph.mark_cases id with ⟨-,same⟩ | ⟨-,same⟩
  · rw [same]
  · rw [same] at marked
    exact absurd rfl marked

def line (depth : Nat) (item : Module) : String :=
  String.join (List.replicate depth "|  ") ++ "├ " ++
    s!"{item.name} ({item.strategy.label}) : " ++ (item.path?.map Path.text).getD ""

def childEntries (graph : Graph) (id : NodeId) (depth : Nat) : List (NodeId × Nat) :=
  (graph.node id).children.map (·,depth)

def printStack (graph : Graph) : List (NodeId × Nat) → Graph × List String
  | [] => (graph,[])
  | (id,depth) :: stack =>
    let here := line depth (graph.node id).toModule
    let marked := graph.mark id
    if marked.2 then
      let (graph,lines) := printStack marked.1 (marked.1.childEntries id (depth + 1) ++ stack)
      (graph,here :: lines)
    else
      let (graph,lines) := printStack marked.1 stack
      (graph,here :: lines)
  termination_by stack => (graph.unmarked,stack.length)
  decreasing_by
    · exact Prod.Lex.left _ _ (unmarked_mark ‹_›)
    · rw [mark_known ‹_›]
      exact Prod.Lex.right _ (Nat.lt_succ_self _)

/-- The tree of modules along the children, a line for each occurrence. The file of the root itself
is not marked, so a module that imports the root shows it unfolded once more. -/
def print (graph : Graph) : Graph × List String :=
  let graph := graph.forgetVisited
  let (last,lines) := graph.printStack (graph.childEntries rootId 1)
  (last,line 0 (graph.node rootId).toModule :: lines)

structure Unfolding where
  id : NodeId
  pending : List NodeId
  built : List (Tree Module) := []

def leaf (graph : Graph) (id : NodeId) : Tree Module := .node (graph.node id).toModule []

def assemble (graph : Graph) (frame : Unfolding) (stack : List Unfolding) : Graph × Tree Module :=
  match frame, stack with
  | { id, pending := child :: pending, built }, stack =>
    let marked := graph.mark child
    if marked.2 then
      marked.1.assemble { id := child, pending := (graph.node child).dependencies }
        ({ id, pending, built } :: stack)
    else
      marked.1.assemble { id, pending, built := built ++ [graph.leaf child] } stack
  | { id, pending := [], built }, stack =>
    let tree := Tree.node (graph.node id).toModule built
    match stack with
    | [] => (graph,tree)
    | above :: stack => graph.assemble { above with built := above.built ++ [tree] } stack
  termination_by (graph.unmarked,(frame.pending ++ stack.flatMap (·.pending)).length + stack.length)
  decreasing_by
    · exact Prod.Lex.left _ _ (unmarked_mark ‹_›)
    · rw [mark_known ‹_›]
      apply Prod.Lex.right
      simp
    · apply Prod.Lex.right
      simp

def dependencyTree (graph : Graph) : Graph × Tree Module :=
  let marked := graph.forgetVisited.mark rootId
  let pending := if marked.2 then (graph.node rootId).dependencies else []
  marked.1.assemble { id := rootId, pending } []

end LoadMap.Graph
