import LoadMap.Graph.Export
import LoadMap.Proofs.Graph.Unfolding

/-! The walks that print and export a graph. Each works off a stack, and it does what the recursive
walk does: what lies on top of the stack is unfolded to its end before the rest of the stack goes on. -/
namespace LoadMap.Graph

open LoadMap.Tree (mapAll_eq preorderAll occurrencesAll)

variable {graph : Graph} {visited last : List Place} {ids : List NodeId} {trees : List (Tree NodeId)}

def entryLine (graph : Graph) (entry : Nat × NodeId) : String :=
  line entry.1 (graph.node entry.2).toModule

def moduleTree (graph : Graph) (tree : Tree NodeId) : Tree Module :=
  tree.map fun id => (graph.node id).toModule

/-- What lies on top of the stack is written as the lines of its trees, and then the rest follows. -/
theorem printStack_unfolds (unfolds : Unfolds Node.children graph visited ids trees last)
    (depth : Nat) (stack : List (NodeId × Nat)) :
    (graph.withVisited visited).printStack (ids.map (·,depth) ++ stack) =
      (((graph.withVisited last).printStack stack).1,
        (preorderAll depth trees).map graph.entryLine ++
          ((graph.withVisited last).printStack stack).2) := by
  induction unfolds generalizing depth stack with
  | nil => rfl
  | known known _ rest =>
    rw [List.map_cons,List.cons_append,printStack]
    simp only [mark_known_place known,Bool.false_eq_true,if_false,rest depth stack]
    rfl
  | @new visited middle last id ids branches trees new _ _ below rest =>
    rw [List.map_cons,List.cons_append,printStack]
    have children : (graph.withVisited (graph.placeAt id :: visited)).childEntries id (depth + 1) =
      (graph.node id).children.map (·,depth + 1) := rfl
    simp only [mark_new_place new,if_true,children,below (depth + 1),rest depth stack]
    simp [preorderAll,Tree.preorder,entryLine]

/-- The top of the stack gets the trees of what it has pending. -/
theorem assemble_unfolds (unfolds : Unfolds Node.dependencies graph visited ids trees last)
    (parent : NodeId) (pending : List NodeId) (built : List (Tree Module)) (stack : List Unfolding) :
    (graph.withVisited visited).assemble { id := parent, pending := ids ++ pending, built } stack =
      (graph.withVisited last).assemble
        { id := parent, pending, built := built ++ trees.map graph.moduleTree } stack := by
  induction unfolds generalizing parent pending built stack with
  | nil => simp
  | @known visited last id ids trees known _ rest =>
    have leaf : (graph.withVisited visited).leaf id = graph.moduleTree (.node id []) := rfl
    rw [List.cons_append,assemble]
    simp only [mark_known_place known,Bool.false_eq_true,if_false,rest,leaf]
    simp
  | @new visited middle last id ids branches trees new _ _ below rest =>
    rw [List.cons_append,assemble]
    simp only [mark_new_place new,if_true,node_withVisited]
    have inner := below id [] [] ({ id := parent, pending := ids ++ pending, built } :: stack)
    rw [List.append_nil,assemble] at inner
    rw [inner]
    have tree : Tree.node (graph.node id).toModule (branches.map graph.moduleTree) =
        graph.moduleTree (.node id branches) := by
      simp [moduleTree,Tree.map,mapAll_eq]
    simp only [List.nil_append,node_withVisited,tree,rest]
    simp

theorem print_unfolds (graph : Graph) :
    ∃ trees last, Unfolds Node.children graph [] (graph.node rootId).children trees last ∧
      graph.print = (graph.withVisited last,
        ((Tree.node rootId trees).preorder 0).map graph.entryLine) := by
  obtain ⟨trees,last,unfolds⟩ := unfolds_total Node.children graph [] (graph.node rootId).children
  refine ⟨trees,last,unfolds,?_⟩
  have lines := printStack_unfolds unfolds 1 []
  rw [List.append_nil,printStack,List.append_nil] at lines
  have entries : graph.forgetVisited.childEntries rootId 1 =
    (graph.node rootId).children.map (·,1) := rfl
  rw [print,entries,show graph.forgetVisited = graph.withVisited [] from rfl,lines]
  simp [Tree.preorder,entryLine]

theorem exportTree_unfolds (graph : Graph) :
    ∃ tree last, Unfolds Node.dependencies graph [] [rootId] [tree] last ∧ tree.value = rootId ∧
      graph.exportTree = (graph.withVisited last,
        { root := graph.moduleTree tree, maxDepth := graph.maxDepth }) := by
  have new : graph.placeAt rootId ∉ ([] : List Place) := List.not_mem_nil
  obtain ⟨branches,last,below⟩ := unfolds_total Node.dependencies graph [graph.placeAt rootId]
    (graph.node rootId).dependencies
  refine ⟨.node rootId branches,last,.new new below .nil,rfl,?_⟩
  have tree := assemble_unfolds below rootId [] [] []
  rw [List.append_nil] at tree
  have top : graph.forgetVisited.mark rootId = (graph.withVisited [graph.placeAt rootId],true) :=
    mark_new_place new
  simp only [exportTree,dependencyTree,top,if_true,tree]
  rw [assemble]
  simp [moduleTree,Tree.map,mapAll_eq]

/-- The tree that an export shows: below the first occurrence of each file stands every dependency of
its module, repeated ones included, and below the other occurrences nothing. -/
structure Exported (graph : Graph) (tree : Tree NodeId) : Prop where
  root : tree.value = rootId
  first : FirstUnfolded Node.dependencies graph [] tree.occurrences

theorem Exported.unique {tree other : Tree NodeId} (exported : Exported graph tree)
    (another : Exported graph other) : other = tree := by
  have first := exported.first
  have second := another.first
  rw [← List.append_nil tree.occurrences] at first
  rw [← List.append_nil other.occurrences] at second
  exact tree_unique (another.root.trans exported.root.symm) second first

/-- An export ends, whatever was marked before, and shows this one tree, each of whose occurrences is a
node of the table; no file is unfolded twice. -/
theorem export_characterised (valid : ValidEdges Node.dependencies graph) :
    ∃ tree, Exported graph tree ∧ (∀ other, Exported graph other → other = tree) ∧
      graph.exportTree.2 = { root := graph.moduleTree tree, maxDepth := graph.maxDepth } ∧
      (∀ here ∈ tree.occurrences, here.value < graph.size) ∧
      ∀ place, graph.expansions place tree.occurrences ≤ 1 := by
  obtain ⟨tree,last,unfolds,root,same⟩ := exportTree_unfolds graph
  have alone : occurrencesAll [tree] = tree.occurrences := List.append_nil _
  have first := unfolds.law.2.1
  have inside := unfolds.inside valid (by simpa using valid.root)
  rw [alone] at first inside
  have exported : Exported graph tree := ⟨root,first⟩
  refine ⟨tree,exported,fun other => exported.unique,by rw [same],inside,fun place => ?_⟩
  exact first.expansions_le

/-- Three modules in a knot: the first imports the second twice, the second the first and the third, and
the third the second. -/
def knot : Graph where
  rootModule := .ofPath ⟨"a"⟩ []
  maxDepth := 0
  nodes := [
    { name := "a", path? := some ⟨"a"⟩, strategy := .root, level := 0
      children := [1], dependencies := [1,1], resolved := true },
    { name := "b", path? := some ⟨"b"⟩, strategy := .standardSearch, level := 1
      children := [0,2], dependencies := [0,2], resolved := true },
    { name := "c", path? := some ⟨"c"⟩, strategy := .standardSearch, level := 2
      children := [1], dependencies := [1], resolved := true }]
  index := []
  visited := [placeOf (some ⟨"b"⟩)]

theorem export_characterised_knot :
    ValidEdges Node.dependencies knot ∧ knot.exportTree.2.root =
      knot.moduleTree (.node 0 [.node 1 [.node 0 [],.node 2 [.node 1 []]],.node 1 []]) := by
  have valid : ValidEdges Node.dependencies knot := ⟨by decide,by decide⟩
  obtain ⟨tree,-,unique,same,-⟩ := export_characterised valid
  refine ⟨valid,?_⟩
  rw [same,← unique (.node 0 [.node 1 [.node 0 [],.node 2 [.node 1 []]],.node 1 []])
    ⟨rfl,by decide +kernel⟩]

/-- The tree that is printed: the children of the root stand below it, and below the first occurrence
of each file, the root itself left aside, the children of its module. -/
structure Printed (graph : Graph) (tree : Tree NodeId) : Prop where
  root : tree.value = rootId
  children : tree.branches.map Tree.value = (graph.node rootId).children
  first : FirstUnfolded Node.children graph [] (occurrencesAll tree.branches)

theorem Printed.unique {tree other : Tree NodeId} (printed : Printed graph tree)
    (another : Printed graph other) : other = tree := by
  obtain ⟨id,branches⟩ := tree
  obtain ⟨place,boughs⟩ := other
  have first := printed.first
  have second := another.first
  rw [← List.append_nil (occurrencesAll _)] at first second
  have below := trees_unique (another.children.trans printed.children.symm) second first
  exact congr (congrArg Tree.node (another.root.trans printed.root.symm)) below

/-- Printing ends, whatever was marked before. It writes a line for each occurrence of this one tree,
which is the tree of the recursive walk below the root; no file is unfolded twice, except that of the
root, which may be unfolded once more. -/
theorem print_characterised (valid : ValidEdges Node.children graph) :
    ∃ tree marked, Printed graph tree ∧ (∀ other, Printed graph other → other = tree) ∧
      Unfolds Node.children graph [] (graph.node rootId).children tree.branches marked ∧
      graph.print = (graph.withVisited marked,(tree.preorder 0).map graph.entryLine) ∧
      (tree.preorder 0).map Prod.snd = tree.occurrences.map Tree.value ∧
      (∀ here ∈ tree.occurrences, here.value < graph.size) ∧
      ∀ place, graph.expansions place tree.occurrences ≤
        if place = graph.placeAt rootId then 2 else 1 := by
  obtain ⟨trees,marked,unfolds,same⟩ := print_unfolds graph
  obtain ⟨children,first,-⟩ := unfolds.law
  have printed : Printed graph (.node rootId trees) := ⟨rfl,children,first⟩
  refine ⟨_,marked,printed,fun other => printed.unique,unfolds,same,Tree.preorder_occurrences _ _,
    ?_,fun place => ?_⟩
  · intro here member
    rcases List.mem_cons.mp member with rfl | below
    · exact valid.root
    · exact unfolds.inside valid (valid.edge rootId valid.root) here below
  · have below : graph.expansions place (occurrencesAll trees) ≤ 1 := first.expansions_le
    unfold expansions at below ⊢
    rw [Tree.occurrences,List.countP_cons]
    by_cases top : place = graph.placeAt rootId
    · rw [if_pos top]
      split <;> omega
    · have apart : (graph.placeAt rootId == place) = false := beq_eq_false_iff_ne.mpr (Ne.symm top)
      simpa [top,apart,Tree.value] using below

theorem print_characterised_knot :
    ValidEdges Node.children knot ∧ knot.print.2 = [(0,0),(1,1),(2,0),(3,1),(2,2),(3,1)].map
      knot.entryLine := by
  have valid : ValidEdges Node.children knot := ⟨by decide,by decide⟩
  obtain ⟨tree,marked,-,unique,-,same,-⟩ := print_characterised valid
  refine ⟨valid,?_⟩
  rw [same,← unique (.node 0 [.node 1 [.node 0 [.node 1 []],.node 2 [.node 1 []]]])
    ⟨rfl,rfl,by decide +kernel⟩]
  rfl

end LoadMap.Graph
