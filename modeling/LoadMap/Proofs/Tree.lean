import LoadMap.Tree

/-! The occurrences of a tree: its parts that are trees themselves, in the order of a walk that comes
to every part before it comes to what lies below. -/
namespace LoadMap.Tree

variable {α β : Type}

mutual
def occurrences : Tree α → List (Tree α)
  | node value branches => node value branches :: occurrencesAll branches

def occurrencesAll : List (Tree α) → List (Tree α)
  | [] => []
  | tree :: rest => occurrences tree ++ occurrencesAll rest
end

mutual
/-- How many levels there are. -/
def height : Tree α → Nat
  | node _ branches => heightAll branches + 1

def heightAll : List (Tree α) → Nat
  | [] => 0
  | tree :: rest => max (height tree) (heightAll rest)
end

theorem mapAll_eq (change : α → β) (trees : List (Tree α)) :
    mapAll change trees = trees.map (map change) := by
  induction trees with
  | nil => rfl
  | cons tree rest ih => rw [mapAll,ih,List.map_cons]

mutual
/-- The lines of a tree stand for its occurrences. -/
theorem preorder_occurrences (depth : Nat) (tree : Tree α) :
    (preorder depth tree).map Prod.snd = (occurrences tree).map value := by
  obtain ⟨first,branches⟩ := tree
  have below := preorderAll_occurrencesAll (depth + 1) branches
  simp [preorder,occurrences,value,below]

theorem preorderAll_occurrencesAll (depth : Nat) (trees : List (Tree α)) :
    (preorderAll depth trees).map Prod.snd = (occurrencesAll trees).map value := by
  match trees with
  | [] => rfl
  | tree :: rest =>
    have first := preorder_occurrences depth tree
    have others := preorderAll_occurrencesAll depth rest
    simp [preorderAll,occurrencesAll,first,others]
end

theorem occurrences_eq (tree : Tree α) : tree.occurrences = tree :: occurrencesAll tree.branches := by
  cases tree
  rfl

theorem occurrencesAll_singleton (tree : Tree α) : occurrencesAll [tree] = tree.occurrences :=
  List.append_nil _

theorem mem_occurrences_self (tree : Tree α) : tree ∈ tree.occurrences := by
  rw [occurrences_eq]
  exact List.mem_cons_self

theorem mem_occurrencesAll_iff {here : Tree α} {trees : List (Tree α)} :
    here ∈ occurrencesAll trees ↔ ∃ tree ∈ trees, here ∈ tree.occurrences := by
  induction trees with
  | nil => simp [occurrencesAll]
  | cons tree rest ih => simp [occurrencesAll,ih]

theorem mem_occurrencesAll {tree : Tree α} {trees : List (Tree α)} (member : tree ∈ trees) :
    tree ∈ occurrencesAll trees :=
  mem_occurrencesAll_iff.mpr ⟨tree,member,mem_occurrences_self tree⟩

mutual
/-- What lies below an occurrence occurs as well. -/
theorem occurrences_below {here branch : Tree α} (tree : Tree α) (occurs : here ∈ tree.occurrences)
    (below : branch ∈ here.branches) : branch ∈ tree.occurrences := by
  obtain ⟨first,branches⟩ := tree
  apply List.mem_cons_of_mem
  rcases List.mem_cons.mp occurs with rfl | inside
  · exact mem_occurrencesAll below
  · exact occurrencesAll_below branches inside below

theorem occurrencesAll_below {here branch : Tree α} (trees : List (Tree α))
    (occurs : here ∈ occurrencesAll trees) (below : branch ∈ here.branches) :
    branch ∈ occurrencesAll trees := by
  match trees with
  | [] => cases occurs
  | tree :: rest =>
    apply List.mem_append.mpr
    rcases List.mem_append.mp occurs with first | later
    · exact .inl (occurrences_below tree first below)
    · exact .inr (occurrencesAll_below rest later below)
end

@[simp] theorem value_map (change : α → β) (tree : Tree α) :
    (tree.map change).value = change tree.value := by
  cases tree
  rfl

@[simp] theorem branches_map (change : α → β) (tree : Tree α) :
    (tree.map change).branches = tree.branches.map (map change) := by
  cases tree
  exact mapAll_eq change _

mutual
theorem occurrences_map (change : α → β) (tree : Tree α) :
    (tree.map change).occurrences = tree.occurrences.map (map change) := by
  obtain ⟨first,branches⟩ := tree
  simp [map,occurrences,occurrencesAll_map change branches]

theorem occurrencesAll_map (change : α → β) (trees : List (Tree α)) :
    occurrencesAll (mapAll change trees) = (occurrencesAll trees).map (map change) := by
  match trees with
  | [] => rfl
  | tree :: rest =>
    simp [mapAll,occurrencesAll,occurrences_map change tree,occurrencesAll_map change rest]
end

end LoadMap.Tree
