import LoadMap.Graph.Walk
import LoadMap.Proofs.Graph.Table
import LoadMap.Proofs.Tree

/-! How a graph unfolds into trees: a recursive walk marks the file of each module that it comes to, and
goes on below the module if the mark is new. The trees can be told without marks: an occurrence has
branches if its file occurs for the first time, and there is one tree only of which that is true. -/
namespace LoadMap.Graph

variable {edges : Node → List NodeId} {graph : Graph}

def placeAt (graph : Graph) (id : NodeId) : Place := placeOf (graph.node id).path?

def withVisited (graph : Graph) (visited : List Place) : Graph := { graph with visited }

@[simp] theorem node_withVisited (visited : List Place) (id : NodeId) :
    (graph.withVisited visited).node id = graph.node id := rfl

theorem mark_known_place {visited : List Place} {id : NodeId} (known : graph.placeAt id ∈ visited) :
    (graph.withVisited visited).mark id = (graph.withVisited visited,false) := if_pos known

theorem mark_new_place {visited : List Place} {id : NodeId} (new : graph.placeAt id ∉ visited) :
    (graph.withVisited visited).mark id = (graph.withVisited (graph.placeAt id :: visited),true) :=
  if_neg new

/-- The walk through modules in their order: the files marked before, the modules, their trees, and the
files marked after. -/
inductive Unfolds (edges : Node → List NodeId) (graph : Graph) :
    List Place → List NodeId → List (Tree NodeId) → List Place → Prop
  | nil {visited : List Place} : Unfolds edges graph visited [] [] visited
  | known {visited last : List Place} {id : NodeId} {ids : List NodeId} {trees : List (Tree NodeId)}
      (known : graph.placeAt id ∈ visited) (rest : Unfolds edges graph visited ids trees last) :
      Unfolds edges graph visited (id :: ids) (.node id [] :: trees) last
  | new {visited middle last : List Place} {id : NodeId} {ids : List NodeId}
      {branches trees : List (Tree NodeId)} (new : graph.placeAt id ∉ visited)
      (below : Unfolds edges graph (graph.placeAt id :: visited) (edges (graph.node id)) branches middle)
      (rest : Unfolds edges graph middle ids trees last) :
      Unfolds edges graph visited (id :: ids) (.node id branches :: trees) last

variable {visited last : List Place} {ids : List NodeId} {trees : List (Tree NodeId)}

theorem Unfolds.unmarked_le (unfolds : Unfolds edges graph visited ids trees last) :
    (graph.withVisited last).unmarked ≤ (graph.withVisited visited).unmarked := by
  induction unfolds with
  | nil => exact Nat.le_refl _
  | known _ _ rest => exact rest
  | @new visited middle last id ids branches trees new _ _ below rest =>
    have fewer : (graph.withVisited (graph.placeAt id :: visited)).unmarked <
        (graph.withVisited visited).unmarked := countP_mark (graph.place_mem id) new
    exact Nat.le_trans rest (Nat.le_trans below (Nat.le_of_lt fewer))

/-- The walk comes to an end on every graph, since there are only so many files to mark. -/
theorem unfolds_total (edges : Node → List NodeId) (graph : Graph) (visited : List Place)
    (ids : List NodeId) : ∃ trees last, Unfolds edges graph visited ids trees last := by
  induction size : (graph.withVisited visited).unmarked using Nat.strongRecOn
    generalizing visited ids with
  | ind bound ih =>
    induction ids generalizing visited with
    | nil => exact ⟨_,_,.nil⟩
    | cons id ids next =>
      by_cases known : graph.placeAt id ∈ visited
      · obtain ⟨trees,last,rest⟩ := next visited size
        exact ⟨_,_,.known known rest⟩
      · have fewer : (graph.withVisited (graph.placeAt id :: visited)).unmarked < bound :=
          size ▸ countP_mark (graph.place_mem id) known
        obtain ⟨branches,middle,below⟩ := ih _ fewer _ (edges (graph.node id)) rfl
        have still := Nat.lt_of_le_of_lt below.unmarked_le fewer
        obtain ⟨trees,last,rest⟩ := ih _ still middle ids rfl
        exact ⟨_,_,.new known below rest⟩

/-- Of some occurrences, the first one of each file has a branch for every edge of its module, in the
order of the edges, and the others have none; for files in `seen` the first one has gone before. -/
def FirstUnfolded (edges : Node → List NodeId) (graph : Graph) (seen : List Place)
    (occurrences : List (Tree NodeId)) : Prop :=
  ∀ earlier here later, occurrences = earlier ++ here :: later →
    here.branches.map Tree.value =
      if graph.placeAt here.value ∈ seen ++ earlier.map (graph.placeAt ·.value) then []
      else edges (graph.node here.value)

section FirstUnfolded

variable {seen others : List Place} {here : Tree NodeId} {first second : List (Tree NodeId)}

theorem firstUnfolded_nil : FirstUnfolded edges graph seen [] := by
  intro earlier here later split
  exact absurd split (by simp)

theorem FirstUnfolded.congr (same : ∀ place, place ∈ seen ↔ place ∈ others) :
    FirstUnfolded edges graph seen first ↔ FirstUnfolded edges graph others first := by
  unfold FirstUnfolded
  simp only [List.mem_append,same]

theorem firstUnfolded_append :
    FirstUnfolded edges graph seen (first ++ second) ↔ FirstUnfolded edges graph seen first ∧
      FirstUnfolded edges graph (seen ++ first.map (graph.placeAt ·.value)) second := by
  constructor
  · intro whole
    constructor
    · intro earlier here later split
      exact whole earlier here (later ++ second) (by rw [split]; simp)
    · intro earlier here later split
      have law := whole (first ++ earlier) here later (by rw [split]; simp)
      simpa only [List.map_append,List.append_assoc] using law
  · rintro ⟨left,right⟩ earlier here later split
    rcases List.append_eq_append_iff.mp split with ⟨middle,rfl,rest⟩ | ⟨middle,rfl,rest⟩
    · have law := right middle here later rest
      simpa only [List.map_append,List.append_assoc] using law
    · cases middle with
      | nil =>
        have law := right [] here later (by simpa using rest.symm)
        simpa using law
      | cons item middle =>
        obtain ⟨rfl,-⟩ := List.cons.inj rest
        exact left earlier here middle rfl

theorem firstUnfolded_cons :
    FirstUnfolded edges graph seen (here :: second) ↔
      here.branches.map Tree.value =
        (if graph.placeAt here.value ∈ seen then [] else edges (graph.node here.value)) ∧
      FirstUnfolded edges graph (graph.placeAt here.value :: seen) second := by
  have split := @firstUnfolded_append edges graph seen [here] second
  rw [List.singleton_append] at split
  refine split.trans (and_congr ?_ (FirstUnfolded.congr (by simp [or_comm])))
  constructor
  · intro alone
    have law := alone [] here [] rfl
    simpa using law
  · intro law earlier other later same
    obtain ⟨rfl,rfl,rfl⟩ : earlier = [] ∧ other = here ∧ later = [] := by
      cases earlier with
      | nil =>
        obtain ⟨rfl,rest⟩ := List.cons.inj same
        exact ⟨rfl,rfl,rest.symm⟩
      | cons _ earlier =>
        obtain ⟨-,rest⟩ := List.cons.inj same
        exact absurd rest (by simp)
    simpa using law

instance decidableFirstUnfolded (seen : List Place) :
    (occurrences : List (Tree NodeId)) → Decidable (FirstUnfolded edges graph seen occurrences)
  | [] => isTrue firstUnfolded_nil
  | here :: rest =>
    have := decidableFirstUnfolded (graph.placeAt here.value :: seen) rest
    decidable_of_iff _ firstUnfolded_cons.symm

end FirstUnfolded

section Law

open LoadMap.Tree (occurrencesAll)

/-- The files marked by a walk are those of its occurrences, and it unfolds the first one of each. -/
theorem Unfolds.law (unfolds : Unfolds edges graph visited ids trees last) :
    trees.map Tree.value = ids ∧ FirstUnfolded edges graph visited (occurrencesAll trees) ∧
      ∀ place, place ∈ last ↔
        place ∈ visited ++ (occurrencesAll trees).map (graph.placeAt ·.value) := by
  induction unfolds with
  | nil => exact ⟨rfl,firstUnfolded_nil,by simp [occurrencesAll]⟩
  | @known visited last id ids trees known _ rest =>
    obtain ⟨values,law,marks⟩ := rest
    have here : occurrencesAll (.node id [] :: trees) = .node id [] :: occurrencesAll trees := rfl
    rw [here,firstUnfolded_cons]
    refine ⟨congrArg (id :: ·) values,⟨(if_pos known).symm,?_⟩,fun place => ?_⟩
    · refine (FirstUnfolded.congr fun place => ?_).mp law
      simp only [Tree.value,List.mem_cons,iff_or_self]
      rintro rfl
      exact known
    · rw [marks place]
      simp only [List.mem_append,List.map_cons,List.mem_cons,Tree.value]
      constructor
      · exact Or.imp_right .inr
      · rintro (old | rfl | later)
        · exact .inl old
        · exact .inl known
        · exact .inr later
  | @new visited middle last id ids branches trees new _ _ below rest =>
    obtain ⟨children,inner,between⟩ := below
    obtain ⟨values,law,marks⟩ := rest
    have here : occurrencesAll (.node id branches :: trees) =
      .node id branches :: (occurrencesAll branches ++ occurrencesAll trees) := rfl
    rw [here,firstUnfolded_cons,firstUnfolded_append]
    refine ⟨congrArg (id :: ·) values,⟨?_,inner,?_⟩,fun place => ?_⟩
    · exact children.trans (if_neg new).symm
    · exact (FirstUnfolded.congr between).mp law
    · rw [marks place,List.mem_append,between place]
      simp only [Tree.value,List.mem_append,List.map_append,List.map_cons,List.mem_cons]
      tauto

mutual
/-- The law leaves no choice: two trees for the same module, with whatever comes after them. -/
theorem tree_unique {seen : List Place} {left right : Tree NodeId} {after behind : List (Tree NodeId)}
    (same : left.value = right.value)
    (first : FirstUnfolded edges graph seen (left.occurrences ++ after))
    (second : FirstUnfolded edges graph seen (right.occurrences ++ behind)) : left = right := by
  obtain ⟨id,branches⟩ := left
  obtain ⟨other,boughs⟩ := right
  have root : id = other := same
  simp only [← root,Tree.occurrences,List.cons_append,firstUnfolded_cons,Tree.value] at first second
  have values : branches.map Tree.value = boughs.map Tree.value := first.1.trans second.1.symm
  rw [root,trees_unique values first.2 second.2]
termination_by structural left

theorem trees_unique {seen : List Place} {left right after behind : List (Tree NodeId)}
    (same : left.map Tree.value = right.map Tree.value)
    (first : FirstUnfolded edges graph seen (occurrencesAll left ++ after))
    (second : FirstUnfolded edges graph seen (occurrencesAll right ++ behind)) : left = right := by
  match left,right with
  | [],[] => rfl
  | [],_ :: _ => cases same
  | _ :: _,[] => cases same
  | tree :: left,other :: right =>
    obtain ⟨here,later⟩ := List.cons.inj same
    simp only [occurrencesAll,List.append_assoc] at first second
    have equal := tree_unique here first second
    rw [← equal,firstUnfolded_append] at second
    rw [firstUnfolded_append] at first
    rw [equal,trees_unique later first.2 second.2]
termination_by structural left
end

def expansions (graph : Graph) (place : Place) (occurrences : List (Tree NodeId)) : Nat :=
  occurrences.countP fun here => !here.branches.isEmpty && graph.placeAt here.value == place

theorem FirstUnfolded.expansions_le {seen : List Place} {occurrences : List (Tree NodeId)} {place : Place}
    (law : FirstUnfolded edges graph seen occurrences) :
    graph.expansions place occurrences ≤ if place ∈ seen then 0 else 1 := by
  induction occurrences generalizing seen with
  | nil => exact Nat.zero_le _
  | cons here rest ih =>
    rw [firstUnfolded_cons] at law
    obtain ⟨branches,later⟩ := law
    have others := ih later
    unfold expansions at others ⊢
    rw [List.countP_cons]
    by_cases hit : graph.placeAt here.value = place
    · subst hit
      rw [if_pos List.mem_cons_self] at others
      split at branches
      case isTrue known =>
        have leaf : here.branches = [] := List.map_eq_nil_iff.mp branches
        simpa [leaf,known] using others
      case isFalse new =>
        rw [if_neg new]
        split <;> omega
    · have apart : (graph.placeAt here.value == place) = false := beq_eq_false_iff_ne.mpr hit
      have same : place ∈ graph.placeAt here.value :: seen ↔ place ∈ seen := by
        rw [List.mem_cons,or_iff_right (Ne.symm hit)]
      simpa only [apart,Bool.and_false,Bool.false_eq_true,if_false,Nat.add_zero,same] using others

/-- The table holds the root, and every edge leads to a node that it holds. -/
structure ValidEdges (edges : Node → List NodeId) (graph : Graph) : Prop where
  root : rootId < graph.size
  edge : ∀ id < graph.size, ∀ child ∈ edges (graph.node id), child < graph.size

theorem Unfolds.inside (valid : ValidEdges edges graph)
    (unfolds : Unfolds edges graph visited ids trees last) (known : ∀ id ∈ ids, id < graph.size) :
    ∀ here ∈ occurrencesAll trees, here.value < graph.size := by
  induction unfolds with
  | nil => simp [occurrencesAll]
  | known _ _ rest =>
    intro here member
    rcases List.mem_cons.mp member with rfl | later
    · exact known _ List.mem_cons_self
    · exact rest (fun id inside => known id (List.mem_cons_of_mem _ inside)) here later
  | new _ _ _ below rest =>
    intro here member
    have first := known _ List.mem_cons_self
    rcases List.mem_cons.mp member with rfl | later
    · exact first
    · rcases List.mem_append.mp later with inner | outer
      · exact below (valid.edge _ first) here inner
      · exact rest (fun id inside => known id (List.mem_cons_of_mem _ inside)) here outer

end Law

end LoadMap.Graph
