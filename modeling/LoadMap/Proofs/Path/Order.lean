import LoadMap.Path
import Mathlib.Order.Compare

/-! Paths are in a linear order, as far as their components tell them apart. Sorting them gives one answer. -/
namespace LoadMap.Path

open Component (compare.rank)

namespace Component

/-- Only names differ within their kind. -/
def spelled : Component → String
  | .name text => text
  | _ => ""

theorem compare_eq : Component.compare = compareLex (compareOn compare.rank) (compareOn spelled) := by
  funext left right
  cases left <;> cases right <;> rfl

instance : Std.TransCmp Component.compare := by
  rw [compare_eq]
  infer_instance

theorem eq_of_rank {left right : Component} (kind : compare.rank left = compare.rank right)
    (text : left.spelled = right.spelled) : left = right := by
  cases left <;> cases right <;> simp_all [compare.rank,spelled]

instance : Std.LawfulEqCmp Component.compare where
  compare_self := by simp [compare_eq,compareLex,compareOn]
  eq_of_compare {left right} alike := by
    rw [compare_eq,compareLex,Ordering.then_eq_eq,compareOn,compareOn,Std.LawfulEqCmp.compare_eq_iff_eq,
      Std.LawfulEqCmp.compare_eq_iff_eq] at alike
    exact eq_of_rank alike.1 alike.2

end Component

theorem compareComponents_eq : compareComponents = List.compareLex Component.compare := by
  funext lefts rights
  fun_induction compareComponents lefts rights with
  | case1 => rfl
  | case2 => rfl
  | case3 => rfl
  | case4 left lefts right rights ih => rw [List.compareLex_cons_cons,ih]

/-- Not after, in the order of paths. -/
def upTo (left right : Path) : Bool := left.compare right != .gt

variable {left middle right : Path}

theorem upTo_iff : left.upTo right ↔ (List.compareLex Component.compare left.components right.components).isLE := by
  rw [upTo,compare,compareComponents_eq]
  cases List.compareLex Component.compare left.components right.components <;> decide

theorem upTo_trans (before : left.upTo middle) (after : middle.upTo right) : left.upTo right :=
  upTo_iff.mpr (Std.TransCmp.isLE_trans (upTo_iff.mp before) (upTo_iff.mp after))

theorem upTo_total (left right : Path) : (left.upTo right || right.upTo left) = true := by
  have swap : List.compareLex Component.compare right.components left.components =
      (List.compareLex Component.compare left.components right.components).swap := Std.OrientedCmp.eq_swap
  rw [Bool.or_eq_true,upTo_iff,upTo_iff,swap]
  cases List.compareLex Component.compare left.components right.components <;> decide

theorem upTo_refl (path : Path) : path.upTo path := by simpa using upTo_total path path

theorem components_of_upTo (before : left.upTo right) (after : right.upTo left) : left.components = right.components :=
  Std.LawfulEqCmp.eq_of_compare (Std.OrientedCmp.isLE_antisymm (upTo_iff.mp before) (upTo_iff.mp after))

theorem pairwise_mergeSort (paths : List Path) : (paths.mergeSort upTo).Pairwise (·.upTo ·) := by
  apply List.pairwise_mergeSort
  · intro left middle right
    exact upTo_trans
  · exact upTo_total

/-- However paths are sorted, the components come out the same. -/
theorem components_of_sorted {paths others : List Path} (sorted : paths.Pairwise (·.upTo ·))
    (also : others.Pairwise (·.upTo ·)) (same : paths.Perm others) :
    paths.map components = others.map components := by
  let before (left right : List Component) : Prop := (List.compareLex Component.compare left right).isLE
  have pairwise {paths : List Path} (sorted : paths.Pairwise (·.upTo ·)) : (paths.map components).Pairwise before :=
    List.pairwise_map.mpr (sorted.imp upTo_iff.mp)
  refine List.Perm.eq_of_pairwise ?_ (pairwise sorted) (pairwise also) (same.map components)
  intro left right _ _ first second
  exact Std.LawfulEqCmp.eq_of_compare (Std.OrientedCmp.isLE_antisymm first second)

end LoadMap.Path
