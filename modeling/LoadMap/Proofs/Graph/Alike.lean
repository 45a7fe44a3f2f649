import LoadMap.Graph.Build

/-! One build with services of two kinds. A relation between computations that holds of bare values, and of two
steps in a row when it holds of each, holds of the builds when it holds of the services. -/
namespace LoadMap

variable {m n : Type → Type} [Monad m] [Monad n] {alike : (α : Type) → m α → n α → Prop}
  {left : Services m} {right : Services n}

structure Composes (alike : (α : Type) → m α → n α → Prop) : Prop where
  pure {α : Type} (value : α) : alike α (pure value) (pure value)
  bind {α β : Type} {one : m α} {other : n α} {more : α → m β} {further : α → n β}
    (first : alike α one other) (next : ∀ value, alike β (more value) (further value)) :
    alike β (one >>= more) (other >>= further)

structure Services.Alike (alike : (α : Type) → m α → n α → Prop) (left : Services m)
    (right : Services n) : Prop where
  load (path : Path) : alike _ (left.load path) (right.load path)
  readManaged (path : Path) : alike _ (left.readManaged path) (right.readManaged path)
  resolve (rootModule : RootModule) (name : String) :
    alike _ (left.resolve rootModule name) (right.resolve rootModule name)

namespace Graph

variable (composes : Composes alike) (same : Services.Alike alike left right)
include composes same

theorem managedPart_alike (binary : Binary) (path : Path) :
    alike _ (managedPart left binary path) (managedPart right binary path) := by
  unfold managedPart
  split
  · apply composes.bind (same.readManaged path)
    rintro (failure | references)
    · cases failure <;> exact composes.pure _
    · exact composes.pure _
  · exact composes.pure _

theorem load_alike (node : Node) : alike _ (load left node) (load right node) := by
  unfold load
  cases node.path? with
  | none => exact composes.pure _
  | some path =>
    apply composes.bind (same.load path)
    rintro (failure | binary)
    · exact composes.pure _
    · apply composes.bind (managedPart_alike composes same binary path)
      rintro (failure | managed)
      · exact composes.pure _
      · exact composes.pure _

theorem resolve_alike (graph : Graph) (name : String) :
    alike _ (graph.resolve left name) (graph.resolve right name) := by
  unfold resolve
  apply composes.bind (same.resolve graph.rootModule name)
  rintro (failure | resolution)
  · exact composes.pure _
  · exact composes.pure _

theorem linkAll_alike (id : NodeId) (names : List String) (graph : Graph) :
    alike _ (linkAll left id names graph) (linkAll right id names graph) := by
  induction names generalizing graph with
  | nil => exact composes.pure _
  | cons name names ih =>
    unfold linkAll
    apply composes.bind (resolve_alike composes same graph name)
    rintro (failure | resolution)
    · exact composes.pure _
    · apply composes.bind (ih _)
      rintro (failure | rest)
      · exact composes.pure _
      · exact composes.pure _

theorem visit_alike (graph : Graph) (id : NodeId) :
    alike _ (graph.visit left id) (graph.visit right id) := by
  unfold visit
  apply composes.bind (load_alike composes same (graph.node id))
  rintro (failure | loaded)
  · exact composes.pure _
  · dsimp only
    split
    · exact composes.pure _
    · apply composes.bind (linkAll_alike composes same id loaded.imports _)
      rintro (failure | rest)
      · exact composes.pure _
      · exact composes.pure _

theorem expand_alike (steps : Nat) (stack : List Frame) (graph : Graph) (loads : List Path) :
    alike _ (expand left steps stack graph loads) (expand right steps stack graph loads) := by
  induction steps generalizing stack graph loads with
  | zero => exact composes.pure _
  | succ steps ih =>
    match stack with
    | [] => exact composes.pure _
    | { pending := [], .. } :: stack => exact ih stack graph loads
    | { id, pending := child :: pending } :: stack =>
      apply composes.bind (visit_alike composes same graph child)
      rintro (failure | ⟨larger,added⟩)
      · exact composes.pure _
      · exact ih _ larger _

theorem build_alike (steps : Nat) (rootModule : RootModule) (maxDepth : Nat) :
    alike _ (buildWithin left steps rootModule maxDepth)
      (buildWithin right steps rootModule maxDepth) := by
  unfold buildWithin
  apply composes.bind (visit_alike composes same _ rootId)
  rintro (failure | ⟨graph,added⟩)
  · exact composes.pure _
  · exact expand_alike composes same steps _ graph _

end Graph
end LoadMap
