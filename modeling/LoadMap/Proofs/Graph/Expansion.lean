import LoadMap.Proofs.Graph.Visit

/-! Working off the stack. What is left on the stack, read from the top, is a list of nodes to be
visited; whatever each visit preserves holds when the list is empty. -/
namespace LoadMap.Graph

variable {σ : Type} {services : Services (StateM σ)} {graph : Graph} {stack : List Frame}
  {loads : List Path} {before after : σ} {steps : Nat} {run : Run}

/-- The nodes on a stack that are still to be visited, in the order in which they will be. -/
def remaining (stack : List Frame) : List NodeId := stack.flatMap (·.pending)

/-- With enough room, and however much more, the work ends as told. -/
def Settles (work : Nat → StateM σ Run) (before : σ) (run : Run) (after : σ) : Prop :=
  run.outcome ≠ .unfinished ∧ ∃ enough, ∀ room ≥ enough, (work room).run before = (run,after)

theorem Settles.unique {work : Nat → StateM σ Run} {other : Run} {final : σ}
    (first : Settles work before run after) (second : Settles work before other final) :
    run = other ∧ after = final := by
  obtain ⟨-,enough,settled⟩ := first
  obtain ⟨-,plenty,same⟩ := second
  have equal := (settled _ (Nat.le_max_left enough plenty)).symm.trans
    (same _ (Nat.le_max_right enough plenty))
  exact ⟨congrArg Prod.fst equal,congrArg Prod.snd equal⟩

theorem Outcome.built_ended (graph : Graph) : Outcome.built graph ≠ .unfinished := by
  intro same
  cases same

theorem Outcome.failed_ended (failure : Failure) : Outcome.failed failure ≠ .unfinished := by
  intro same
  cases same

theorem Outcome.not_built (failure : Failure) : Outcome.failed failure ≠ .built graph := by
  intro same
  cases same

theorem expand_child (id child : NodeId) (pending : List NodeId) :
    (expand services (steps + 1) ({ id, pending := child :: pending } :: stack) graph loads).run before =
      match (graph.visit services child).run before with
      | (.ok (last,added),middle) => (expand services steps
          ({ id := child, pending := added } :: { id, pending } :: stack) last
          (loads ++ (graph.node child).path?.toList)).run middle
      | (.error failure,middle) => ({
          outcome := .failed (graph.blame failure (child :: id :: stack.map (·.id)))
          loads := loads ++ (graph.node child).path?.toList },middle) := by
  simp only [expand,bind_run]
  cases (graph.visit services child).run before with
  | mk answer middle => cases answer <;> rfl

theorem buildWithin_run {rootModule : RootModule} {maxDepth : Nat} :
    (buildWithin services steps rootModule maxDepth).run before =
      match ((ofRoot rootModule maxDepth).visit services rootId).run before with
      | (.ok (last,added),middle) =>
        (expand services steps [{ id := rootId, pending := added }] last [rootModule.path]).run middle
      | (.error failure,middle) => ({
          outcome := .failed ((ofRoot rootModule maxDepth).blame failure [rootId])
          loads := [rootModule.path] },middle) := by
  simp only [buildWithin,bind_run]
  cases ((ofRoot rootModule maxDepth).visit services rootId).run before with
  | mk answer middle => cases answer <;> rfl

theorem expand_more {more : Nat} (enough : steps ≤ more)
    (ended : ((expand services steps stack graph loads).run before).1.outcome ≠ .unfinished) :
    (expand services more stack graph loads).run before =
      (expand services steps stack graph loads).run before := by
  induction steps generalizing more stack graph loads before with
  | zero => exact absurd rfl ended
  | succ steps ih =>
    obtain ⟨more,rfl⟩ := Nat.exists_eq_add_of_le' (Nat.le_trans (Nat.le_add_left 1 steps) enough)
    have less : steps ≤ more := Nat.le_of_succ_le_succ enough
    match stack with
    | [] => rfl
    | { pending := [], .. } :: stack => exact ih less ended
    | { id, pending := child :: pending } :: stack =>
      rw [expand_child] at ended ⊢
      rw [expand_child]
      split at ended
      case h_1 => exact ih less ended
      case h_2 => rfl

theorem buildWithin_more {more maxDepth : Nat} {rootModule : RootModule} (enough : steps ≤ more)
    (ended : ((buildWithin services steps rootModule maxDepth).run before).1.outcome ≠ .unfinished) :
    (buildWithin services more rootModule maxDepth).run before =
      (buildWithin services steps rootModule maxDepth).run before := by
  rw [buildWithin_run] at ended ⊢
  rw [buildWithin_run]
  split at ended
  case h_1 => exact expand_more enough ended
  case h_2 => rfl

theorem settles_of_ended {maxDepth : Nat} {rootModule : RootModule}
    (ran : (buildWithin services steps rootModule maxDepth).run before = (run,after))
    (ended : run.outcome ≠ .unfinished) :
    Settles (fun steps => buildWithin services steps rootModule maxDepth) before run after := by
  refine ⟨ended,steps,fun more enough => ?_⟩
  rw [buildWithin_more enough (by rwa [ran]),ran]

section Invariant

variable (Inv : Graph → List NodeId → List Path → Prop)
  (keeps : ∀ {graph last : Graph} {id : NodeId} {work added : List NodeId} {loads : List Path}
    {before after : σ}, Inv graph (id :: work) loads →
    (graph.visit services id).run before = (.ok (last,added),after) →
    Inv last (added ++ work) (loads ++ (graph.node id).path?.toList))
include keeps

/-- What every visit preserves holds at the end, or a visit failed where it held. -/
theorem expand_invariant (start : Inv graph (remaining stack) loads)
    (ran : (expand services steps stack graph loads).run before = (run,after)) :
    (∀ last, run.outcome = .built last → Inv last [] run.loads) ∧
    ∀ failure, run.outcome = .failed failure → ∃ graph id work loads cause before after,
      Inv graph (id :: work) loads ∧ (graph.visit services id).run before = (.error cause,after) := by
  induction steps generalizing stack graph loads before with
  | zero =>
    cases ran
    constructor <;> intro _ same <;> cases same
  | succ steps ih =>
    match stack with
    | [] =>
      cases ran
      constructor
      · rintro last ⟨⟩
        exact start
      · intro failure same
        cases same
    | { pending := [], .. } :: stack => exact ih (show Inv graph (remaining stack) loads from start) ran
    | { id, pending := child :: pending } :: stack =>
      rw [expand_child] at ran
      split at ran
      case h_1 visited => exact ih (keeps start visited) ran
      case h_2 visited =>
        cases ran
        exact ⟨fun _ same => absurd same (Outcome.not_built _),fun _ _ => ⟨graph,child,_,loads,_,_,_,start,visited⟩⟩

theorem expand_ended (rank : Graph → Nat)
    (falls : ∀ {graph last : Graph} {id : NodeId} {work added : List NodeId} {loads : List Path}
      {before after : σ}, Inv graph (id :: work) loads →
      (graph.visit services id).run before = (.ok (last,added),after) → rank last < rank graph)
    (start : Inv graph (remaining stack) loads) (enough : 2 * rank graph + stack.length < steps) :
    ((expand services steps stack graph loads).run before).1.outcome ≠ .unfinished := by
  induction steps generalizing stack graph loads before with
  | zero => omega
  | succ steps ih =>
    match stack with
    | [] => exact Outcome.built_ended graph
    | { pending := [], .. } :: stack =>
      exact ih start (by rw [List.length_cons] at enough; omega)
    | { id, pending := child :: pending } :: stack =>
      rw [expand_child]
      split
      case h_1 visited =>
        have lower := falls start visited
        exact ih (keeps start visited) (by simp only [List.length_cons] at enough ⊢; omega)
      case h_2 => exact Outcome.failed_ended _

variable {rootModule : RootModule} {maxDepth : Nat}

theorem build_invariant (start : Inv (ofRoot rootModule maxDepth) [rootId] [])
    (ran : (buildWithin services steps rootModule maxDepth).run before = (run,after)) :
    (∀ last, run.outcome = .built last → Inv last [] run.loads) ∧
    ∀ failure, run.outcome = .failed failure → ∃ graph id work loads cause before after,
      Inv graph (id :: work) loads ∧ (graph.visit services id).run before = (.error cause,after) := by
  rw [buildWithin_run] at ran
  split at ran
  case h_1 last added middle visited =>
    refine expand_invariant Inv keeps ?_ ran
    have kept : Inv last (added ++ []) [rootModule.path] := keeps start visited
    simpa [remaining] using kept
  case h_2 failure middle visited =>
    cases ran
    exact ⟨fun _ same => absurd same (Outcome.not_built _),fun _ _ => ⟨_,_,_,_,_,_,_,start,visited⟩⟩

theorem build_ended (rank : Graph → Nat)
    (falls : ∀ {graph last : Graph} {id : NodeId} {work added : List NodeId} {loads : List Path}
      {before after : σ}, Inv graph (id :: work) loads →
      (graph.visit services id).run before = (.ok (last,added),after) → rank last < rank graph)
    (start : Inv (ofRoot rootModule maxDepth) [rootId] [])
    (enough : 2 * rank (ofRoot rootModule maxDepth) ≤ steps) :
    ((buildWithin services steps rootModule maxDepth).run before).1.outcome ≠ .unfinished := by
  rw [buildWithin_run]
  split
  case h_1 last added middle visited =>
    have lower := falls start visited
    have kept : Inv last (added ++ []) [rootModule.path] := keeps start visited
    refine expand_ended Inv keeps rank falls (by simpa [remaining] using kept) ?_
    rw [List.length_singleton]
    omega
  case h_2 => exact Outcome.failed_ended _

end Invariant
end LoadMap.Graph
