import LoadMap.Proofs.Graph.Progress

/-! Visits that call each other: a node is visited, and then, in the same way, each of the nodes that
the visit leaves to be done. The stack makes the same visits in the same order and ends with the same
graph or the same failure. -/
namespace LoadMap.Graph

section Calls

variable {m : Type → Type} [Monad m]

def inOrder (explore : NodeId → Graph → List Path → m Run) :
    List NodeId → Graph → List Path → m Run
  | [], graph, loads => return { outcome := .built graph, loads }
  | id :: ids, graph, loads => do
    let run ← explore id graph loads
    match run.outcome with
    | .built graph => inOrder explore ids graph run.loads
    | _ => return run

def Outcome.through (identity : String) : Outcome → Outcome
  | .failed failure => .failed (failure.inModule identity)
  | other => other

section Through

variable {identity : String} {outcome : Outcome}

theorem through_ended : outcome.through identity ≠ .unfinished ↔ outcome ≠ .unfinished := by
  cases outcome <;> simp [Outcome.through]

theorem through_built {last : Graph} :
    outcome.through identity = .built last ↔ outcome = .built last := by
  cases outcome <;> simp [Outcome.through]

end Through

/-- The visits, at most `depth` calls deep. -/
def explore (services : Services m) : (depth : Nat) → NodeId → Graph → List Path → m Run
  | 0, _, _, loads => return { outcome := .unfinished, loads }
  | depth + 1, id, graph, loads => do
    let identity := (graph.node id).identity
    let loads := loads ++ (graph.node id).path?.toList
    match ← graph.visit services id with
    | .error failure => return { outcome := .failed (failure.inModule identity), loads }
    | .ok (graph,added) =>
      let run ← inOrder (explore services depth) added graph loads
      return { run with outcome := run.outcome.through identity }

end Calls

variable {σ : Type} {services : Services (StateM σ)} {graph : Graph} {id : Nat} {loads : List Path}
  {before after : σ} {depth : Nat} {run : Run}

theorem explore_succ :
    (explore services (depth + 1) id graph loads).run before =
      match (graph.visit services id).run before with
      | (.ok (last,added),middle) =>
        let (run,after) := (inOrder (explore services depth) added last
          (loads ++ (graph.node id).path?.toList)).run middle
        ({ run with outcome := run.outcome.through (graph.node id).identity },after)
      | (.error failure,middle) => ({
          outcome := .failed (failure.inModule (graph.node id).identity)
          loads := loads ++ (graph.node id).path?.toList },middle) := by
  simp only [explore,bind_run]
  cases (graph.visit services id).run before with
  | mk answer middle => cases answer <;> rfl

theorem explore_visited {last : Graph} {added : List NodeId} {middle : σ}
    (visited : (graph.visit services id).run before = (.ok (last,added),middle))
    (ran : (inOrder (explore services depth) added last (loads ++ (graph.node id).path?.toList)).run
      middle = (run,after)) :
    (explore services (depth + 1) id graph loads).run before =
      ({ run with outcome := run.outcome.through (graph.node id).identity },after) := by
  rw [explore_succ,visited]
  dsimp only
  rw [ran]

/-- How a stack goes on when what lay above it has ended. -/
def resume (services : Services (StateM σ)) (steps : Nat) (stack : List Frame) (graph : Graph)
    (run : Run) (after : σ) : Run × σ :=
  match run.outcome with
  | .built last => (expand services steps stack last run.loads).run after
  | .failed failure =>
    ({ run with outcome := .failed (graph.blame failure (stack.map (·.id))) },after)
  | .unfinished => (run,after)

theorem blame_extends {larger : Graph} (grown : Extends graph larger) {ids : List NodeId}
    (inside : ∀ id ∈ ids, id < graph.size) (failure : Failure) :
    larger.blame failure ids = graph.blame failure ids := by
  induction ids generalizing failure with
  | nil => rfl
  | cons id ids ih =>
    have same := (grown.outline id (inside id List.mem_cons_self)).1
    simp only [blame,List.foldl_cons,same]
    exact ih (fun other member => inside other (List.mem_cons_of_mem _ member)) _

def Inside (graph : Graph) (stack : List Frame) : Prop := ∀ id ∈ stack.map (·.id), id < graph.size

theorem Inside.nil : Inside graph [] := fun _ member => absurd member List.not_mem_nil

theorem Inside.cons {stack : List Frame} {pending : List NodeId} (known : id < graph.size)
    (inside : Inside graph stack) : Inside graph ({ id, pending } :: stack) := by
  intro other member
  rcases List.mem_cons.mp member with rfl | below
  · exact known
  · exact inside other below

theorem Inside.mono {larger : Graph} {stack : List Frame} (inside : Inside graph stack)
    (grown : Extends graph larger) : Inside larger stack :=
  fun other member => Nat.lt_of_lt_of_le (inside other member) grown.size

theorem resume_extends {larger : Graph} (grown : Extends graph larger) {stack : List Frame}
    (inside : Inside graph stack) (steps : Nat) :
    resume services steps stack larger run after = resume services steps stack graph run after := by
  have same := blame_extends grown inside
  simp only [resume]
  split
  · rfl
  · rw [same]
  · rfl

theorem resume_through {more : Nat} (id : NodeId) (stack : List Frame) :
    resume services (more + 1) ({ id, pending := [] } :: stack) graph run after =
      resume services more stack graph
        { run with outcome := run.outcome.through (graph.node id).identity } after := by
  obtain ⟨outcome,loads⟩ := run
  cases outcome <;> rfl

theorem resume_nil {more : Nat} : resume services (more + 1) [] graph run after = (run,after) := by
  obtain ⟨outcome,loads⟩ := run
  cases outcome <;> rfl

section Simulation

variable {rootModule : RootModule} {maxDepth : Nat} {frame : Frame} {stack : List Frame}

/-- The stack ends what lies on it as the run does, and then goes on with what lies below. -/
def Follows (services : Services (StateM σ)) (rootModule : RootModule) (maxDepth : Nat)
    (ids : List NodeId) (frame : Frame) (stack : List Frame) (graph : Graph) (loads : List Path)
    (before : σ) (run : Run) (after : σ) : Prop :=
  (∃ steps, ∀ more, (expand services (steps + more)
      ({ frame with pending := ids ++ frame.pending } :: stack) graph loads).run before =
    resume services more (frame :: stack) graph run after) ∧
  ∀ last, run.outcome = .built last → Extends graph last ∧
    Progress services rootModule maxDepth last (remaining (frame :: stack)) run.loads

private theorem follows_inOrder
    (calls : ∀ {child graph loads before run after} {frame : Frame} {stack : List Frame},
      Progress services rootModule maxDepth graph (child :: remaining (frame :: stack)) loads →
      Inside graph (frame :: stack) →
      (explore services depth child graph loads).run before = (run,after) →
      run.outcome ≠ .unfinished →
      Follows services rootModule maxDepth [child] frame stack graph loads before run after)
    {ids : List NodeId}
    (progress : Progress services rootModule maxDepth graph (ids ++ remaining (frame :: stack)) loads)
    (inside : Inside graph (frame :: stack))
    (ran : (inOrder (explore services depth) ids graph loads).run before = (run,after))
    (ended : run.outcome ≠ .unfinished) :
    Follows services rootModule maxDepth ids frame stack graph loads before run after := by
  induction ids generalizing graph loads before with
  | nil =>
    cases ran
    refine ⟨⟨0,fun more => by rw [Nat.zero_add]; rfl⟩,?_⟩
    rintro last ⟨⟩
    exact ⟨Extends.refl _,progress⟩
  | cons child ids ih =>
    let rest : Frame := { frame with pending := ids ++ frame.pending }
    have insideRest : Inside graph (rest :: stack) := inside
    have progressRest : Progress services rootModule maxDepth graph
        (child :: remaining (rest :: stack)) loads := by
      simpa [remaining,rest] using progress
    simp only [inOrder,bind_run] at ran
    cases called : (explore services depth child graph loads).run before with
    | mk first middle =>
      rw [called] at ran
      cases outcome : first.outcome with
      | unfinished =>
        simp only [outcome] at ran
        cases ran
        exact absurd outcome ended
      | failed failure =>
        simp only [outcome] at ran
        cases ran
        obtain ⟨⟨steps,goes⟩,-⟩ := calls progressRest insideRest called ended
        refine ⟨⟨steps,fun more => ?_⟩,?_⟩
        · refine (goes more).trans ?_
          simp only [resume,outcome]
          rfl
        · rw [outcome]
          exact fun _ same => absurd same (Outcome.not_built failure)
      | built last =>
        simp only [outcome] at ran
        obtain ⟨⟨steps,goes⟩,built⟩ := calls progressRest insideRest called
          (by rw [outcome]; exact Outcome.built_ended last)
        obtain ⟨grown,next⟩ := built last outcome
        obtain ⟨⟨others,goesOn⟩,final⟩ := ih (by simpa [remaining,rest] using next)
          (inside.mono grown) ran
        refine ⟨⟨steps + others,fun more => ?_⟩,?_⟩
        · rw [Nat.add_assoc]
          refine (goes (others + more)).trans ?_
          rw [← resume_extends grown inside]
          simp only [resume,outcome]
          exact goesOn more
        · intro larger done
          obtain ⟨further,state⟩ := final larger done
          exact ⟨grown.trans further,state⟩

private theorem follows_explore
    (lists : ∀ {ids graph loads before run after} {frame : Frame} {stack : List Frame},
      Progress services rootModule maxDepth graph (ids ++ remaining (frame :: stack)) loads →
      Inside graph (frame :: stack) →
      (inOrder (explore services depth) ids graph loads).run before = (run,after) →
      run.outcome ≠ .unfinished →
      Follows services rootModule maxDepth ids frame stack graph loads before run after)
    {child : NodeId}
    (progress : Progress services rootModule maxDepth graph (child :: remaining (frame :: stack)) loads)
    (inside : Inside graph (frame :: stack))
    (ran : (explore services (depth + 1) child graph loads).run before = (run,after))
    (ended : run.outcome ≠ .unfinished) :
    Follows services rootModule maxDepth [child] frame stack graph loads before run after := by
  rw [explore_succ] at ran
  split at ran
  case h_2 failure middle visited =>
    cases ran
    refine ⟨⟨1,fun more => ?_⟩,fun _ same => absurd same (Outcome.not_built _)⟩
    rw [Nat.add_comm,List.singleton_append,expand_child,visited]
    rfl
  case h_1 last added middle visited =>
    cases below : (inOrder (explore services depth) added last
        (loads ++ (graph.node child).path?.toList)).run middle with
    | mk first final =>
      rw [below] at ran
      cases ran
      have grown := progress.extends visited
      let rest : Frame := { id := child, pending := [] }
      have insideRest : Inside graph (rest :: frame :: stack) := inside.cons progress.mem_head.1
      have next : Progress services rootModule maxDepth last
          (added ++ remaining (rest :: frame :: stack)) (loads ++ (graph.node child).path?.toList) :=
        progress.visit visited
      have endedBelow : first.outcome ≠ .unfinished := through_ended.mp ended
      obtain ⟨⟨steps,goes⟩,built⟩ := lists next (insideRest.mono grown) below endedBelow
      -- One step more for the visit, and one for the frame when nothing is left on it.
      refine ⟨⟨steps + 2,fun more => ?_⟩,fun larger done => ?_⟩
      · have count : steps + 2 + more = steps + (more + 1) + 1 := by omega
        rw [count,List.singleton_append,expand_child,visited]
        have goesOn := goes (more + 1)
        rw [resume_extends grown insideRest,resume_through] at goesOn
        simpa only [rest,List.append_nil] using goesOn
      · obtain ⟨further,state⟩ := built larger (through_built.mp done)
        exact ⟨grown.trans further,state⟩

private theorem follows_call {child : NodeId}
    (progress : Progress services rootModule maxDepth graph (child :: remaining (frame :: stack)) loads)
    (inside : Inside graph (frame :: stack))
    (ran : (explore services depth child graph loads).run before = (run,after))
    (ended : run.outcome ≠ .unfinished) :
    Follows services rootModule maxDepth [child] frame stack graph loads before run after := by
  induction depth generalizing child graph loads before run after frame stack with
  | zero =>
    cases ran
    exact absurd rfl ended
  | succ depth ih => exact follows_explore (follows_inOrder ih) progress inside ran ended

/-- The stack follows the calls through any list of modules, at every depth. -/
theorem expand_follows {ids : List NodeId}
    (progress : Progress services rootModule maxDepth graph (ids ++ remaining (frame :: stack)) loads)
    (inside : Inside graph (frame :: stack))
    (ran : (inOrder (explore services depth) ids graph loads).run before = (run,after))
    (ended : run.outcome ≠ .unfinished) :
    Follows services rootModule maxDepth ids frame stack graph loads before run after :=
  follows_inOrder follows_call progress inside ran ended

theorem Progress.call {work : List NodeId} {last : Graph}
    (progress : Progress services rootModule maxDepth graph (id :: work) loads)
    (ran : (explore services depth id graph loads).run before = (run,after))
    (built : run.outcome = .built last) :
    Extends graph last ∧ Progress services rootModule maxDepth last work run.loads := by
  let frame : Frame := { id := rootId, pending := work }
  have left : remaining [frame] = work := List.append_nil work
  have inside : Inside graph [frame] := Inside.nil.cons progress.nonempty
  have start : Progress services rootModule maxDepth graph (id :: remaining [frame]) loads :=
    left.symm ▸ progress
  obtain ⟨-,ended⟩ := follows_call start inside ran (by rw [built]; exact Outcome.built_ended last)
  exact left ▸ ended last built

theorem Progress.inOrder {ids work : List NodeId} {last : Graph}
    (progress : Progress services rootModule maxDepth graph (ids ++ work) loads)
    (ran : (inOrder (explore services depth) ids graph loads).run before = (run,after))
    (built : run.outcome = .built last) :
    Extends graph last ∧ Progress services rootModule maxDepth last work run.loads := by
  let frame : Frame := { id := rootId, pending := work }
  have left : remaining [frame] = work := List.append_nil work
  have inside : Inside graph [frame] := Inside.nil.cons progress.nonempty
  have start : Progress services rootModule maxDepth graph (ids ++ remaining [frame]) loads :=
    left.symm ▸ progress
  obtain ⟨-,ended⟩ := expand_follows start inside ran (by rw [built]; exact Outcome.built_ended last)
  exact left ▸ ended last built

end Simulation

section Depth

variable {deeper : Nat}

private theorem inOrder_deeper_of
    (calls : ∀ {child : NodeId} {graph : Graph} {loads : List Path} {before : σ},
      ((explore services depth child graph loads).run before).1.outcome ≠ .unfinished →
      (explore services deeper child graph loads).run before =
        (explore services depth child graph loads).run before)
    {ids : List NodeId}
    (ended : ((inOrder (explore services depth) ids graph loads).run before).1.outcome ≠ .unfinished) :
    (inOrder (explore services deeper) ids graph loads).run before =
      (inOrder (explore services depth) ids graph loads).run before := by
  induction ids generalizing graph loads before with
  | nil => rfl
  | cons child ids ih =>
    simp only [inOrder,bind_run] at ended ⊢
    cases called : (explore services depth child graph loads).run before with
    | mk first middle =>
      rw [called] at ended
      have same : (explore services deeper child graph loads).run before = (first,middle) := by
        rw [← called]
        refine calls ?_
        rw [called]
        intro (endless : first.outcome = .unfinished)
        simp only [endless] at ended
        exact ended endless
      rw [same]
      cases outcome : first.outcome with
      | built last =>
        simp only [outcome] at ended ⊢
        exact ih ended
      | failed failure => rfl
      | unfinished => rfl

theorem explore_deeper (enough : depth ≤ deeper)
    (ended : ((explore services depth id graph loads).run before).1.outcome ≠ .unfinished) :
    (explore services deeper id graph loads).run before =
      (explore services depth id graph loads).run before := by
  induction depth generalizing deeper id graph loads before with
  | zero => exact absurd rfl ended
  | succ depth ih =>
    obtain ⟨deeper,rfl⟩ := Nat.exists_eq_add_of_le' (Nat.le_trans (Nat.le_add_left 1 depth) enough)
    have less : depth ≤ deeper := Nat.le_of_succ_le_succ enough
    rw [explore_succ] at ended ⊢
    rw [explore_succ]
    split at ended
    case h_1 last added middle visited =>
      rw [inOrder_deeper_of (ih less) (through_ended.mp ended)]
    case h_2 => rfl

theorem inOrder_deeper {ids : List NodeId} (enough : depth ≤ deeper)
    (ended : ((inOrder (explore services depth) ids graph loads).run before).1.outcome ≠ .unfinished) :
    (inOrder (explore services deeper) ids graph loads).run before =
      (inOrder (explore services depth) ids graph loads).run before :=
  inOrder_deeper_of (explore_deeper enough) ended

/-- Going through modules ends when it ends below the first one and after it. -/
theorem inOrder_ended_of_visit {child : NodeId} {ids : List NodeId}
    (below : ∀ {last : Graph} {added : List NodeId} {middle : σ},
      (graph.visit services child).run before = (.ok (last,added),middle) →
      ((inOrder (explore services depth) added last (loads ++ (graph.node child).path?.toList)).run
        middle).1.outcome ≠ .unfinished)
    (beyond : ∀ {last larger : Graph} {added : List NodeId} {middle final : σ} {first : Run},
      (graph.visit services child).run before = (.ok (last,added),middle) →
      (inOrder (explore services depth) added last (loads ++ (graph.node child).path?.toList)).run
        middle = (first,final) →
      first.outcome = .built larger →
      ((inOrder (explore services (depth + 1)) ids larger first.loads).run final).1.outcome ≠
        .unfinished) :
    ((inOrder (explore services (depth + 1)) (child :: ids) graph loads).run before).1.outcome ≠
      .unfinished := by
  simp only [inOrder,bind_run]
  cases visited : (graph.visit services child).run before with
  | mk answer middle =>
    cases answer with
    | error failure =>
      rw [explore_succ,visited]
      exact Outcome.failed_ended _
    | ok answer =>
      obtain ⟨last,added⟩ := answer
      have ended := below visited
      cases ran : (inOrder (explore services depth) added last
          (loads ++ (graph.node child).path?.toList)).run middle with
      | mk first final =>
        rw [ran] at ended
        rw [explore_visited visited ran]
        cases outcome : first.outcome with
        | unfinished => exact absurd outcome ended
        | failed failure => exact Outcome.failed_ended _
        | built larger =>
          have others := beyond visited ran outcome
          exact others

end Depth

end LoadMap.Graph
