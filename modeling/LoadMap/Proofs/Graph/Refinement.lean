import LoadMap.Proofs.Graph.Procedure

/-! The stack and the recursive procedure end on the same inputs and with the same results. That the
procedure ends when the stack does is by induction on the steps taken: what is left of them after a
module and all below it are done are fewer. -/
namespace LoadMap.Graph

variable {σ : Type} {services : Services (StateM σ)} {rootModule : RootModule} {maxDepth : Nat}
  {graph : Graph} {loads : List Path} {before after : σ} {steps : Nat} {run : Run}

private theorem ended_of_takes {taken : Nat} {stack : List Frame} {other : Nat → Run × σ}
    (takes : ∀ left, (expand services (taken + left) stack graph loads).run before = other left)
    (none : (other 0).1.outcome = .unfinished)
    (ended : ((expand services steps stack graph loads).run before).1.outcome ≠ .unfinished) :
    ∃ left, steps = taken + left ∧ (other left).1.outcome ≠ .unfinished := by
  by_cases within : taken ≤ steps
  · obtain ⟨left,rfl⟩ := Nat.exists_eq_add_of_le within
    exact ⟨left,rfl,by rwa [← takes]⟩
  · have same := expand_more (Nat.le_of_not_le within) ended
    have stopped := takes 0
    rw [Nat.add_zero,same] at stopped
    rw [stopped] at ended
    exact absurd none ended

/-- When the stack ends, the procedure ends for what lies on it, with a depth as great as the number
of steps taken. -/
theorem inOrder_ended {ids : List NodeId} {frame : Frame} {stack : List Frame}
    (progress : Progress services rootModule maxDepth graph (ids ++ remaining (frame :: stack)) loads)
    (inside : Inside graph (frame :: stack))
    (ended : ((expand services steps ({ frame with pending := ids ++ frame.pending } :: stack) graph
      loads).run before).1.outcome ≠ .unfinished) :
    ((inOrder (explore services steps) ids graph loads).run before).1.outcome ≠ .unfinished := by
  induction steps using Nat.strongRecOn generalizing ids frame stack graph loads before with
  | ind steps ih =>
    match ids,steps with
    | [],_ => exact Outcome.built_ended graph
    | _ :: _,0 => exact absurd rfl ended
    | child :: ids,steps + 1 =>
      let rest : Frame := { frame with pending := ids ++ frame.pending }
      let done : Frame := { id := child, pending := [] }
      have progressRest : Progress services rootModule maxDepth graph
          (child :: remaining (rest :: stack)) loads := by
        simpa [remaining,rest] using progress
      have insideRest : Inside graph (rest :: stack) := inside
      have insideDone : Inside graph (done :: rest :: stack) := insideRest.cons progressRest.mem_head.1
      rw [List.cons_append,expand_child] at ended
      have started : ∀ {last : Graph} {added : List NodeId} {middle : σ},
          (graph.visit services child).run before = (.ok (last,added),middle) →
          ((expand services steps ({ done with pending := added ++ done.pending } :: rest :: stack) last
            (loads ++ (graph.node child).path?.toList)).run middle).1.outcome ≠ .unfinished := by
        intro last added middle visited
        rw [visited] at ended
        simpa only [done,List.append_nil] using ended
      have next : ∀ {last : Graph} {added : List NodeId} {middle : σ},
          (graph.visit services child).run before = (.ok (last,added),middle) →
          Progress services rootModule maxDepth last (added ++ remaining (done :: rest :: stack))
            (loads ++ (graph.node child).path?.toList) ∧ Inside last (done :: rest :: stack) :=
        fun visited => ⟨progressRest.visit visited,insideDone.mono (progressRest.extends visited)⟩
      refine inOrder_ended_of_visit (fun visited => ?_)
        @fun last larger added middle final first visited ran outcome => ?_
      · obtain ⟨state,known⟩ := next visited
        exact ih steps (Nat.lt_succ_self _) state known (started visited)
      · obtain ⟨state,known⟩ := next visited
        obtain ⟨⟨taken,takes⟩,built⟩ := expand_follows state known ran
          (by rw [outcome]; exact Outcome.built_ended larger)
        obtain ⟨further,others⟩ := built larger outcome
        have insideLarger := inside.mono ((progressRest.extends visited).trans further)
        simp only [resume,outcome] at takes
        -- What lies below the child has used up some steps, so the others end with fewer.
        obtain ⟨left,count,leftEnded⟩ := ended_of_takes takes rfl (started visited)
        cases left with
        | zero => exact absurd rfl leftEnded
        | succ fewer =>
          have work : Progress services rootModule maxDepth larger
              (ids ++ remaining (frame :: stack)) first.loads := by
            simpa [remaining,rest,done] using others
          have beyond := ih fewer (by omega) work insideLarger leftEnded
          have less : fewer ≤ steps + 1 := by omega
          rwa [inOrder_deeper less beyond]

private def rootFrame : Frame := { id := rootId, pending := [] }

private theorem root_visited {last : Graph} {added : List NodeId}
    (visited : ((ofRoot rootModule maxDepth).visit services rootId).run before = (.ok (last,added),after)) :
    Progress services rootModule maxDepth last (added ++ remaining [rootFrame]) [rootModule.path] ∧
      Inside last [rootFrame] := by
  have state : Progress services rootModule maxDepth last (added ++ []) [rootModule.path] :=
    progress_ofRoot.visit visited
  exact ⟨state,Inside.nil.cons state.nonempty⟩

theorem buildWithin_of_recursively {depth : Nat}
    (ran : (buildRecursively services depth rootModule maxDepth).run before = (run,after))
    (ended : run.outcome ≠ .unfinished) :
    ∃ steps, (buildWithin services steps rootModule maxDepth).run before = (run,after) := by
  cases depth with
  | zero =>
    cases ran
    exact absurd rfl ended
  | succ depth =>
    rw [buildRecursively_run,explore_succ] at ran
    split at ran
    case h_2 failure middle visited =>
      cases ran
      refine ⟨0,?_⟩
      rw [buildWithin_run,visited]
      rfl
    case h_1 last added middle visited =>
      obtain ⟨state,inside⟩ := root_visited visited
      cases below : (inOrder (explore services depth) added last [rootModule.path]).run middle with
      | mk first final =>
        rw [show [] ++ ((ofRoot rootModule maxDepth).node rootId).path?.toList = [rootModule.path]
          from rfl,below] at ran
        cases ran
        have endedBelow : first.outcome ≠ .unfinished := through_ended.mp ended
        obtain ⟨⟨taken,takes⟩,-⟩ := expand_follows state inside below endedBelow
        have known : Inside (ofRoot rootModule maxDepth) [rootFrame] := Inside.nil.cons Nat.one_pos
        have goes := takes 2
        rw [resume_extends (progress_ofRoot.extends visited) known,rootFrame,resume_through,
          resume_nil] at goes
        refine ⟨taken + 2,?_⟩
        rw [buildWithin_run,visited]
        simpa only [List.append_nil] using goes

theorem buildRecursively_ended
    (ended : ((buildWithin services steps rootModule maxDepth).run before).1.outcome ≠ .unfinished) :
    ((buildRecursively services (steps + 1) rootModule maxDepth).run before).1.outcome ≠
      .unfinished := by
  rw [buildWithin_run] at ended
  split at ended
  case h_2 failure middle visited =>
    rw [buildRecursively_run,explore_succ,visited]
    exact Outcome.failed_ended _
  case h_1 last added middle visited =>
    obtain ⟨state,inside⟩ := root_visited visited
    have endedBelow : ((inOrder (explore services steps) added last [rootModule.path]).run
        middle).1.outcome ≠ .unfinished :=
      inOrder_ended state inside (by simpa only [rootFrame,List.append_nil] using ended)
    cases below : (inOrder (explore services steps) added last [rootModule.path]).run middle with
    | mk first final =>
      rw [below] at endedBelow
      rw [buildRecursively_run,explore_visited visited below]
      exact through_ended.mpr endedBelow

theorem settles_recursively
    (settles : Settles (fun steps => buildWithin services steps rootModule maxDepth) before run after) :
    Settles (fun depth => buildRecursively services depth rootModule maxDepth) before run after := by
  obtain ⟨ended,enough,settled⟩ := settles
  have recursion : ((buildRecursively services (enough + 1) rootModule maxDepth).run
      before).1.outcome ≠ .unfinished :=
    buildRecursively_ended (by rwa [settled enough (Nat.le_refl _)])
  cases called : (buildRecursively services (enough + 1) rootModule maxDepth).run before with
  | mk other final =>
    rw [called] at recursion
    obtain ⟨steps,same⟩ := buildWithin_of_recursively called recursion
    obtain ⟨rfl,rfl⟩ := (settles_of_ended same recursion).unique ⟨ended,enough,settled⟩
    refine ⟨ended,enough + 1,fun deeper less => ?_⟩
    rw [← called,buildRecursively_run,buildRecursively_run]
    exact explore_deeper less (by rwa [← buildRecursively_run,called])

/-- Within a limit, the stack builds what the procedure builds, unless the limit stops it. -/
theorem buildWithin_built_iff : ((buildWithin services steps rootModule maxDepth).run before).1.outcome = .built graph ↔
    ((buildWithin services steps rootModule maxDepth).run before).1.outcome ≠ .unfinished ∧
      ∃ depth, ((buildRecursively services depth rootModule maxDepth).run before).1.outcome = .built graph := by
  cases stacked : (buildWithin services steps rootModule maxDepth).run before with
  | mk run after =>
    have agrees {depth : Nat} (ended : run.outcome ≠ .unfinished) (recursion :
        ((buildRecursively services depth rootModule maxDepth).run before).1.outcome ≠ .unfinished) :
        ((buildRecursively services depth rootModule maxDepth).run before).1 = run := by
      obtain ⟨enough,same⟩ := buildWithin_of_recursively rfl recursion
      exact ((settles_of_ended same recursion).unique (settles_of_ended stacked ended)).1
    constructor
    · intro built
      have ended : run.outcome ≠ .unfinished := built ▸ Outcome.built_ended graph
      have recursion := buildRecursively_ended (by rwa [stacked])
      exact ⟨ended,steps + 1,(congrArg Run.outcome (agrees ended recursion)).trans built⟩
    · rintro ⟨ended,depth,built⟩
      exact (congrArg Run.outcome (agrees ended (built ▸ Outcome.built_ended graph))).symm.trans built

/-- The stack ends with an answer exactly when the procedure does, and with the same one: the graph
with all that its nodes hold, or the failure with the modules that it passed through, the files
loaded in order, and the state in which the services are left, which tells all that they were asked
when they keep it. -/
theorem stack_refines_recursion :
    Settles (fun steps => buildWithin services steps rootModule maxDepth) before run after ↔
      Settles (fun depth => buildRecursively services depth rootModule maxDepth) before run after := by
  refine ⟨settles_recursively,?_⟩
  rintro ⟨ended,enough,settled⟩
  obtain ⟨steps,same⟩ := buildWithin_of_recursively (settled enough (Nat.le_refl _)) ended
  exact settles_of_ended same ended

inductive Question
  | file (path : Path)
  | managed (path : Path)
  | name (name : String)
  deriving DecidableEq

def needs : String → List String
  | "app" => ["lib","app","gone"]
  | "lib" => ["deep"]
  | "start" => ["tool","worse","app"]
  | "worse" => ["bad"]
  | _ => []

/-- Services that keep what they were asked. One file cannot be read, one name leads nowhere, and the
application refers to two more modules from its managed part. -/
def asked : Services (StateM (List Question)) where
  load path := do
    modify (· ++ [.file path])
    return if path.text = "bad" then .error (.parse "cut off") else .ok {
      path
      recognized := path.text = "app"
      imports := (needs path.text).map fun dll => { dll, delay := false, functions := [] } }
  readManaged path := do
    modify (· ++ [.managed path])
    return .ok { modules := ["lib","tool"] }
  resolve _ name := do
    modify (· ++ [.name name])
    return .ok (if name = "gone" then { strategy := .notFound, path? := some ⟨"trace"⟩ }
      else { strategy := .standardSearch, path? := some ⟨name⟩ })

/-- The procedure on two programs, the first with a limit of two, the second with a file that cannot be
read three levels down. -/
theorem stack_refines_recursion_asked :
    Settles (fun depth => buildRecursively asked depth (.ofPath ⟨"app"⟩ []) 2) []
      ⟨.built (ofNodes (.ofPath ⟨"app"⟩ []) 2 [
        { name := "app", path? := some ⟨"app"⟩, strategy := .root, level := 0, resolved := true
          imports := ["lib","app","gone","lib","tool"], children := [1,0,2,3], dependencies := [1,0,2,1,3] },
        { name := "lib", path? := some ⟨"lib"⟩, strategy := .standardSearch, level := 1, resolved := true
          imports := ["deep"], children := [4], dependencies := [4] },
        { name := "gone", path? := none, strategy := .notFound, level := 1, resolved := true },
        { name := "tool", path? := some ⟨"tool"⟩, strategy := .standardSearch, level := 1, resolved := true },
        { name := "deep", path? := some ⟨"deep"⟩, strategy := .standardSearch, level := 2 }]),
        [⟨"app"⟩,⟨"lib"⟩,⟨"tool"⟩]⟩
      [.file ⟨"app"⟩,.managed ⟨"app"⟩,.name "lib",.name "app",.name "gone",.name "lib",.name "tool",
        .file ⟨"lib"⟩,.name "deep",.file ⟨"tool"⟩] ∧
    Settles (fun depth => buildRecursively asked depth (.ofPath ⟨"start"⟩ []) 0) []
      ⟨.failed (.inModules ["bad","worse","start"] (.parse "cut off")),
        [⟨"start"⟩,⟨"tool"⟩,⟨"worse"⟩,⟨"bad"⟩]⟩
      [.file ⟨"start"⟩,.name "tool",.name "worse",.name "app",.file ⟨"tool"⟩,.file ⟨"worse"⟩,.name "bad",
        .file ⟨"bad"⟩] := by
  constructor
  · refine stack_refines_recursion.mp (settles_of_ended (show (buildWithin asked 20 _ _).run _ = _ from ?_)
      (Outcome.built_ended _))
    change @Eq (Run × List Question) _ _
    decide +kernel
  · refine stack_refines_recursion.mp (settles_of_ended (show (buildWithin asked 20 _ _).run _ = _ from ?_)
      (Outcome.failed_ended _))
    change @Eq (Run × List Question) _ _
    decide +kernel

end LoadMap.Graph
