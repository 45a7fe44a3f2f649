import LoadMap.Graph.Build

/-! Services that note each file they are asked to load. With them a build ends as it does without,
and the notes are the files that its run names. And services that follow a table of imports. -/
namespace LoadMap.Graph

variable {m : Type → Type} [Monad m]

/-- The same services, with a list of the files that were to be loaded. -/
def recorded (services : Services m) : Services (StateT (List Path) m) where
  load path := do
    modify (· ++ [path])
    services.load path
  readManaged path := services.readManaged path
  resolve rootModule name := services.resolve rootModule name

/-- Every name is a file, which imports what a table says. -/
def linked (links : String → List String) : Services m where
  load path := return .ok { path, imports := (links path.text).map fun dll =>
    { dll, delay := false, functions := [] } }
  readManaged _ := return .ok {}
  resolve _ name := return .ok { strategy := .standardSearch, path? := some ⟨name⟩ }

/-- Names lead to files by one table, and files import what another says, however a path is spelled. -/
def filed (file : String → Resolution) (links : List Path.Component → List String) : Services m where
  load path := return .ok { path, imports := (links path.components).map fun dll =>
    { dll, delay := false, functions := [] } }
  readManaged _ := return .ok {}
  resolve _ name := return .ok (file name)

variable [LawfulMonad m] {services : Services m} {graph : Graph} {log : List Path}

theorem managedPart_recorded (binary : Binary) (path : Path) :
    (managedPart (recorded services) binary path).run log =
      (fun answer => (answer,log)) <$> managedPart services binary path := by
  unfold managedPart
  split
  · simp only [recorded,StateT.run_bind,StateT.run_monadLift,monadLift_self,bind_pure_comp,
      bind_map_left,map_bind]
    refine bind_congr fun answer => ?_
    rcases answer with (failure | references)
    · cases failure <;> simp
    · simp
  · simp

theorem load_recorded (node : Node) :
    (load (recorded services) node).run log =
      (fun answer => (answer,log ++ node.path?.toList)) <$> load services node := by
  unfold load
  cases node.path? with
  | none => simp
  | some path =>
    simp only [recorded,bind_assoc,StateT.run_bind,StateT.run_modify,StateT.run_monadLift,
      monadLift_self,bind_pure_comp,bind_map_left,pure_bind,Option.toList_some,map_bind]
    refine bind_congr fun binary => ?_
    cases binary with
    | error failure => simp
    | ok binary =>
      have same : (managedPart (recorded services) binary path).run (log ++ [path]) =
          (fun answer => (answer,log ++ [path])) <$> managedPart services binary path :=
        managedPart_recorded binary path
      simp only [recorded] at same
      simp only [StateT.run_bind,same,bind_map_left,map_bind]
      refine bind_congr fun managed => ?_
      cases managed <;> simp

theorem resolve_recorded (name : String) :
    (graph.resolve (recorded services) name).run log =
      (fun answer => (answer,log)) <$> graph.resolve services name := by
  simp only [resolve,recorded,StateT.run_bind,StateT.run_monadLift,monadLift_self,bind_pure_comp,
    bind_map_left,map_bind]
  refine bind_congr fun answer => ?_
  cases answer <;> simp

theorem linkAll_recorded (id : NodeId) (names : List String) :
    (linkAll (recorded services) id names graph).run log =
      (fun answer => (answer,log)) <$> linkAll services id names graph := by
  induction names generalizing graph with
  | nil => simp [linkAll]
  | cons name names ih =>
    simp only [linkAll,StateT.run_bind,resolve_recorded,bind_map_left,map_bind]
    refine bind_congr fun answer => ?_
    cases answer with
    | error failure => simp
    | ok resolution =>
      simp only [StateT.run_bind,ih,bind_map_left,map_bind]
      refine bind_congr fun rest => ?_
      cases rest <;> simp

theorem visit_recorded (id : NodeId) :
    (graph.visit (recorded services) id).run log =
      (fun answer => (answer,log ++ (graph.node id).path?.toList)) <$> graph.visit services id := by
  simp only [visit,StateT.run_bind,load_recorded,bind_map_left,map_bind]
  refine bind_congr fun answer => ?_
  cases answer with
  | error failure => simp
  | ok loaded =>
    dsimp only
    split
    · simp
    · simp only [StateT.run_bind,linkAll_recorded,bind_map_left,map_bind]
      refine bind_congr fun rest => ?_
      cases rest <;> simp

theorem expand_recorded (steps : Nat) (stack : List Frame) (loads : List Path) :
    ∀ log, (expand (recorded services) steps stack graph loads).run (log ++ loads) =
      (fun run => (run,log ++ run.loads)) <$> expand services steps stack graph loads := by
  induction steps generalizing stack graph loads with
  | zero => simp [expand]
  | succ steps ih =>
    intro log
    match stack with
    | [] => simp [expand]
    | { pending := [], .. } :: stack => exact ih _ _ _
    | { id, pending := child :: pending } :: stack =>
      simp only [expand,StateT.run_bind,visit_recorded,List.append_assoc,bind_map_left,map_bind]
      refine bind_congr fun answer => ?_
      cases answer with
      | error failure => simp
      | ok rest => exact ih _ _ _

/-- The files that a run names are the ones that the services were asked to load, in order. -/
theorem build_recorded (steps : Nat) (rootModule : RootModule) (maxDepth : Nat) :
    (buildWithin (recorded services) steps rootModule maxDepth).run log =
      (fun run => (run,log ++ run.loads)) <$> buildWithin services steps rootModule maxDepth := by
  simp only [buildWithin,StateT.run_bind,visit_recorded,bind_map_left,map_bind]
  refine bind_congr fun answer => ?_
  cases answer with
  | error failure => simp [ofRoot,rootId,node]
  | ok rest => exact expand_recorded _ _ _ _

theorem recorded_run {services : Services Id} {steps maxDepth : Nat} {rootModule : RootModule}
    (log : List Path) :
    (buildWithin (recorded services) steps rootModule maxDepth).run log =
      ((buildWithin services steps rootModule maxDepth).run,
        log ++ (buildWithin services steps rootModule maxDepth).run.loads) :=
  build_recorded steps rootModule maxDepth

end LoadMap.Graph
