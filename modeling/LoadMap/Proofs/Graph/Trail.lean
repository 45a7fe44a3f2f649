import LoadMap.Proofs.Graph.Order
import LoadMap.Proofs.Graph.Refinement
import LoadMap.Proofs.Graph.Services

/-! A build that fails. It stops at the first module, in the order of the recursive procedure, that
cannot be loaded or has an import that cannot be resolved, and the trail of its failure leads from this
module back to the root. -/
namespace LoadMap

namespace Failure

theorem trail_inModule (failure : Failure) (identity : String) :
    (failure.inModule identity).trail = failure.trail ++ [identity] := by
  cases failure <;> rfl

theorem rootCause_inModule (failure : Failure) (identity : String) :
    (failure.inModule identity).rootCause = failure.rootCause := by
  cases failure <;> rfl

end Failure

namespace Graph

variable {σ : Type} {services : Services (StateM σ)} {rootModule : RootModule} {maxDepth : Nat}
  {graph last : Graph} {before after : σ} {ids visited above work : List NodeId} {failing : NodeId}
  {loads : List Path} {cause failure : Failure} {run : Run}

section Blame

theorem blame_append (failure : Failure) (ids : List NodeId) (id : NodeId) :
    graph.blame failure (ids ++ [id]) =
      (graph.blame failure ids).inModule (graph.node id).identity := by
  rw [blame,List.foldl_concat]
  rfl

theorem trail_blame (failure : Failure) (ids : List NodeId) :
    (graph.blame failure ids).trail =
      failure.trail ++ ids.map fun id => (graph.node id).identity := by
  induction ids using List.reverseRecOn with
  | nil => simp [blame]
  | append_singleton ids id ih =>
    rw [blame_append,Failure.trail_inModule,ih,List.append_assoc,List.map_append]
    rfl

theorem rootCause_blame (failure : Failure) (ids : List NodeId) :
    (graph.blame failure ids).rootCause = failure.rootCause := by
  induction ids using List.reverseRecOn with
  | nil => rfl
  | append_singleton ids id ih => rw [blame_append,Failure.rootCause_inModule,ih]

end Blame

section Refusal

/-- A module fails when a service refuses: its file cannot be loaded, what is managed in it cannot be
read, or one of its imports cannot be resolved after those before it were. -/
inductive Fails (services : Services (StateM σ)) (rootModule : RootModule) (node : Node)
    (cause : Failure) (before after : σ) : Prop
  | load {path : Path} (file : node.path? = some path)
      (refused : (services.load path).run before = (.error cause,after))
  | managed {path : Path} {binary : Binary} {middle : σ} (file : node.path? = some path)
      (loaded : (services.load path).run before = (.ok binary,middle))
      (recognized : binary.recognized = true) (foreign : ∀ image, cause ≠ .notManaged image)
      (refused : (services.readManaged path).run middle = (.error cause,after))
  | resolve {loaded : Node} {middle start : σ} {done names : List String} {name : String}
      (loading : (load services node).run before = (.ok loaded,middle))
      (imports : loaded.imports = done ++ name :: names)
      (resolved : Resolves services rootModule done middle start)
      (refused : (services.resolve rootModule name).run start = (.error cause,after))

theorem managedPart_error {binary : Binary} {path : Path}
    (reading : (managedPart services binary path).run before = (.error cause,after)) :
    binary.recognized = true ∧ (∀ image, cause ≠ .notManaged image) ∧
      (services.readManaged path).run before = (.error cause,after) := by
  unfold managedPart at reading
  by_cases recognized : binary.recognized = true
  · simp only [recognized,if_true,bind_run] at reading
    cases read : (services.readManaged path).run before with
    | mk answer middle =>
      rw [read] at reading
      cases answer with
      | ok references => cases reading
      | error failure =>
        cases failure
        case notManaged => cases reading
        all_goals
          cases reading
          exact ⟨recognized,nofun,rfl⟩
  · simp only [recognized] at reading
    cases reading

theorem load_fails {node : Node} (loading : (load services node).run before = (.error cause,after)) :
    Fails services rootModule node cause before after := by
  unfold load at loading
  cases file : node.path? with
  | none =>
    rw [file] at loading
    cases loading
  | some path =>
    simp only [file,bind_run] at loading
    cases loaded : (services.load path).run before with
    | mk answer middle =>
      rw [loaded] at loading
      cases answer with
      | error failure =>
        cases loading
        exact .load file loaded
      | ok binary =>
        simp only [bind_run] at loading
        cases reading : (managedPart services binary path).run middle with
        | mk managed final =>
          rw [reading] at loading
          cases managed with
          | ok managed => cases loading
          | error failure =>
            cases loading
            obtain ⟨recognized,foreign,refused⟩ := managedPart_error reading
            exact .managed file loaded recognized foreign refused

theorem visit_fails {id : NodeId}
    (visiting : (graph.visit services id).run before = (.error cause,after)) :
    Fails services graph.rootModule (graph.node id) cause before after := by
  rcases visit_error visiting with loading | ⟨loaded,middle,loading,done,name,rest,start,imports,stopped⟩
  · exact load_fails loading
  · exact .resolve loading imports stopped.1 stopped.2

end Refusal

section Trace

variable {first : Graph} {middle : σ} {gone earlier : List NodeId} {depth : Nat}

theorem Explored.append {more : List NodeId}
    (explored : Explored services graph before gone visited first middle)
    (rest : Explored services first middle ids more last after) :
    Explored services graph before (gone ++ ids) (visited ++ more) last after := by
  induction explored with
  | nil => exact rest
  | cons visit below _ _ ih =>
    rw [List.cons_append,List.cons_append,List.append_assoc]
    exact .cons visit below (ih rest)

theorem Explored.reaches (explored : Explored services graph before gone earlier first middle)
    (reaches : Reaches services first middle ids visited failing above last after) :
    Reaches services graph before (gone ++ ids) (earlier ++ visited) failing above last after := by
  cases reaches with
  | here more =>
    rw [← List.append_assoc]
    exact .here (explored.append more)
  | deeper more visit inner =>
    rw [← List.append_assoc,← List.append_assoc]
    exact .deeper (explored.append more) visit inner

theorem Reaches.among (reaches : Reaches services graph before ids visited failing above last after)
    (others : List NodeId) :
    Reaches services graph before (ids ++ others) visited failing above last after := by
  cases reaches with
  | here explored =>
    rw [List.append_assoc]
    exact .here explored
  | deeper explored visit inner =>
    rw [List.append_assoc]
    exact .deeper explored visit inner

/-- A run through some modules has gone through all of them, or has stopped at a module that it came to
and could not visit. Its loads are the files of the modules that it came to, in this order. -/
def Traced (services : Services (StateM σ)) (graph : Graph) (before : σ) (ids : List NodeId)
    (loads : List Path) (run : Run) (after : σ) : Prop :=
  match run.outcome with
  | .built last => ∃ visited, Explored services graph before ids visited last after ∧
      run.loads = loads ++ last.pathsOf visited
  | .failed failure => ∃ visited failing above last middle cause,
      Reaches services graph before ids visited failing above last middle ∧
      (last.visit services failing).run middle = (.error cause,after) ∧
      failure = last.blame cause (failing :: above) ∧
      run.loads = loads ++ last.pathsOf (visited ++ [failing])
  | .unfinished => True

private theorem traced_inOrder
    (calls : ∀ {child graph loads before run after work},
      Progress services rootModule maxDepth graph (child :: work) loads →
      (explore services depth child graph loads).run before = (run,after) →
      Traced services graph before [child] loads run after)
    (progress : Progress services rootModule maxDepth graph (ids ++ work) loads)
    (ran : (inOrder (explore services depth) ids graph loads).run before = (run,after)) :
    Traced services graph before ids loads run after := by
  induction ids generalizing graph loads before with
  | nil =>
    cases ran
    exact ⟨[],.nil,(List.append_nil _).symm⟩
  | cons child ids ih =>
    simp only [inOrder,bind_run] at ran
    cases called : (explore services depth child graph loads).run before with
    | mk first middle =>
      rw [called] at ran
      have traced := calls progress called
      unfold Traced at traced
      cases outcome : first.outcome with
      | unfinished =>
        simp only [outcome] at ran
        cases ran
        rw [Traced,outcome]
        trivial
      | failed failure =>
        simp only [outcome] at ran traced
        cases ran
        rw [Traced,outcome]
        obtain ⟨visited,failing,above,last,start,cause,reaches,rest⟩ := traced
        exact ⟨visited,failing,above,last,start,cause,reaches.among ids,rest⟩
      | built second =>
        simp only [outcome] at ran traced
        obtain ⟨earlier,explored,loaded⟩ := traced
        have start : Progress services rootModule maxDepth graph ([child] ++ (ids ++ work)) loads :=
          progress
        obtain ⟨-,done,state⟩ := explored.progress start
        rw [← loaded] at state
        -- The files of what was visited so far stay the same, so the loads of both parts add up.
        have rest := ih state ran
        unfold Traced at rest ⊢
        cases ending : run.outcome with
        | unfinished => trivial
        | built last =>
          simp only [ending] at rest
          obtain ⟨visited,goesOn,others⟩ := rest
          obtain ⟨grown,-⟩ := goesOn.progress state
          refine ⟨earlier ++ visited,explored.append goesOn,?_⟩
          rw [others,loaded,done.pathsOf_append grown,List.append_assoc]
        | failed failure =>
          simp only [ending] at rest
          obtain ⟨visited,failing,above,last,start,cause,reaches,stops,blamed,others⟩ := rest
          obtain ⟨grown,-⟩ := reaches.progress state
          refine ⟨earlier ++ visited,failing,above,last,start,cause,explored.reaches reaches,stops,
            blamed,?_⟩
          rw [others,loaded,List.append_assoc earlier,done.pathsOf_append grown,List.append_assoc]

private theorem traced_explore
    (lists : ∀ {ids graph loads before run after work},
      Progress services rootModule maxDepth graph (ids ++ work) loads →
      (inOrder (explore services depth) ids graph loads).run before = (run,after) →
      Traced services graph before ids loads run after)
    {child : NodeId} (progress : Progress services rootModule maxDepth graph (child :: work) loads)
    (ran : (explore services (depth + 1) child graph loads).run before = (run,after)) :
    Traced services graph before [child] loads run after := by
  have known := progress.mem_head.1
  rw [explore_succ] at ran
  split at ran
  case h_2 failure middle visit =>
    cases ran
    refine ⟨[],child,[],graph,before,failure,.here .nil,visit,rfl,?_⟩
    rw [List.nil_append,pathsOf_cons,pathsOf,List.filterMap_nil,List.append_nil]
  case h_1 next added middle visit =>
    cases below : (inOrder (explore services depth) added next
        (loads ++ (graph.node child).path?.toList)).run middle with
    | mk inner final =>
      rw [below] at ran
      cases ran
      have state := progress.visit visit
      have traced := lists state below
      have grown := progress.extends visit
      unfold Traced at traced ⊢
      cases ending : inner.outcome with
      | unfinished => trivial
      | built last =>
        simp only [ending] at traced
        obtain ⟨visited,explored,loaded⟩ := traced
        obtain ⟨further,-⟩ := explored.progress state
        refine ⟨child :: (visited ++ []),.cons visit explored .nil,?_⟩
        rw [loaded,List.append_nil,pathsOf_cons,(grown.trans further).toModule known,List.append_assoc]
      | failed failure =>
        simp only [ending] at traced
        obtain ⟨visited,failing,above,last,start,cause,reaches,stops,blamed,loaded⟩ := traced
        obtain ⟨further,-⟩ := reaches.progress state
        have same := (grown.trans further).toModule known
        have comes : Reaches services graph before ([] ++ [child]) ([] ++ child :: visited) failing
            (above ++ [child]) last start := .deeper .nil visit reaches
        refine ⟨child :: visited,failing,above ++ [child],last,start,cause,comes,stops,?_,?_⟩
        · rw [← List.cons_append,blame_append,blamed,same]
        · rw [loaded,List.cons_append,pathsOf_cons,same,List.append_assoc]

theorem traced_call {child : NodeId}
    (progress : Progress services rootModule maxDepth graph (child :: work) loads)
    (ran : (explore services depth child graph loads).run before = (run,after)) :
    Traced services graph before [child] loads run after := by
  induction depth generalizing child graph loads before run after work with
  | zero =>
    cases ran
    trivial
  | succ depth ih => exact traced_explore (traced_inOrder ih) progress ran

end Trace

section WayBack

/-- The way back from a module to the root: each module on it was met first below the next one, so
that the levels fall by one with each. -/
structure WayBack (graph : Graph) (visited : List NodeId) (failing : NodeId) (above : List NodeId) :
    Prop where
  met : (failing :: above).IsChain (MetBelow graph visited)
  root : (failing :: above).getLast? = some rootId
  length : (failing :: above).length = (graph.node failing).level + 1
  distinct : (failing :: above).Nodup

theorem length_of_met {top : NodeId} (met : (failing :: above).IsChain (MetBelow graph visited))
    (ends : (failing :: above).getLast? = some top) (start : (graph.node top).level = 0) :
    (failing :: above).length = (graph.node failing).level + 1 := by
  induction above generalizing failing with
  | nil =>
    obtain rfl : failing = top := Option.some.inj ends
    rw [start]
    rfl
  | cons parent above ih =>
    obtain ⟨first,rest⟩ := List.isChain_cons_cons.mp met
    rw [List.getLast?_cons_cons] at ends
    rw [List.length_cons,ih rest ends,first.1]

theorem distinct_of_met (met : (failing :: above).IsChain (MetBelow graph visited)) :
    (failing :: above).Nodup := by
  -- The levels fall on the way back, so no module can be on it twice.
  have falling : ((failing :: above).map fun id => (graph.node id).level).IsChain (· > ·) := by
    refine (List.isChain_map _).mpr (met.imp fun child parent below => ?_)
    rw [below.1]
    exact Nat.lt_succ_self _
  have different := (List.isChain_iff_pairwise.mp falling).imp Nat.ne_of_gt
  exact List.Nodup.of_map _ different

private theorem progress_atRoot :
    Progress services rootModule maxDepth (ofRoot rootModule maxDepth) ([rootId] ++ []) [] :=
  progress_ofRoot

variable
    (reaches : Reaches services (ofRoot rootModule maxDepth) before [rootId] visited failing above last
      after)
include reaches

theorem Reaches.state : ∃ rest,
    Progress services rootModule maxDepth last (failing :: rest) (last.pathsOf visited) :=
  (reaches.progress progress_atRoot).2.2

theorem Reaches.wayBack : WayBack last visited failing above := by
  obtain ⟨⟨top,member,ends⟩,met⟩ := reaches.way progress_atRoot done_nil
  obtain rfl := List.mem_singleton.mp member
  obtain ⟨rest,state⟩ := reaches.state
  exact ⟨met,ends,length_of_met met ends state.root.2,distinct_of_met met⟩

end WayBack

section Failing

variable {steps : Nat}

/-- Where and why a build failed. It came to a module, after the ones in `visited`, for which a service
refused. The trail goes on from the one that the refusal brought along, through this module and those
above it up to the root. -/
structure FailedAt (services : Services (StateM σ)) (rootModule : RootModule) (maxDepth : Nat)
    (before : σ) (failure : Failure) (after : σ) (graph : Graph) (visited : List NodeId)
    (failing : NodeId) (above : List NodeId) (cause : Failure) : Prop where
  stops : ∃ middle,
    Reaches services (ofRoot rootModule maxDepth) before [rootId] visited failing above graph middle ∧
    Fails services rootModule (graph.node failing) cause middle after
  way : WayBack graph visited failing above
  trail : failure.trail = cause.trail ++ (failing :: above).map fun id => (graph.node id).identity
  root : failure.trail.getLast? = some rootModule.asModule.identity
  rootCause : failure.rootCause = cause.rootCause

/-- A build that fails has failed at the first module, in the order of the recursive procedure, for
which a service refuses, and nothing was loaded after this module. The procedure fails in the same
way. -/
theorem failure_trail
    (ran : (buildWithin services steps rootModule maxDepth).run before = (run,after))
    (failed : run.outcome = .failed failure) :
    ∃ graph visited failing above cause,
      FailedAt services rootModule maxDepth before failure after graph visited failing above cause ∧
      (∀ log, ((buildWithin (recorded services) steps rootModule maxDepth).run log).run before =
        ((run,log ++ graph.pathsOf (visited ++ [failing])),after)) ∧
      ∃ depth, (buildRecursively services depth rootModule maxDepth).run before = (run,after) := by
  have ended : run.outcome ≠ .unfinished := by
    rw [failed]
    exact Outcome.failed_ended failure
  obtain ⟨-,depth,settled⟩ := settles_recursively (settles_of_ended ran ended)
  have recursion := settled depth (Nat.le_refl _)
  have traced := traced_call progress_ofRoot (buildRecursively_run.symm.trans recursion)
  simp only [Traced,failed] at traced
  obtain ⟨visited,failing,above,graph,middle,cause,reaches,stops,rfl,loaded⟩ := traced
  obtain ⟨rest,state⟩ := reaches.state
  have fails := visit_fails stops
  rw [state.sameRoot] at fails
  have way := reaches.wayBack
  refine ⟨graph,visited,failing,above,cause,
    ⟨⟨middle,reaches,fails⟩,way,trail_blame _ _,?_,rootCause_blame _ _⟩,fun log => ?_,depth,recursion⟩
  · rw [trail_blame,List.getLast?_append,List.getLast?_map,way.root]
    exact congrArg (fun item => some item.identity) state.root.1
  · have noted : run.loads = graph.pathsOf (visited ++ [failing]) := loaded
    rw [build_recorded,StateT.run_map,ran,← noted]
    rfl

def refusing {m : Type → Type} [Monad m] (file : String) (failure : Failure) (services : Services m) :
    Services m :=
  { services with load := fun path =>
      if path.text = file then return .error failure else services.load path }

def detours : String → List String
  | "app" => ["side","first"]
  | "first" => ["side","last","other"]
  | _ => []

def broken : Services (StateM Nat) :=
  refusing "last" (.inModules ["inner"] (.scan "broken")) (linked detours)

theorem failure_trail_carried :
    ∃ run after failure graph visited failing above cause,
      (buildWithin broken 9 (.ofPath ⟨"app"⟩ []) 0).run 0 = (run,after) ∧
      run.outcome = .failed failure ∧ failure.trail = ["inner","last","first","app"] ∧
      run.loads.map (·.text) = ["app","side","first","last"] ∧
      FailedAt broken (.ofPath ⟨"app"⟩ []) 0 0 failure after graph visited failing above cause := by
  have trail : Outcome.rec (motive := fun _ => List String) (fun _ => []) Failure.trail []
      ((buildWithin broken 9 (.ofPath ⟨"app"⟩ []) 0).run 0).1.outcome =
      ["inner","last","first","app"] := by decide +kernel
  have loaded : ((buildWithin broken 9 (.ofPath ⟨"app"⟩ []) 0).run 0).1.loads.map (·.text) =
      ["app","side","first","last"] := by decide +kernel
  cases ran : (buildWithin broken 9 (.ofPath ⟨"app"⟩ []) 0).run 0 with
  | mk run after =>
    rw [ran] at trail loaded
    cases failed : run.outcome with
    | failed failure =>
      rw [failed] at trail
      obtain ⟨graph,visited,failing,above,cause,stopped,-⟩ := failure_trail ran failed
      exact ⟨run,after,failure,graph,visited,failing,above,cause,rfl,failed,trail,loaded,stopped⟩
    | built graph =>
      rw [failed] at trail
      cases trail
    | unfinished =>
      rw [failed] at trail
      cases trail

end Failing

end Graph
end LoadMap
