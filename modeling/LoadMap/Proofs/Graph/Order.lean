import LoadMap.Proofs.Graph.Recursion
import Mathlib.Data.List.Chain

/-! The order in which the recursive procedure comes to modules, and the way by which it comes to each:
the module itself, the one below which it was met first, and so on up to where the procedure began. -/
namespace LoadMap.Graph

variable {σ : Type} {services : Services (StateM σ)} {rootModule : RootModule} {maxDepth : Nat}
  {graph last : Graph} {before after : σ} {ids visited above work : List NodeId} {failing : NodeId}
  {loads : List Path}

/-- The procedure has gone through some modules in their order, and after each through those that were
new with it; `visited` are the modules that it came to. -/
inductive Explored (services : Services (StateM σ)) :
    Graph → σ → List NodeId → (visited : List NodeId) → Graph → σ → Prop
  | nil {graph : Graph} {state : σ} : Explored services graph state [] [] graph state
  | cons {graph first second last : Graph} {before middle next after : σ} {id : NodeId}
      {ids added inner others : List NodeId}
      (visit : (graph.visit services id).run before = (.ok (first,added),middle))
      (below : Explored services first middle added inner second next)
      (rest : Explored services second next ids others last after) :
      Explored services graph before (id :: ids) (id :: (inner ++ others)) last after

/-- The procedure comes to a module, having gone through `visited`; `above` are the modules on the way
back, the nearest one first. -/
inductive Reaches (services : Services (StateM σ)) :
    Graph → σ → List NodeId → (visited : List NodeId) → NodeId → (above : List NodeId) →
    Graph → σ → Prop
  | here {graph last : Graph} {before after : σ} {id : NodeId} {gone ids visited : List NodeId}
      (explored : Explored services graph before gone visited last after) :
      Reaches services graph before (gone ++ id :: ids) visited id [] last after
  | deeper {graph middle first last : Graph} {before start next after : σ} {id reached : NodeId}
      {gone ids added earlier visited above : List NodeId}
      (explored : Explored services graph before gone earlier middle start)
      (visit : (middle.visit services id).run start = (.ok (first,added),next))
      (inner : Reaches services first next added visited reached above last after) :
      Reaches services graph before (gone ++ id :: ids) (earlier ++ id :: visited) reached
        (above ++ [id]) last after

def pathsOf (graph : Graph) (ids : List NodeId) : List Path :=
  ids.filterMap fun id => (graph.node id).path?

def Done (graph : Graph) (ids : List NodeId) : Prop :=
  ∀ id ∈ ids, id < graph.size ∧ (graph.node id).resolved = true

section Growth

variable {larger : Graph} {others : List NodeId} {id : NodeId}

theorem Extends.toModule (grown : Extends graph larger) (inside : id < graph.size) :
    (larger.node id).toModule = (graph.node id).toModule := (grown.outline id inside).1

theorem Done.extends (done : Done graph ids) (grown : Extends graph larger) : Done larger ids := by
  intro id member
  obtain ⟨inside,resolved⟩ := done id member
  refine ⟨Nat.lt_of_lt_of_le inside grown.size,?_⟩
  rw [grown.kept id inside resolved,resolved]

theorem Done.append (done : Done graph ids) (also : Done graph others) : Done graph (ids ++ others) := by
  intro id member
  rcases List.mem_append.mp member with left | right
  · exact done id left
  · exact also id right

theorem done_nil : Done graph [] := fun _ member => absurd member List.not_mem_nil

theorem pathsOf_cons (id : NodeId) (ids : List NodeId) :
    graph.pathsOf (id :: ids) = (graph.node id).path?.toList ++ graph.pathsOf ids := by
  unfold pathsOf
  cases place : (graph.node id).path? <;> simp [place]

theorem Done.pathsOf_append (done : Done graph ids) (grown : Extends graph larger)
    (others : List NodeId) :
    larger.pathsOf (ids ++ others) = graph.pathsOf ids ++ larger.pathsOf others := by
  have same : larger.pathsOf ids = graph.pathsOf ids := by
    refine List.filterMap_congr fun id member => ?_
    rw [grown.toModule (done id member).1]
  rw [← same]
  exact List.filterMap_append

theorem Progress.done_visit {added : List NodeId}
    (progress : Progress services rootModule maxDepth graph (id :: work) loads)
    (visiting : (graph.visit services id).run before = (.ok (last,added),after)) :
    Done last [id] := by
  obtain ⟨inside,-,-⟩ := progress.mem_head
  obtain ⟨visited,more,visit,rfl,-⟩ := progress.visit_eq visiting
  intro other member
  obtain rfl := List.mem_singleton.mp member
  rw [node_put_self inside]
  exact ⟨Nat.lt_of_lt_of_le inside (by rw [size_put]; exact Nat.le_add_right _ _),visit.resolved⟩

end Growth

theorem Explored.progress (explored : Explored services graph before ids visited last after)
    (progress : Progress services rootModule maxDepth graph (ids ++ work) loads) :
    Extends graph last ∧ Done last visited ∧
      Progress services rootModule maxDepth last work (loads ++ last.pathsOf visited) := by
  induction explored generalizing work loads with
  | nil =>
    refine ⟨.refl _,done_nil,?_⟩
    simpa [pathsOf] using progress
  | @cons graph first second last before middle next after id ids added inner others visit _ _ below rest =>
    obtain ⟨grownBelow,doneBelow,state⟩ := below (progress.visit visit)
    obtain ⟨grownRest,doneRest,final⟩ := rest state
    have grown := (progress.extends visit).trans (grownBelow.trans grownRest)
    have self := (progress.done_visit visit).extends (grownBelow.trans grownRest)
    refine ⟨grown,self.append ((doneBelow.extends grownRest).append doneRest),?_⟩
    rw [pathsOf_cons,doneBelow.pathsOf_append grownRest,grown.toModule progress.mem_head.1]
    simpa only [List.append_assoc] using final

theorem Reaches.progress (reaches : Reaches services graph before ids visited failing above last after)
    (progress : Progress services rootModule maxDepth graph (ids ++ work) loads) :
    Extends graph last ∧ Done last visited ∧ ∃ rest,
      Progress services rootModule maxDepth last (failing :: rest) (loads ++ last.pathsOf visited) := by
  induction reaches generalizing work loads with
  | here explored =>
    rw [List.append_assoc] at progress
    obtain ⟨grown,done,state⟩ := explored.progress progress
    exact ⟨grown,done,_,state⟩
  | deeper explored visit _ inner =>
    rw [List.append_assoc] at progress
    obtain ⟨grownBefore,doneBefore,state⟩ := explored.progress progress
    obtain ⟨grownInner,done,rest,final⟩ := inner (state.visit visit)
    have grown := (state.extends visit).trans grownInner
    have self := (state.done_visit visit).extends grownInner
    refine ⟨grownBefore.trans grown,(doneBefore.extends grown).append (self.append done),rest,?_⟩
    rw [doneBefore.pathsOf_append grown,pathsOf_cons,grown.toModule state.mem_head.1]
    simpa only [List.append_assoc] using final

/-- Of the modules visited, the parent is the first one that imports the child, and it lies one level
above. -/
def MetBelow (graph : Graph) (visited : List NodeId) (child parent : NodeId) : Prop :=
  (graph.node child).level = (graph.node parent).level + 1 ∧
  ∃ earlier later, visited = earlier ++ parent :: later ∧
    child ∈ (graph.node parent).dependencies ∧
    ∀ other ∈ earlier, child ∉ (graph.node other).dependencies

theorem Progress.met_below {id child : NodeId} {past added later : List NodeId} {first : Graph}
    (progress : Progress services rootModule maxDepth graph (id :: work) loads)
    (visiting : (graph.visit services id).run before = (.ok (first,added),after))
    (grown : Extends first last) (done : Done graph past) (member : child ∈ added) :
    MetBelow last (past ++ id :: later) child id := by
  obtain ⟨new,inside,level,edge⟩ := progress.added_new visiting member
  obtain ⟨within,resolved⟩ := progress.done_visit visiting id List.mem_cons_self
  have grownFirst := progress.extends visiting
  refine ⟨?_,past,later,rfl,?_,fun other gone leads => ?_⟩
  · rw [(grown.outline child inside).2,level,(grown.outline id within).2,
      (grownFirst.outline id progress.mem_head.1).2]
  · rwa [grown.kept id within resolved]
  · obtain ⟨known,finished⟩ := done other gone
    -- What a module led to when it was visited was there then, and the child came later.
    rw [(grownFirst.trans grown).kept other known finished] at leads
    have old := (progress.settled other known finished).2.inside leads
    exact absurd old (Nat.not_lt.mpr new)

/-- The way back from a module leads from each module to the one below which it was met first, and
ends with one of those with which the procedure began. -/
theorem Reaches.way (reaches : Reaches services graph before ids visited failing above last after)
    (progress : Progress services rootModule maxDepth graph (ids ++ work) loads)
    {past : List NodeId} (done : Done graph past) :
    (∃ top ∈ ids, (failing :: above).getLast? = some top) ∧
      (failing :: above).IsChain (MetBelow last (past ++ visited)) := by
  induction reaches generalizing work loads past with
  | here => exact ⟨⟨_,by simp,rfl⟩,.singleton _⟩
  | @deeper graph middle first last before start next after id reached gone ids added earlier visited
      above explored visit inner ih =>
    rw [List.append_assoc] at progress
    obtain ⟨grownBefore,doneBefore,state⟩ := explored.progress progress
    obtain ⟨grown,-⟩ := inner.progress (state.visit visit)
    have before : Done middle (past ++ earlier) := (done.extends grownBefore).append doneBefore
    have since := (before.extends (state.extends visit)).append (state.done_visit visit)
    obtain ⟨⟨top,new,ends⟩,chain⟩ := ih (state.visit visit) since
    have met : MetBelow last (past ++ (earlier ++ id :: visited)) top id := by
      rw [← List.append_assoc]
      exact state.met_below visit grown before new
    refine ⟨⟨id,by simp,?_⟩,?_⟩
    · rw [← List.cons_append]
      exact List.getLast?_concat
    · rw [← List.cons_append]
      refine .append (by simpa using chain) (.singleton _) fun child isLast parent isFirst => ?_
      rw [ends] at isLast
      cases isLast
      cases isFirst
      exact met

end LoadMap.Graph
