import LoadMap.Proofs.Graph.Coverage
import LoadMap.Proofs.Graph.Store

/-! What the walks over a finished graph show. A walk unfolds a file at its first occurrence, whichever
module of that file comes first. What the others import is shown if they import the same, and only a
limit, or a loader that looks at how a path is spelled, can make them differ. -/
namespace LoadMap.Graph

open LoadMap.Tree (occurrencesAll occurrencesAll_singleton occurrences_eq mem_occurrences_self
  occurrences_below occurrences_map value_map preorder_occurrences)

variable {services : Services Id} {rootModule : RootModule} {maxDepth : Nat} {graph : Graph} {id : Nat}
  {loads : List Path} {steps : Nat} {tree : Tree NodeId}

section Siblings

variable {work : List NodeId} {left right child : Nat} {names : List String} {name : String}

theorem leads_unique (distinct : graph.keys.Nodup) {first second : Nat}
    (here : Leads (Answers (recorded services) rootModule) graph name first)
    (there : Leads (Answers (recorded services) rootModule) graph name second) : first = second := by
  obtain ⟨resolution,answer,found⟩ := here
  obtain ⟨other,again,same⟩ := there
  have answered := answers_iff.mp answer
  rw [answers_iff.mp again] at answered
  cases answered
  have bound := (List.getElem?_eq_some_iff.mp found).1
  exact (List.getElem?_inj bound distinct).mp (found.trans same.symm)

variable (progress : Progress (recorded services) rootModule maxDepth graph work loads)
include progress

theorem Progress.resolved_of_edge (inside : id < graph.size)
    (edge : child ∈ (graph.node id).dependencies) : (graph.node id).resolved = true := by
  by_contra left
  rw [progress.untouched id inside (Bool.not_eq_true _ ▸ left)] at edge
  cases edge

theorem Progress.edges_eq (leftIn : left < graph.size) (rightIn : right < graph.size)
    (leftDone : (graph.node left).resolved = true) (rightDone : (graph.node right).resolved = true)
    (same : (graph.node left).imports = (graph.node right).imports) :
    (graph.node left).dependencies = (graph.node right).dependencies ∧
      (graph.node left).children = (graph.node right).children := by
  have first := (progress.settled left leftIn leftDone).2
  have second := (progress.settled right rightIn rightDone).2
  have unique : Relator.RightUnique (Leads (Answers (recorded services) rootModule) graph) := by
    intro name here there
    exact leads_unique progress.distinct
  have others := second.edges
  rw [← same] at others
  have edges := unique.forall₂ first.edges others
  refine ⟨edges,?_⟩
  rw [first.children,second.children,same,edges]

/-- Every module imported stands among the children, whatever else has its name. -/
theorem Progress.child_of_edge (inside : id < graph.size)
    (edge : child ∈ (graph.node id).dependencies) : child ∈ (graph.node id).children := by
  have settled := (progress.settled id inside (progress.resolved_of_edge inside edge)).2
  obtain ⟨place,bound,rfl⟩ := List.mem_iff_getElem.mp edge
  have within : place < (graph.node id).imports.length := by rwa [settled.edges.length_eq]
  have leads := settled.edges.get within bound
  obtain ⟨first,member,again⟩ := mem_firstEdges settled.edges (List.getElem_mem within) List.not_mem_nil
  rw [settled.children]
  have same := leads_unique progress.distinct again leads
  rw [List.get_eq_getElem] at same
  rwa [← same]

end Siblings

/-- A path along the imports of the table, with the nodes before its end, the last one first. -/
inductive EdgePath (graph : Graph) : (via : List NodeId) → NodeId → Prop
  | root : EdgePath graph [] rootId
  | step {via : List NodeId} {parent child : NodeId} (path : EdgePath graph via parent)
      (edge : child ∈ (graph.node parent).dependencies) : EdgePath graph (parent :: via) child

theorem ImportPath.edgePath {length : Nat} (path : ImportPath graph length id) :
    ∃ via, EdgePath graph via id ∧ via.length = length := by
  induction path with
  | root => exact ⟨[],.root,rfl⟩
  | step path resolved edge named ih =>
    obtain ⟨via,before,same⟩ := ih
    exact ⟨_,.step before edge,congrArg Nat.succ same⟩

theorem EdgePath.inside {via : List NodeId} (valid : ValidEdges Node.dependencies graph)
    (path : EdgePath graph via id) : ∀ before ∈ id :: via, before < graph.size := by
  induction path with
  | root => simpa using valid.root
  | @step via parent child path edge ih =>
    intro before member
    rcases List.mem_cons.mp member with rfl | passed
    · exact valid.edge parent (ih parent List.mem_cons_self) before edge
    · exact ih before passed

def firstOf (graph : Graph) (occurrences : List (Tree NodeId)) (place : Place) : Option (Tree NodeId) :=
  occurrences.find? fun here => graph.placeAt here.value == place

/-- The file of a node is shown first as that of another node, which imports other modules: it was left
unresolved at the limit, or it spells the path in another way. -/
def Eclipsed (graph : Graph) (occurrences : List (Tree NodeId)) (id : NodeId) : Prop :=
  ∃ first, graph.firstOf occurrences (graph.placeAt id) = some first ∧
    (graph.node first.value).imports ≠ (graph.node id).imports ∧
    ((graph.node first.value).resolved = false ∨ (graph.node first.value).path? ≠ (graph.node id).path?)

theorem exists_exported (graph : Graph) :
    ∃ tree last, Exported graph tree ∧ Unfolds Node.dependencies graph [] [rootId] [tree] last ∧
      graph.exportTree.2 = { root := graph.moduleTree tree, maxDepth := graph.maxDepth } := by
  obtain ⟨tree,last,unfolds,root,same⟩ := exportTree_unfolds graph
  have first := unfolds.law.2.1
  rw [occurrencesAll_singleton] at first
  exact ⟨tree,last,⟨root,first⟩,unfolds,by rw [same]⟩

theorem exists_printed (graph : Graph) :
    ∃ tree last, Printed graph tree ∧
      Unfolds Node.children graph [] (graph.node rootId).children tree.branches last ∧
      graph.print.2 = (tree.preorder 0).map graph.entryLine := by
  obtain ⟨trees,last,unfolds,same⟩ := print_unfolds graph
  obtain ⟨children,first,-⟩ := unfolds.law
  exact ⟨.node rootId trees,last,⟨rfl,children,first⟩,unfolds,by rw [same]⟩

theorem Exported.export_eq (exported : Exported graph tree) :
    graph.exportTree.2 = { root := graph.moduleTree tree, maxDepth := graph.maxDepth } := by
  obtain ⟨other,last,another,-,same⟩ := exists_exported graph
  rwa [another.unique exported]

theorem Printed.print_eq (printed : Printed graph tree) :
    graph.print.2 = (tree.preorder 0).map graph.entryLine := by
  obtain ⟨other,last,another,-,same⟩ := exists_printed graph
  rwa [another.unique printed]

theorem Exported.inside (exported : Exported graph tree) (valid : ValidEdges Node.dependencies graph) :
    ∀ here ∈ tree.occurrences, here.value < graph.size := by
  obtain ⟨other,last,another,unfolds,-⟩ := exists_exported graph
  obtain rfl := another.unique exported
  have inside := unfolds.inside valid (by simpa using valid.root)
  rwa [occurrencesAll_singleton] at inside

theorem Printed.inside (printed : Printed graph tree) (valid : ValidEdges Node.children graph) :
    ∀ here ∈ tree.occurrences, here.value < graph.size := by
  obtain ⟨other,last,another,unfolds,-⟩ := exists_printed graph
  obtain rfl := another.unique printed
  rw [occurrences_eq]
  intro here member
  rcases List.mem_cons.mp member with rfl | below
  · rw [printed.root]
    exact valid.root
  · exact unfolds.inside valid (valid.edge rootId valid.root) here below

theorem Exported.branches (exported : Exported graph tree) :
    tree.branches.map Tree.value = (graph.node rootId).dependencies := by
  have first := exported.first
  rw [occurrences_eq,firstUnfolded_cons,exported.root] at first
  exact first.1

section Walk

variable {edges : Node → List NodeId} {occurrences : List (Tree NodeId)}

/-- The first occurrence of a file has a branch for every edge of its module. -/
theorem FirstUnfolded.firstOf_branches {here : Tree NodeId}
    (law : FirstUnfolded edges graph [] occurrences) (member : here ∈ occurrences) :
    ∃ first ∈ occurrences, graph.firstOf occurrences (graph.placeAt here.value) = some first ∧
      first.branches.map Tree.value = edges (graph.node first.value) := by
  have found : (graph.firstOf occurrences (graph.placeAt here.value)).isSome := by
    rw [firstOf,List.find?_isSome]
    exact ⟨here,member,beq_self_eq_true _⟩
  obtain ⟨first,first_eq⟩ := Option.isSome_iff_exists.mp found
  obtain ⟨same,earlier,later,split,apart⟩ := List.find?_eq_some_iff_append.mp first_eq
  refine ⟨first,List.mem_of_find?_eq_some first_eq,first_eq,?_⟩
  have branches := law earlier first later split
  have new : graph.placeAt first.value ∉ [] ++ earlier.map (graph.placeAt ·.value) := by
    rw [List.nil_append]
    intro known
    obtain ⟨other,before,equal⟩ := List.mem_map.mp known
    have differs := apart other before
    rw [equal,same] at differs
    cases differs
  rwa [if_neg new] at branches

end Walk

section Shown

variable {occurrences : List (Tree NodeId)} {parent child : Nat} {first : Tree NodeId}

/-- Along a path everything is shown, up to a module that is blocked; the root never is. -/
theorem EdgePath.shown (shown blocked : NodeId → Prop) {via : List NodeId} (root : shown rootId)
    (below : ∀ parent child, shown parent → (parent ≠ rootId → ¬ blocked parent) →
      child ∈ (graph.node parent).dependencies → shown child)
    (path : EdgePath graph via id) : shown id ∨ ∃ before ∈ via, before ≠ rootId ∧ blocked before := by
  induction path with
  | root => exact .inl root
  | @step via parent child path edge ih =>
    rcases ih with reached | ⟨before,member,apart,stop⟩
    · by_cases stop : parent ≠ rootId ∧ blocked parent
      · exact .inr ⟨parent,List.mem_cons_self,stop⟩
      · exact .inl (below parent child reached (fun apart hit => stop ⟨apart,hit⟩) edge)
    · exact .inr ⟨before,List.mem_cons_of_mem _ member,apart,stop⟩

variable (progress : Progress (recorded services) rootModule maxDepth graph [] loads)
include progress

/-- A module that is not eclipsed has the edges of the module with which its file is shown first. -/
theorem Progress.edges_of_clear (clear : ¬ Eclipsed graph occurrences parent)
    (first_eq : graph.firstOf occurrences (graph.placeAt parent) = some first)
    (firstIn : first.value < graph.size) (inside : parent < graph.size)
    (edge : child ∈ (graph.node parent).dependencies) :
    (graph.node first.value).dependencies = (graph.node parent).dependencies ∧
      (graph.node first.value).children = (graph.node parent).children := by
  have done := progress.resolved_of_edge inside edge
  have imported : (graph.node parent).imports ≠ [] := by
    intro none
    have edges := (progress.settled parent inside done).2.edges
    have size := edges.length_eq
    rw [none] at size
    rw [List.length_eq_zero_iff.mp size.symm] at edge
    cases edge
  by_cases resolved : (graph.node first.value).resolved = true
  · apply progress.edges_eq firstIn inside resolved done
    by_contra differ
    have spelled : (graph.node first.value).path? = (graph.node parent).path? := by
      by_contra other
      exact clear ⟨first,first_eq,differ,.inr other⟩
    have here := progress.importsOf_resolved firstIn resolved
    rw [importsOf_congr spelled,progress.importsOf_resolved inside done] at here
    exact differ (Except.ok.inj here).symm
  · -- What is not resolved has no imports yet, but a module with an edge has some.
    rw [Bool.not_eq_true] at resolved
    have untouched := progress.untouched first.value firstIn resolved
    have none : (graph.node first.value).imports = [] := by rw [untouched]; rfl
    exact absurd ⟨first,first_eq,none ▸ imported.symm,.inl resolved⟩ clear

theorem Exported.shows {via : List NodeId} (exported : Exported graph tree)
    (path : EdgePath graph via id) :
    (∃ here ∈ tree.occurrences, here.value = id) ∨
      ∃ before ∈ via, before ≠ rootId ∧ Eclipsed graph tree.occurrences before := by
  refine path.shown (fun id => ∃ here ∈ tree.occurrences, here.value = id) _
    ⟨tree,mem_occurrences_self tree,exported.root⟩ ?_
  rintro _ child ⟨here,member,rfl⟩ clear edge
  have inside := exported.inside progress.stored.dependencies
  have unfolded : ∃ first ∈ tree.occurrences, child ∈ first.branches.map Tree.value := by
    by_cases top : here.value = rootId
    · refine ⟨tree,mem_occurrences_self tree,?_⟩
      rwa [exported.branches,← top]
    · obtain ⟨first,firstIn,first_eq,branches⟩ := exported.first.firstOf_branches member
      refine ⟨first,firstIn,?_⟩
      rwa [branches,(progress.edges_of_clear (clear top) first_eq (inside first firstIn)
        (inside here member) edge).1]
  obtain ⟨first,firstIn,below⟩ := unfolded
  obtain ⟨branch,belongs,same⟩ := List.mem_map.mp below
  exact ⟨branch,occurrences_below tree firstIn belongs,same⟩

theorem Printed.shows {via : List NodeId} (printed : Printed graph tree)
    (path : EdgePath graph via id) :
    (∃ here ∈ tree.occurrences, here.value = id) ∨
      ∃ before ∈ via, before ≠ rootId ∧ Eclipsed graph (occurrencesAll tree.branches) before := by
  refine path.shown (fun id => ∃ here ∈ tree.occurrences, here.value = id) _
    ⟨tree,mem_occurrences_self tree,printed.root⟩ ?_
  rintro _ child ⟨here,member,rfl⟩ clear edge
  have stored := progress.stored
  have inside := printed.inside stored.children
  have within := inside here member
  have unfolded : ∃ first ∈ tree.occurrences, child ∈ first.branches.map Tree.value := by
    have among := progress.child_of_edge within edge
    by_cases top : here.value = rootId
    · refine ⟨tree,mem_occurrences_self tree,?_⟩
      rwa [printed.children,← top]
    · -- The root is not marked when it is printed, so the first occurrences are those below it.
      rw [occurrences_eq] at member
      have apart : here ≠ tree := by
        rintro rfl
        exact top printed.root
      have deeper := (List.mem_cons.mp member).resolve_left apart
      obtain ⟨first,firstIn,first_eq,branches⟩ := printed.first.firstOf_branches deeper
      have occurs : first ∈ tree.occurrences := by
        rw [occurrences_eq]
        exact List.mem_cons_of_mem _ firstIn
      refine ⟨first,occurs,?_⟩
      rwa [branches,(progress.edges_of_clear (clear top) first_eq (inside first occurs) within edge).2]
  obtain ⟨first,firstIn,below⟩ := unfolded
  obtain ⟨branch,belongs,same⟩ := List.mem_map.mp below
  exact ⟨branch,occurrences_below tree firstIn belongs,same⟩

end Shown

def OnLine (graph : Graph) (item : Module) : Prop := ∃ depth, line depth item ∈ graph.print.2

def InExport (graph : Graph) (item : Module) : Prop :=
  ∃ here ∈ graph.exportTree.2.root.occurrences, here.value = item

theorem Exported.inExport (exported : Exported graph tree)
    (shown : ∃ here ∈ tree.occurrences, here.value = id) : InExport graph (graph.node id).toModule := by
  obtain ⟨here,member,rfl⟩ := shown
  rw [InExport,exported.export_eq,moduleTree,occurrences_map]
  exact ⟨_,List.mem_map_of_mem member,value_map _ here⟩

theorem Printed.onLine (printed : Printed graph tree)
    (shown : ∃ here ∈ tree.occurrences, here.value = id) : OnLine graph (graph.node id).toModule := by
  obtain ⟨here,member,rfl⟩ := shown
  have entry : here.value ∈ (tree.preorder 0).map Prod.snd := by
    rw [preorder_occurrences]
    exact List.mem_map_of_mem member
  obtain ⟨⟨depth,other⟩,listed,rfl⟩ := List.mem_map.mp entry
  rw [OnLine,printed.print_eq]
  exact ⟨depth,List.mem_map.mpr ⟨(depth,_),listed,rfl⟩⟩

/-- What the services say of a file does not hang on how its path is spelled: paths that are the same
by their components import the same, if both can be loaded. -/
def ByFile (services : Services Id) : Prop :=
  ∀ item other : Module, placeOf item.path? = placeOf other.path? → ∀ names more,
    importsOf services item = .ok names → importsOf services other = .ok more → names = more

theorem byFile_filed (file : String → Resolution) (links : List Path.Component → List String) :
    ByFile (filed file links) := by
  rintro ⟨_,left?,_⟩ ⟨_,right?,_⟩ same names more here there
  cases left? with
  | none =>
    obtain rfl : right? = none := by simpa [placeOf,eq_comm] using same
    cases here
    cases there
    rfl
  | some left =>
    cases right? with
    | none => cases same
    | some right =>
      cases here
      cases there
      have components : left.components = right.components := Option.some.inj same
      simp [components]

section Unlimited

variable (byFile : ByFile services)
  (progress : Progress (recorded services) rootModule 0 graph [] loads)
include byFile progress

theorem Progress.not_eclipsed {occurrences : List (Tree NodeId)}
    (inTable : ∀ here ∈ occurrences, here.value < graph.size) (inside : id < graph.size) :
    ¬ Eclipsed graph occurrences id := by
  rintro ⟨first,first_eq,differ,-⟩
  have firstIn := inTable first (List.mem_of_find?_eq_some first_eq)
  rw [firstOf] at first_eq
  have same : graph.placeAt first.value = graph.placeAt id := by
    simpa using List.find?_some first_eq
  have here := progress.importsOf_resolved firstIn (progress.all_resolved firstIn)
  have there := progress.importsOf_resolved inside (progress.all_resolved inside)
  exact differ (byFile _ _ same _ _ here there)

theorem Exported.shown (exported : Exported graph tree) (inside : id < graph.size) :
    ∃ here ∈ tree.occurrences, here.value = id := by
  have stored := progress.stored
  obtain ⟨via,path,-⟩ := (progress.importPath inside).edgePath
  refine (exported.shows progress path).resolve_right ?_
  rintro ⟨before,passed,-,eclipsed⟩
  have within := path.inside stored.dependencies before (List.mem_cons_of_mem _ passed)
  exact progress.not_eclipsed byFile (exported.inside stored.dependencies) within eclipsed

theorem Printed.shown (printed : Printed graph tree) (inside : id < graph.size) :
    ∃ here ∈ tree.occurrences, here.value = id := by
  have stored := progress.stored
  obtain ⟨via,path,-⟩ := (progress.importPath inside).edgePath
  refine (printed.shows progress path).resolve_right ?_
  rintro ⟨before,passed,-,eclipsed⟩
  have within := path.inside stored.dependencies before (List.mem_cons_of_mem _ passed)
  refine progress.not_eclipsed byFile (fun here member => ?_) within eclipsed
  apply printed.inside stored.children here
  rw [occurrences_eq]
  exact List.mem_cons_of_mem _ member

end Unlimited

/-- Every module of a finished graph stands on a line and in the export, unless every path to it leads
through a module that is eclipsed. Without a limit nothing is, if the services go by the file. -/
theorem modules_displayed (built : (buildWithin services steps rootModule maxDepth).run.outcome =
      .built graph) :
    (∀ id < graph.size, ∃ via, EdgePath graph via id ∧ via.length = (graph.node id).level) ∧
    (∃ tree, Exported graph tree ∧ graph.exportTree.2.root = graph.moduleTree tree ∧
      ∀ via id, EdgePath graph via id → InExport graph (graph.node id).toModule ∨
        ∃ before ∈ via, before ≠ rootId ∧ Eclipsed graph tree.occurrences before) ∧
    (∃ tree, Printed graph tree ∧ graph.print.2 = (tree.preorder 0).map graph.entryLine ∧
      ∀ via id, EdgePath graph via id → OnLine graph (graph.node id).toModule ∨
        ∃ before ∈ via, before ≠ rootId ∧ Eclipsed graph (occurrencesAll tree.branches) before) ∧
    (maxDepth = 0 → ByFile services → ∀ node ∈ graph.nodes,
      OnLine graph node.toModule ∧ InExport graph node.toModule) := by
  obtain ⟨progress,-⟩ := progress_of_built built
  obtain ⟨shown,-,exported,-⟩ := exists_exported graph
  obtain ⟨written,-,printed,-⟩ := exists_printed graph
  refine ⟨fun id inside => (progress.importPath inside).edgePath,
    ⟨shown,exported,by rw [exported.export_eq],fun via id path => ?_⟩,
    ⟨written,printed,printed.print_eq,fun via id path => ?_⟩,?_⟩
  · exact (exported.shows progress path).imp_left exported.inExport
  · exact (printed.shows progress path).imp_left printed.onLine
  · rintro rfl byFile node member
    obtain ⟨id,inside,rfl⟩ := mem_nodes_iff.mp member
    exact ⟨printed.onLine (printed.shown byFile progress inside),
      exported.inExport (exported.shown byFile progress inside)⟩

/-- Every name is a file of its own, but `alias` is the file of `right`. -/
def sharedFile (name : String) : Resolution :=
  if name = "alias" then { strategy := .apiSet, path? := some ⟨"right"⟩ }
  else { strategy := .standardSearch, path? := some ⟨name⟩ }

def sharedLinks : List Path.Component → List String
  | [.name "app"] => ["left","right"]
  | [.name "left"] => ["alias"]
  | [.name "right"] => ["lib"]
  | _ => []

/-- What is built of these files with a limit of two: `right` is met first as `alias`, at the limit. -/
def sharedGraph : Graph where
  rootModule := .ofPath ⟨"app"⟩ []
  maxDepth := 2
  nodes := [
    { name := "app", path? := some ⟨"app"⟩, strategy := .root, level := 0
      imports := ["left","right"], children := [1,2], dependencies := [1,2], resolved := true },
    { name := "left", path? := some ⟨"left"⟩, strategy := .standardSearch, level := 1
      imports := ["alias"], children := [3], dependencies := [3], resolved := true },
    { name := "right", path? := some ⟨"right"⟩, strategy := .standardSearch, level := 1
      imports := ["lib"], children := [4], dependencies := [4], resolved := true },
    { name := "alias", path? := some ⟨"right"⟩, strategy := .apiSet, level := 2 },
    { name := "lib", path? := some ⟨"lib"⟩, strategy := .standardSearch, level := 2 }]
  index := [
    (⟨"lib",some [.name "lib"]⟩,4),(⟨"alias",some [.name "right"]⟩,3),
    (⟨"right",some [.name "right"]⟩,2),(⟨"left",some [.name "left"]⟩,1),
    (⟨"app",some [.name "app"]⟩,0)]

theorem sharedGraph_built :
    (buildWithin (filed (m := Id) sharedFile sharedLinks) 20 (.ofPath ⟨"app"⟩ []) 2).run.outcome =
      .built sharedGraph := rfl

/-- The tree that both walks go through: `right` is a leaf, because its file has been shown as `alias`. -/
def sharedTree : Tree NodeId := .node 0 [.node 1 [.node 3 []],.node 2 []]

theorem sharedTree_shown : Exported sharedGraph sharedTree ∧ Printed sharedGraph sharedTree :=
  ⟨⟨rfl,by decide +kernel⟩,rfl,rfl,by decide +kernel⟩

/-- With a limit a module can be missing from both: `lib` is in the table, but only `right` imports it. -/
theorem lib_hidden :
    ∃ graph, (buildWithin (filed (m := Id) sharedFile sharedLinks) 20 (.ofPath ⟨"app"⟩ []) 2).run.outcome =
        .built graph ∧
      ∃ node ∈ graph.nodes, ¬ OnLine graph node.toModule ∧ ¬ InExport graph node.toModule := by
  obtain ⟨exported,printed⟩ := sharedTree_shown
  refine ⟨sharedGraph,sharedGraph_built,sharedGraph.node 4,by simp [sharedGraph,node],?_,?_⟩
  · rintro ⟨depth,written⟩
    have last : ∀ text ∈ sharedGraph.print.2, text.toList.getLast? ≠ some 'b' := by
      rw [printed.print_eq]
      decide +kernel
    apply last _ written
    rw [line,String.toList_append,List.getLast?_append]
    rfl
  · rintro ⟨here,member,same⟩
    have names : ∀ here ∈ sharedGraph.exportTree.2.root.occurrences, here.value.name ≠ "lib" := by
      rw [exported.export_eq]
      decide +kernel
    exact names here member (congrArg Module.name same)

theorem modules_displayed_shared :
    ∃ graph, (buildWithin (filed (m := Id) sharedFile sharedLinks) 20 (.ofPath ⟨"app"⟩ []) 0).run.outcome =
        .built graph ∧
      ∃ node ∈ graph.nodes, node.name = "lib" ∧ OnLine graph node.toModule ∧
        InExport graph node.toModule := by
  have ran : ∃ graph, (buildWithin (filed (m := Id) sharedFile sharedLinks) 20 (.ofPath ⟨"app"⟩ [])
      0).run.outcome = .built graph ∧ graph.nodes.any (·.name == "lib") := ⟨_,rfl,by decide +kernel⟩
  obtain ⟨graph,built,listed⟩ := ran
  obtain ⟨node,member,named⟩ := List.any_eq_true.mp listed
  have shown := (modules_displayed built).2.2.2 rfl (byFile_filed sharedFile sharedLinks) node member
  exact ⟨graph,built,node,member,beq_iff_eq.mp named,shown⟩

end LoadMap.Graph
