import LoadMap.Proofs.Graph.Display

/-! Reading a graph back from its export. Every file is unfolded at one occurrence only, and without a
limit that is enough: the modules of one file import the same, so each has its edges there. -/
namespace LoadMap.Graph

open LoadMap.Tree (occurrences_map mem_occurrences_self value_map branches_map)

variable {services : Services Id} {rootModule : RootModule} {graph : Graph} {id : Nat}
  {loads : List Path} {steps : Nat} {tree : Tree NodeId} {place : Place}

/-- The modules that stand below the first occurrence of a file. -/
def belowFirst (tree : Tree Module) (place : Place) : List Module :=
  match tree.occurrences.find? fun here => placeOf here.value.path? == place with
  | some first => first.branches.map Tree.value
  | none => []

/-- The modules of an export, each with the ones that its file imports. -/
def recovered (tree : Tree Module) : List (Module × List Module) :=
  tree.occurrences.map fun here => (here.value,belowFirst tree (placeOf here.value.path?))

def importedModules (graph : Graph) (id : NodeId) : List Module :=
  (graph.node id).dependencies.map fun child => (graph.node child).toModule

theorem find?_moduleTree (tree : Tree NodeId) (place : Place) :
    ((graph.moduleTree tree).occurrences.find? fun here => placeOf here.value.path? == place) =
      (graph.firstOf tree.occurrences place).map graph.moduleTree := by
  have same : (fun here : Tree Module => placeOf here.value.path? == place) ∘ graph.moduleTree =
      fun here => graph.placeAt here.value == place := by
    funext here
    rw [Function.comp_apply,moduleTree,value_map]
    rfl
  have whole : (graph.moduleTree tree).occurrences = tree.occurrences.map graph.moduleTree :=
    occurrences_map _ tree
  rw [whole,List.find?_map,same,firstOf]

theorem branches_moduleTree {here : Tree NodeId}
    (unfolded : here.branches.map Tree.value = (graph.node id).dependencies) :
    (graph.moduleTree here).branches.map Tree.value = graph.importedModules id := by
  rw [importedModules,← unfolded,moduleTree,branches_map,List.map_map,List.map_map]
  apply List.map_congr_left
  intro branch _
  exact value_map _ branch

theorem placeOf_moduleTree (here : Tree NodeId) :
    placeOf (graph.moduleTree here).value.path? = graph.placeAt here.value := by
  rw [moduleTree,value_map]
  rfl

section Finished

variable (progress : Progress (recorded services) rootModule 0 graph [] loads)
include progress

theorem Progress.edges_of_place {other : Nat} (byFile : ByFile services) (inside : id < graph.size)
    (within : other < graph.size) (same : graph.placeAt other = graph.placeAt id) :
    (graph.node other).dependencies = (graph.node id).dependencies := by
  have done := progress.all_resolved inside
  have otherDone := progress.all_resolved within
  have imports := byFile _ _ same _ _ (progress.importsOf_resolved within otherDone)
    (progress.importsOf_resolved inside done)
  exact (progress.edges_eq within inside otherDone done imports).1

theorem Exported.unfolded (exported : Exported graph tree) (byFile : ByFile services)
    (inside : id < graph.size) :
    ∃ first ∈ tree.occurrences, graph.firstOf tree.occurrences (graph.placeAt id) = some first ∧
      graph.placeAt first.value = graph.placeAt id ∧
      first.branches.map Tree.value = (graph.node id).dependencies := by
  obtain ⟨here,member,rfl⟩ := exported.shown byFile progress inside
  obtain ⟨first,firstIn,first_eq,branches⟩ := exported.first.firstOf_branches member
  have same : graph.placeAt first.value = graph.placeAt here.value := by
    simpa using List.find?_some first_eq
  have within := exported.inside progress.stored.dependencies first firstIn
  refine ⟨first,firstIn,first_eq,same,?_⟩
  rw [branches,progress.edges_of_place byFile inside within same]

theorem Exported.belowFirst_eq (exported : Exported graph tree) (byFile : ByFile services)
    (inside : id < graph.size) :
    belowFirst (graph.moduleTree tree) (graph.placeAt id) = graph.importedModules id := by
  obtain ⟨first,-,first_eq,-,branches⟩ := exported.unfolded progress byFile inside
  rw [belowFirst,find?_moduleTree,first_eq]
  exact branches_moduleTree branches

theorem Exported.mem_recovered_iff (exported : Exported graph tree) (byFile : ByFile services)
    {item : Module} {imported : List Module} :
    (item,imported) ∈ recovered (graph.moduleTree tree) ↔
      ∃ id < graph.size, (graph.node id).toModule = item ∧ graph.importedModules id = imported := by
  have entries : recovered (graph.moduleTree tree) = tree.occurrences.map fun here =>
      ((graph.node here.value).toModule,
        belowFirst (graph.moduleTree tree) (graph.placeAt here.value)) := by
    rw [recovered,moduleTree,occurrences_map,List.map_map]
    apply List.map_congr_left
    intro here _
    rw [Function.comp_apply,value_map]
    rfl
  rw [entries,List.mem_map]
  constructor
  · rintro ⟨here,member,same⟩
    obtain ⟨rfl,rfl⟩ := Prod.mk.inj same
    have inside := exported.inside progress.stored.dependencies here member
    exact ⟨here.value,inside,rfl,(exported.belowFirst_eq progress byFile inside).symm⟩
  · rintro ⟨id,inside,rfl,rfl⟩
    obtain ⟨here,member,rfl⟩ := exported.shown byFile progress inside
    exact ⟨here,member,by rw [exported.belowFirst_eq progress byFile inside]⟩

end Finished

/-- The export of a graph built without a limit loses no edge: the imports of every module stand, in
their order, below an occurrence of its file, and the modules with their imports can be read off. -/
theorem export_recovers (byFile : ByFile services)
    (built : (buildWithin services steps rootModule 0).run.outcome = .built graph) :
    (∀ id < graph.size, ∃ here ∈ graph.exportTree.2.root.occurrences,
      placeOf here.value.path? = graph.placeAt id ∧
      here.branches.map Tree.value = graph.importedModules id) ∧
    ∀ item imported, (item,imported) ∈ recovered graph.exportTree.2.root ↔
      ∃ id < graph.size, (graph.node id).toModule = item ∧ graph.importedModules id = imported := by
  obtain ⟨progress,-⟩ := progress_of_built built
  obtain ⟨tree,-,exported,-⟩ := exists_exported graph
  rw [exported.export_eq]
  constructor
  · intro id inside
    obtain ⟨first,member,-,same,branches⟩ := exported.unfolded progress byFile inside
    refine ⟨graph.moduleTree first,?_,?_,branches_moduleTree branches⟩
    · rw [moduleTree,occurrences_map]
      exact List.mem_map_of_mem member
    · rw [placeOf_moduleTree,same]
  · intro item imported
    exact exported.mem_recovered_iff progress byFile

/-- One file under two names, of which the export unfolds one only. -/
theorem export_recovers_shared :
    ∃ graph, (buildWithin (filed (m := Id) sharedFile sharedLinks) 20 (.ofPath ⟨"app"⟩ []) 0).run.outcome =
        .built graph ∧
      ∀ name ∈ ["right","alias"], (moduleFor name (sharedFile name),[linkedModule "lib"]) ∈
        recovered graph.exportTree.2.root := by
  have ran : ∃ graph, (buildWithin (filed (m := Id) sharedFile sharedLinks) 20 (.ofPath ⟨"app"⟩ [])
      0).run.outcome = .built graph ∧ graph.size = 5 ∧
      (graph.node 2).toModule = moduleFor "right" (sharedFile "right") ∧
      (graph.node 3).toModule = moduleFor "alias" (sharedFile "alias") ∧
      graph.importedModules 2 = [linkedModule "lib"] ∧ graph.importedModules 3 = [linkedModule "lib"] :=
    ⟨_,rfl,rfl,rfl,rfl,rfl,rfl⟩
  obtain ⟨graph,built,size,right,renamed,imported,again⟩ := ran
  have recovers := (export_recovers (byFile_filed sharedFile sharedLinks) built).2
  refine ⟨graph,built,fun name named => (recovers _ _).mpr ?_⟩
  rcases List.mem_pair.mp named with rfl | rfl
  · exact ⟨2,by omega,right,imported⟩
  · exact ⟨3,by omega,renamed,again⟩

end LoadMap.Graph
