import LoadMap.Proofs.Graph.Coverage

/-! Two builds, the second with services that know more names. What the first finds the second finds too,
whatever else it finds on the way. -/
namespace LoadMap.Graph

variable {services others : Services Id} {rootModule : RootModule} {item : Module} {via : List Module}
  {name : String} {resolution : Resolution}

theorem answerFor_notFound (answered : answerFor services rootModule name = .ok resolution)
    (missing : resolution.strategy = .notFound) : resolution.path? = none := by
  unfold answerFor at answered
  cases given : (services.resolve rootModule name).run with
  | error failure =>
    rw [given] at answered
    cases answered
  | ok first =>
    rw [given] at answered
    cases answered
    split at missing
    · rename_i none
      rw [if_pos none]
      rfl
    · contradiction

/-- A name that stands for a module with a file has been found. -/
theorem found_of_moduleOf (answered : answerFor services rootModule name = .ok resolution)
    (found : (moduleOf rootModule name resolution).strategy ≠ .notFound) :
    resolution.strategy ≠ .notFound := by
  intro missing
  have nowhere := answerFor_notFound answered missing
  have apart : (moduleFor name resolution).key ≠ rootModule.asModule.key := by
    intro same
    have place := congrArg Key.place same
    rw [Module.key,moduleFor,nowhere] at place
    cases place
  rw [moduleOf,if_neg apart] at found
  exact found missing

theorem Chain.path?_eq_none (chain : Chain services rootModule via item)
    (missing : item.strategy = .notFound) : item.path? = none := by
  cases chain with
  | root => cases missing
  | step chain imports =>
    obtain ⟨-,-,name,-,resolution,answered,rfl⟩ := imports
    unfold moduleOf at missing ⊢
    split at missing
    · cases missing
    · rename_i apart
      rw [if_neg apart]
      exact answerFor_notFound answered missing

/-- A module that imports something was found. -/
theorem Chain.found_of_imports {other : Module} (chain : Chain services rootModule via item)
    (imports : Imports services rootModule item other) : item.strategy ≠ .notFound := by
  intro missing
  obtain ⟨names,imported,name,named,-⟩ := imports
  have nothing : importsOf services item = .ok [] := by
    unfold importsOf
    rw [chain.path?_eq_none missing]
  rw [nothing] at imported
  cases imported
  cases named

/-- Other services that read files in the same way and answer as these do to the names that these know. -/
structure Widens (services others : Services Id) (rootModule : RootModule) : Prop where
  load : others.load = services.load
  readManaged : others.readManaged = services.readManaged
  answers : ∀ name resolution, answerFor services rootModule name = .ok resolution →
    resolution.strategy ≠ .notFound → answerFor others rootModule name = .ok resolution

namespace Widens

variable (widens : Widens services others rootModule)
include widens

theorem importsOf_eq (item : Module) : importsOf others item = importsOf services item := by
  unfold importsOf
  rw [widens.load,widens.readManaged]

theorem imports {other : Module} (imports : Imports services rootModule item other)
    (found : other.strategy ≠ .notFound) : Imports others rootModule item other := by
  obtain ⟨names,imported,name,named,resolution,answered,rfl⟩ := imports
  have known := found_of_moduleOf answered found
  rw [← widens.importsOf_eq] at imported
  exact ⟨names,imported,name,named,resolution,widens.answers name resolution answered known,rfl⟩

theorem chain (chain : Chain services rootModule via item) (found : item.strategy ≠ .notFound) :
    Chain others rootModule via item := by
  induction chain with
  | root => exact .root
  | step before imports ih =>
    -- What stands on the way has imports, so it was found as well.
    exact .step (ih (before.found_of_imports imports)) (widens.imports imports found)

theorem nodes {steps wider : Nat} {graph larger : Graph}
    (built : (buildWithin services steps rootModule 0).run.outcome = .built graph)
    (also : (buildWithin others wider rootModule 0).run.outcome = .built larger)
    {node : Node} (member : node ∈ graph.nodes) (found : node.strategy ≠ .notFound) :
    ∃ other ∈ larger.nodes, other.toModule = node.toModule := by
  obtain ⟨progress,-⟩ := progress_of_built built
  obtain ⟨later,-⟩ := progress_of_built also
  obtain ⟨id,inside,rfl⟩ := mem_nodes_iff.mp member
  obtain ⟨via,chain,-⟩ := progress.chain inside
  obtain ⟨other,within,same⟩ := later.covers ⟨via,widens.chain chain found⟩
  exact ⟨_,mem_nodes_iff.mpr ⟨other,within,rfl⟩,same⟩

end Widens
end LoadMap.Graph
