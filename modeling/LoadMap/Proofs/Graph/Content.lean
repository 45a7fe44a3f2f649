import LoadMap.Proofs.Graph.Visit

/-! What a loaded node says: its imports, its assemblies and its notes come from the binary that was loaded for
it and from the managed part of that binary. -/
namespace LoadMap.Graph

variable {σ : Type} {services : Services (StateM σ)} {before after : σ}

/-- A node with what a binary and its managed part say. -/
def Node.filled (node : Node) (binary : Binary) (managed : Option ManagedReferences) : Node :=
  { node with
    imports := importedNames binary.imports managed
    assemblies := (managed.map (·.assemblies)).getD []
    diagnostics := node.diagnostics ++ manifestNotes binary.manifest? }

theorem load_content {node loaded : Node} {path : Path} (file : node.path? = some path)
    (loading : (load services node).run before = (.ok loaded,after)) :
    ∃ binary middle managed, (services.load path).run before = (.ok binary,middle) ∧
      (managedPart services binary path).run middle = (.ok managed,after) ∧
      loaded = node.filled binary managed := by
  simp only [load,file,bind_run] at loading
  cases read : (services.load path).run before with
  | mk answer middle =>
    rw [read] at loading
    cases answer with
    | error failure => cases loading
    | ok binary =>
      simp only [bind_run] at loading
      cases part : (managedPart services binary path).run middle with
      | mk answer final =>
        rw [part] at loading
        cases answer with
        | error failure => cases loading
        | ok managed =>
          cases loading
          exact ⟨binary,middle,managed,rfl,part,rfl⟩

theorem load_nowhere {node loaded : Node} (nowhere : node.path? = none)
    (loading : (load services node).run before = (.ok loaded,after)) : loaded = node := by
  simp only [load,nowhere] at loading
  cases loading
  rfl

end LoadMap.Graph
