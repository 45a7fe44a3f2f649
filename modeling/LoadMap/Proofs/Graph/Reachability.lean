import LoadMap.Proofs.Graph.Progress
import LoadMap.Proofs.Graph.Services

/-! The modules that can be reached from the root by imports, when the services answer a question
always in the same way, and which of them the nodes of a graph are. -/
namespace LoadMap.Graph

section Fixed

variable (services : Services Id) (rootModule : RootModule)

/-- The modules that a file imports: the native ones, then the managed ones. Without a file there
are none, and most files have no managed part. -/
def importsOf (item : Module) : Result (List String) :=
  match item.path? with
  | none => .ok []
  | some path =>
    match (services.load path).run with
    | .error failure => .error failure
    | .ok binary =>
      let native := binary.imports.map (·.dll)
      if binary.recognized then
        match (services.readManaged path).run with
        | .ok references => .ok (native ++ references.modules)
        | .error (.notManaged _) => .ok native
        | .error failure => .error failure
      else .ok native

/-- What was not found has no file. -/
def answerFor (name : String) : Result Resolution :=
  match (services.resolve rootModule name).run with
  | .error failure => .error failure
  | .ok given => .ok (if given.strategy = .notFound then .notFound else given)

/-- The module that an import stands for: an import that leads to the file of the root by the name
of the root is the root itself. -/
def moduleOf (name : String) (resolution : Resolution) : Module :=
  if (moduleFor name resolution).key = rootModule.asModule.key then rootModule.asModule
  else moduleFor name resolution

def Imports (item other : Module) : Prop :=
  ∃ names, importsOf services item = .ok names ∧ ∃ name ∈ names, ∃ resolution,
    answerFor services rootModule name = .ok resolution ∧
    other = moduleOf rootModule name resolution

/-- A chain of imports from the root to a module, with the modules before it, the last one first. -/
inductive Chain : (via : List Module) → Module → Prop
  | root : Chain [] rootModule.asModule
  | step {via : List Module} {item other : Module} (chain : Chain via item)
      (imports : Imports services rootModule item other) : Chain (item :: via) other

def Reachable (item : Module) : Prop := ∃ via, Chain services rootModule via item

def reachableKeys : Set Key := { key | ∃ item, Reachable services rootModule item ∧ item.key = key }

/-- A module that can be loaded and whose imports can all be resolved. -/
def Sound (item : Module) : Prop :=
  ∃ names, importsOf services item = .ok names ∧
    ∀ name ∈ names, ∃ resolution, answerFor services rootModule name = .ok resolution

end Fixed

def linkedModule (name : String) : Module :=
  moduleFor name { strategy := .standardSearch, path? := some ⟨name⟩ }

variable {services : Services Id} {rootModule : RootModule} {maxDepth : Nat} {graph : Graph} {id : Nat}
  {work : List NodeId} {loads : List Path} {item : Module} {name : String}

theorem importsOf_congr {other : Module} (same : item.path? = other.path?) :
    importsOf services item = importsOf services other := by
  unfold importsOf
  rw [same]

theorem load_imports (level : Nat) :
    (load services (.untouched item level)).run.map (·.imports) = importsOf services item := by
  unfold importsOf load Node.untouched
  cases item.path? with
  | none => rfl
  | some path =>
    dsimp only
    rw [Id.run_bind]
    cases (services.load path).run with
    | error failure => rfl
    | ok binary =>
      dsimp only
      unfold managedPart importedNames
      by_cases recognized : binary.recognized
      · simp only [if_pos recognized,Id.run_bind]
        cases (services.readManaged path).run with
        | ok references => rfl
        | error failure =>
          cases failure with
          | notManaged image => exact congrArg Except.ok (List.append_nil _)
          | _ => rfl
      · simp only [if_neg recognized,Id.run_bind]
        exact congrArg Except.ok (List.append_nil _)

theorem importsOf_of_load {level : Nat} {before after : List Path} {answer : Result Node}
    (loading : (load (recorded services) (.untouched item level)).run before = (answer,after)) :
    importsOf services item = answer.map (·.imports) := by
  rw [load_recorded] at loading
  rw [← load_imports level]
  exact congrArg (fun result => Except.map (·.imports) result.1) loading

theorem answerFor_eq_resolve (graph : Graph) :
    answerFor services graph.rootModule name = (graph.resolve services name).run := by
  unfold answerFor resolve
  rw [Id.run_bind]
  cases (services.resolve graph.rootModule name).run <;> rfl

theorem answers_iff {resolution : Resolution} :
    Answers (recorded services) rootModule name resolution ↔
      answerFor services rootModule name = .ok resolution := by
  constructor
  · rintro ⟨graph,before,after,rfl,answered⟩
    rw [resolve_recorded] at answered
    rw [answerFor_eq_resolve]
    exact congrArg Prod.fst answered
  · intro answered
    refine ⟨ofRoot rootModule 0,[],[],rfl,?_⟩
    rw [resolve_recorded]
    exact congrArg (Prod.mk · []) ((answerFor_eq_resolve (ofRoot rootModule 0)).symm.trans answered)

theorem answerFor_of_refuses {failure : Failure}
    (refused : Refuses (recorded services) rootModule name failure) :
    answerFor services rootModule name = .error failure := by
  obtain ⟨graph,before,after,rfl,answered⟩ := refused
  rw [resolve_recorded] at answered
  rw [answerFor_eq_resolve]
  exact congrArg Prod.fst answered

namespace Progress

variable (progress : Progress (recorded services) rootModule maxDepth graph work loads)
include progress

theorem importsOf_resolved (inside : id < graph.size) (resolved : (graph.node id).resolved = true) :
    importsOf services (graph.node id).toModule = .ok (graph.node id).imports := by
  obtain ⟨-,⟨loaded,before,after,loading,same,-⟩,-⟩ := progress.settled id inside resolved
  rw [importsOf_of_load loading,← same]
  rfl

theorem sound (inside : id < graph.size) (resolved : (graph.node id).resolved = true) :
    Sound services rootModule (graph.node id).toModule := by
  refine ⟨_,progress.importsOf_resolved inside resolved,fun name named => ?_⟩
  obtain ⟨child,-,resolution,answered,-⟩ := (progress.settled id inside resolved).2.leads named
  exact ⟨resolution,answers_iff.mp answered⟩

theorem eq_moduleOf {child : Nat} (inside : child < graph.size) {resolution : Resolution}
    (answered : answerFor services rootModule name = .ok resolution)
    (same : (graph.node child).key = (moduleFor name resolution).key) :
    (graph.node child).toModule = moduleOf rootModule name resolution := by
  unfold moduleOf
  -- A name fixes the file it leads to, so only the root can have a key and another path for it.
  by_cases top : child = rootId
  · rw [if_pos (by rw [← same,← Node.key_toModule,top,progress.root.1]),top,progress.root.1]
  · have apart : (moduleFor name resolution).key ≠ rootModule.asModule.key := by
      rw [← same,← progress.root.1,Node.key_toModule]
      exact mt (eq_of_key_eq progress.distinct inside progress.nonempty) top
    obtain ⟨parent,origin⟩ := progress.origin child inside top
    obtain ⟨other,-,found,answer,item⟩ := origin.found
    rw [← Node.key_toModule,item] at same
    obtain rfl : other = name := congrArg Key.name same
    rw [answers_iff.mp answer] at answered
    cases answered
    rw [if_neg apart,item]

theorem import_found (inside : id < graph.size) (resolved : (graph.node id).resolved = true)
    {other : Module} (imports : Imports services rootModule (graph.node id).toModule other) :
    ∃ child < graph.size, child ∈ (graph.node id).dependencies ∧
      (graph.node child).toModule = other := by
  obtain ⟨names,imported,name,named,resolution,answered,rfl⟩ := imports
  rw [progress.importsOf_resolved inside resolved] at imported
  cases imported
  obtain ⟨child,member,found,answer,same⟩ := (progress.settled id inside resolved).2.leads named
  rw [answers_iff.mp answer] at answered
  cases answered
  have within := lt_size_of_getElem?_keys same
  rw [getElem?_keys within] at same
  exact ⟨child,within,member,progress.eq_moduleOf within (answers_iff.mp answer)
    (Option.some.inj same)⟩

theorem imports_of_origin {parent : Nat} (inside : id < graph.size)
    (origin : Origin (Answers (recorded services) rootModule) graph parent id) :
    Imports services rootModule (graph.node parent).toModule (graph.node id).toModule := by
  obtain ⟨name,named,resolution,answer,item⟩ := origin.found
  have answered := answers_iff.mp answer
  refine ⟨(graph.node parent).imports,progress.importsOf_resolved origin.inside origin.resolved,
    name,named,resolution,answered,?_⟩
  exact progress.eq_moduleOf inside answered (by rw [← item,Node.key_toModule])

theorem chain (inside : id < graph.size) :
    ∃ via, Chain services rootModule via (graph.node id).toModule ∧
      via.length = (graph.node id).level := by
  refine progress.from_root (motive := fun id => ∃ via,
    Chain services rootModule via (graph.node id).toModule ∧ via.length = (graph.node id).level)
    ?_ (fun inside origin above => ?_) inside
  · rw [progress.root.1,progress.root.2]
    exact ⟨[],.root,rfl⟩
  · obtain ⟨via,chain,same⟩ := above
    rw [origin.level,← same]
    exact ⟨_,.step chain (progress.imports_of_origin inside origin),rfl⟩

theorem reachable (inside : id < graph.size) :
    Reachable services rootModule (graph.node id).toModule := by
  obtain ⟨via,chain,-⟩ := progress.chain inside
  exact ⟨via,chain⟩

end Progress

end LoadMap.Graph
