import LoadMap.Proofs.Failure
import LoadMap.Proofs.Graph.Table

/-! Two builds side by side whose services answer almost alike: their failures and the notes on their files may
differ, as far as is tolerated. Then so do the graphs and the failures they end with, and in nothing else. -/
namespace LoadMap

/-- What two builds may differ in, and the files that either of them may ask for. -/
structure Tolerance where
  failures : Failure → Failure → Prop
  notes : List String → List String → Prop
  files : Path → Prop

/-- Differences that a build hands on, but does not act upon. -/
structure Tolerance.Steady (allowed : Tolerance) : Prop where
  managed {one other : Failure} (alike : allowed.failures one other) :
    (∃ image, one = .notManaged image) ↔ ∃ image, other = .notManaged image
  inModule {one other : Failure} (alike : allowed.failures one other) (identity : String) :
    allowed.failures (one.inModule identity) (other.inModule identity)
  nothing : allowed.notes [] []
  append {first second third fourth : List String} (here : allowed.notes first second)
    (there : allowed.notes third fourth) : allowed.notes (first ++ third) (second ++ fourth)

/-- Binaries of which a graph shows the same, but for the notes. -/
structure Binary.Twin (allowed : Tolerance) (one other : Binary) : Prop where
  recognized : one.recognized = other.recognized
  names : one.imports.map (·.dll) = other.imports.map (·.dll)
  notes : allowed.notes (Graph.manifestNotes one.manifest?) (Graph.manifestNotes other.manifest?)

section Couples

variable {m n : Type → Type} [Monad m] [Monad n]

/-- A way to lift relations between values to computations that goes along with steps in a row. -/
structure Couples (couple : ∀ {α β : Type}, (α → β → Prop) → m α → n β → Prop) : Prop where
  pure {α β : Type} {related : α → β → Prop} {one : α} {other : β} (both : related one other) :
    couple related (pure one) (pure other)
  bind {α β γ δ : Type} {first : α → β → Prop} {second : γ → δ → Prop} {one : m α} {other : n β}
    {more : α → m γ} {further : β → n δ} (here : couple first one other)
    (next : ∀ left right, first left right → couple second (more left) (further right)) :
    couple second (one >>= more) (other >>= further)

variable {couple : ∀ {α β : Type}, (α → β → Prop) → m α → n β → Prop} {allowed : Tolerance}
  {rootModule : RootModule} {left : Services m} {right : Services n}

/-- Services of which one root gets answers that differ in what is tolerated only. -/
structure Services.Twin (couple : ∀ {α β : Type}, (α → β → Prop) → m α → n β → Prop) (allowed : Tolerance)
    (rootModule : RootModule) (left : Services m) (right : Services n) : Prop where
  load (path : Path) (asked : allowed.files path) :
    couple (Result.Both allowed.failures (Binary.Twin allowed)) (left.load path) (right.load path)
  readManaged (path : Path) (asked : allowed.files path) :
    couple (Result.Both allowed.failures Eq) (left.readManaged path) (right.readManaged path)
  resolve (name : String) : couple (Result.Both allowed.failures fun one other =>
    one = other ∧ ∀ path, one.path? = some path → allowed.files path)
    (left.resolve rootModule name) (right.resolve rootModule name)

end Couples

namespace Graph

variable {allowed : Tolerance} {rootModule : RootModule} {one other : Graph} {id : Nat}

/-- The same node with notes that may differ. -/
structure Node.Twin (allowed : Tolerance) (one other : Node) : Prop where
  same : other = { one with diagnostics := other.diagnostics }
  notes : allowed.notes one.diagnostics other.diagnostics
  asked : ∀ path, one.path? = some path → allowed.files path

/-- Graphs of one root whose tables differ in the notes only. -/
structure Twin (allowed : Tolerance) (rootModule : RootModule) (one other : Graph) : Prop where
  root : one.rootModule = rootModule
  same : other = { one with nodes := other.nodes }
  nodes : List.Forall₂ (Node.Twin allowed) one.nodes other.nodes

inductive Outcome.Twin (allowed : Tolerance) (rootModule : RootModule) : Outcome → Outcome → Prop
  | built {one other : Graph} (twin : one.Twin allowed rootModule other) :
      Twin allowed rootModule (.built one) (.built other)
  | failed {one other : Failure} (related : allowed.failures one other) :
      Twin allowed rootModule (.failed one) (.failed other)
  | unfinished : Twin allowed rootModule .unfinished .unfinished

structure Run.Twin (allowed : Tolerance) (rootModule : RootModule) (one other : Run) : Prop where
  outcome : one.outcome.Twin allowed rootModule other.outcome
  loads : one.loads = other.loads

section Node

variable {first second : Node}

theorem Node.Twin.toModule (twin : first.Twin allowed second) : second.toModule = first.toModule := by
  rw [twin.same]

theorem Node.Twin.level (twin : first.Twin allowed second) : second.level = first.level := by
  rw [twin.same]

theorem Node.Twin.imports (twin : first.Twin allowed second) : second.imports = first.imports := by
  rw [twin.same]

theorem Node.Twin.children (twin : first.Twin allowed second) : second.children = first.children := by
  rw [twin.same]

theorem Node.Twin.dependencies (twin : first.Twin allowed second) :
    second.dependencies = first.dependencies := by
  rw [twin.same]

theorem Node.Twin.resolved (twin : first.Twin allowed second) : second.resolved = first.resolved := by
  rw [twin.same]

theorem Node.Twin.done (twin : first.Twin allowed second) :
    Node.Twin allowed { first with resolved := true } { second with resolved := true } := by
  refine ⟨?_,twin.notes,twin.asked⟩
  rw [twin.same]

theorem Node.Twin.fresh (steady : allowed.Steady) {item : Module} {level : Nat}
    (asked : ∀ path, item.path? = some path → allowed.files path) :
    Node.Twin allowed { toModule := item, level } { toModule := item, level } :=
  ⟨rfl,steady.nothing,asked⟩

end Node

section Table

theorem forall₂_modify {α : Type} {related : α → α → Prop} {left right : List α} {change more : α → α}
    (both : List.Forall₂ related left right)
    (keeps : ∀ first second, related first second → related (change first) (more second)) (place : Nat) :
    List.Forall₂ related (left.modify place change) (right.modify place more) := by
  induction both generalizing place with
  | nil => cases place <;> exact .nil
  | cons here rest ih =>
    cases place with
    | zero => exact .cons (keeps _ _ here) rest
    | succ place => exact .cons here (ih place)

variable (twin : one.Twin allowed rootModule other)
include twin

theorem Twin.size : other.size = one.size := twin.nodes.length_eq.symm

theorem Twin.lookup? (name : String) (path? : Option Path) :
    other.lookup? name path? = one.lookup? name path? := by
  rw [twin.same]
  rfl

theorem Twin.follows (level : Nat) : other.follows level = one.follows level := by
  rw [twin.same]
  rfl

theorem Twin.node (steady : allowed.Steady) (id : Nat) : (one.node id).Twin allowed (other.node id) := by
  by_cases inside : id < one.nodes.length
  · have within : id < other.nodes.length := by rwa [← twin.nodes.length_eq]
    have related := twin.nodes.get inside within
    rwa [node_eq inside,node_eq within]
  · have beyond : ¬ id < other.nodes.length := by rwa [← twin.nodes.length_eq]
    have first : one.node id = default := by simp [Graph.node,List.getElem?_eq_none (Nat.le_of_not_lt inside)]
    have second : other.node id = default := by simp [Graph.node,List.getElem?_eq_none (Nat.le_of_not_lt beyond)]
    rw [first,second]
    exact ⟨rfl,steady.nothing,fun path nowhere => by cases nowhere⟩

theorem Twin.update {change more : Node → Node}
    (keeps : ∀ first second : Node, first.Twin allowed second → (change first).Twin allowed (more second))
    (id : Nat) : (one.update id change).Twin allowed rootModule (other.update id more) := by
  refine ⟨twin.root,?_,forall₂_modify twin.nodes keeps id⟩
  rw [twin.same]
  rfl

theorem Twin.getOrCreate (steady : allowed.Steady) (item : Module) (level : Nat)
    (asked : ∀ path, item.path? = some path → allowed.files path) :
    (one.getOrCreate item level).1.Twin allowed rootModule (other.getOrCreate item level).1 ∧
      (one.getOrCreate item level).2 = (other.getOrCreate item level).2 := by
  unfold Graph.getOrCreate
  rw [twin.lookup?]
  cases one.lookup? item.name item.path? with
  | some id => exact ⟨twin,rfl⟩
  | none =>
    refine ⟨⟨twin.root,?_,List.rel_append twin.nodes (.cons (.fresh steady asked) .nil)⟩,twin.size.symm⟩
    rw [twin.size,twin.same]

theorem Twin.addEdge (steady : allowed.Steady) (child : NodeId) (name : String) {first second : Node}
    (same : first.Twin allowed second) :
    (one.addEdge child name first).Twin allowed (other.addEdge child name second) := by
  have known : (second.children.any fun place => (other.node place).name == name) =
      first.children.any fun place => (one.node place).name == name := by
    rw [same.children]
    refine congrArg _ (funext fun place => ?_)
    rw [(twin.node steady place).toModule]
  refine ⟨?_,same.notes,same.asked⟩
  rw [Graph.addEdge,known,same.children,same.dependencies,same.same]
  rfl

theorem Twin.link (steady : allowed.Steady) (id : Nat) (name : String) {resolution : Resolution}
    (asked : ∀ path, resolution.path? = some path → allowed.files path) :
    (one.link id name resolution).1.Twin allowed rootModule (other.link id name resolution).1 ∧
      (one.link id name resolution).2 = (other.link id name resolution).2 := by
  unfold Graph.link
  rw [(twin.node steady id).level,twin.lookup?]
  obtain ⟨larger,child⟩ := twin.getOrCreate steady
    { name, path? := resolution.path?, strategy := resolution.strategy } ((one.node id).level + 1) asked
  dsimp only
  rw [← child]
  exact ⟨larger.update (fun first second same => larger.addEdge steady _ name same) id,rfl⟩

theorem Twin.blame (steady : allowed.Steady) {first second : Failure} (related : allowed.failures first second)
    (ids : List NodeId) : allowed.failures (one.blame first ids) (other.blame second ids) := by
  induction ids generalizing first second with
  | nil => exact related
  | cons id ids ih =>
    have same : (other.node id).identity = (one.node id).identity := by
      rw [(twin.node steady id).toModule]
    have here := steady.inModule related (one.node id).identity
    have rest := ih here
    simp only [Graph.blame,List.foldl_cons,same] at rest ⊢
    exact rest

end Table

theorem Twin.ofRoot (steady : allowed.Steady) {maxDepth : Nat} (asked : allowed.files rootModule.path) :
    (ofRoot rootModule maxDepth).Twin allowed rootModule (ofRoot rootModule maxDepth) := by
  refine ⟨rfl,rfl,.cons ⟨rfl,steady.nothing,?_⟩ .nil⟩
  rintro path ⟨⟩
  exact asked

section Builds

variable {m n : Type → Type} [Monad m] [Monad n]
  {couple : ∀ {α β : Type}, (α → β → Prop) → m α → n β → Prop} {left : Services m} {right : Services n}
  (couples : Couples couple) (steady : allowed.Steady) (services : Services.Twin couple allowed rootModule left right)
include couples steady services

theorem managedPart_twin {first second : Binary} (twin : first.Twin allowed second) {path : Path}
    (asked : allowed.files path) : couple (Result.Both allowed.failures Eq) (managedPart left first path)
      (managedPart right second path) := by
  unfold managedPart
  rw [twin.recognized]
  split
  · apply couples.bind (services.readManaged path asked)
    rintro _ _ (@⟨references,_,rfl⟩ | @⟨one,other,related⟩)
    · exact couples.pure (.ok rfl)
    · have managed := steady.managed related
      split
      case h_1 impossible => cases impossible
      case h_2 native =>
        cases native
        obtain ⟨image,rfl⟩ := managed.mp ⟨_,rfl⟩
        exact couples.pure (.ok rfl)
      case h_3 broken same =>
        cases same
        split
        case h_1 impossible => cases impossible
        case h_2 native =>
          cases native
          obtain ⟨image,rfl⟩ := managed.mpr ⟨_,rfl⟩
          exact absurd rfl (broken image)
        case h_3 same =>
          cases same
          exact couples.pure (.error related)
  · exact couples.pure (.ok rfl)

theorem load_twin {first second : Node} (twin : first.Twin allowed second) :
    couple (Result.Both allowed.failures (Node.Twin allowed)) (load left first) (load right second) := by
  unfold load
  rw [twin.toModule]
  cases file : first.path? with
  | none => exact couples.pure (.ok twin)
  | some path =>
    have asked := twin.asked path file
    apply couples.bind (services.load path asked)
    rintro _ _ (@⟨one,other,binaries⟩ | ⟨related⟩)
    · apply couples.bind (managedPart_twin couples steady services binaries asked)
      rintro _ _ (@⟨managed,_,rfl⟩ | ⟨related⟩)
      · refine couples.pure (.ok ⟨?_,steady.append twin.notes binaries.notes,twin.asked⟩)
        rw [twin.same]
        simp only [importedNames,binaries.names]
      · exact couples.pure (.error related)
    · exact couples.pure (.error related)

omit steady in
theorem resolve_twin (twin : one.Twin allowed rootModule other) (name : String) :
    couple (Result.Both allowed.failures fun first second =>
      first = second ∧ ∀ path, first.path? = some path → allowed.files path)
      (one.resolve left name) (other.resolve right name) := by
  unfold resolve
  rw [twin.same,twin.root]
  apply couples.bind (services.resolve name)
  rintro _ _ (@⟨resolution,_,rfl,asked⟩ | ⟨related⟩)
  · refine couples.pure (.ok ⟨rfl,fun path found => ?_⟩)
    split at found
    · cases found
    · exact asked path found
  · exact couples.pure (.error related)

theorem linkAll_twin (id : NodeId) (names : List String) (twin : one.Twin allowed rootModule other) :
    couple (Result.Both allowed.failures fun first second =>
      first.1.Twin allowed rootModule second.1 ∧ first.2 = second.2)
      (linkAll left id names one) (linkAll right id names other) := by
  induction names generalizing one other with
  | nil => exact couples.pure (.ok ⟨twin,rfl⟩)
  | cons name names ih =>
    unfold linkAll
    apply couples.bind (resolve_twin couples services twin name)
    rintro _ _ (@⟨resolution,_,rfl,asked⟩ | ⟨related⟩)
    · obtain ⟨larger,added⟩ := twin.link steady id name asked
      dsimp only
      rw [← added]
      apply couples.bind (ih larger)
      rintro _ _ (@⟨⟨first,more⟩,⟨second,_⟩,last,rfl⟩ | ⟨related⟩)
      · exact couples.pure (.ok ⟨last,rfl⟩)
      · exact couples.pure (.error related)
    · exact couples.pure (.error related)

theorem visit_twin (twin : one.Twin allowed rootModule other) (id : NodeId) :
    couple (Result.Both allowed.failures fun first second =>
      first.1.Twin allowed rootModule second.1 ∧ first.2 = second.2)
      (one.visit left id) (other.visit right id) := by
  unfold visit
  apply couples.bind (load_twin couples steady services (twin.node steady id))
  rintro _ _ (@⟨first,second,loaded⟩ | ⟨related⟩)
  · have changed := twin.update (fun _ _ _ => loaded) id
    dsimp only
    rw [loaded.resolved,loaded.imports]
    split
    · exact couples.pure (.ok ⟨changed,rfl⟩)
    · apply couples.bind (linkAll_twin couples steady services id first.imports changed)
      rintro _ _ (@⟨⟨larger,added⟩,⟨second,_⟩,last,rfl⟩ | ⟨related⟩)
      · have done := last.update (fun _ _ same => same.done) id
        refine couples.pure (.ok ⟨done,?_⟩)
        dsimp only
        rw [last.follows,loaded.level]
      · exact couples.pure (.error related)
  · exact couples.pure (.error related)

theorem expand_twin (steps : Nat) (stack : List Frame) (twin : one.Twin allowed rootModule other)
    (loads : List Path) : couple (Run.Twin allowed rootModule) (expand left steps stack one loads)
      (expand right steps stack other loads) := by
  induction steps generalizing stack one other loads with
  | zero => exact couples.pure ⟨.unfinished,rfl⟩
  | succ steps ih =>
    match stack with
    | [] => exact couples.pure ⟨.built twin,rfl⟩
    | { pending := [], .. } :: stack => exact ih stack twin loads
    | { id, pending := child :: pending } :: stack =>
      unfold expand
      dsimp only
      rw [(twin.node steady child).toModule]
      apply couples.bind (visit_twin couples steady services twin child)
      rintro _ _ (@⟨⟨larger,added⟩,⟨second,_⟩,last,rfl⟩ | ⟨related⟩)
      · exact ih _ last _
      · exact couples.pure ⟨.failed (twin.blame steady related _),rfl⟩

/-- Services that are twins build twins. -/
theorem build_twin (steps maxDepth : Nat) (asked : allowed.files rootModule.path) :
    couple (Run.Twin allowed rootModule) (buildWithin left steps rootModule maxDepth)
      (buildWithin right steps rootModule maxDepth) := by
  have start : (ofRoot rootModule maxDepth).Twin allowed rootModule (ofRoot rootModule maxDepth) :=
    .ofRoot steady asked
  unfold buildWithin
  apply couples.bind (visit_twin couples steady services start rootId)
  rintro _ _ (@⟨⟨larger,added⟩,⟨second,_⟩,last,rfl⟩ | ⟨related⟩)
  · exact expand_twin couples steady services steps _ last _
  · exact couples.pure ⟨.failed (start.blame steady related _),rfl⟩

end Builds
end Graph
end LoadMap
