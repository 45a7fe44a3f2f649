import LoadMap.Binary
import LoadMap.Graph.Basic
import LoadMap.Manifest
import LoadMap.Word

/-! Building a graph: modules are loaded depth first, in the order in which they are imported, and
a module that the graph has is not loaded again. -/
namespace LoadMap

structure Services (m : Type → Type) where
  load : Path → m (Result Binary)
  readManaged : Path → m (Result ManagedReferences)
  resolve : RootModule → String → m (Result Resolution)

def importedNames (native : List ImportDescriptor) (managed : Option ManagedReferences) :
    List String :=
  native.map (·.dll) ++ (managed.map (·.modules)).getD []

namespace Graph

variable {m : Type → Type} [Monad m]

def managedPart (services : Services m) (binary : Binary) (path : Path) :
    m (Result (Option ManagedReferences)) := do
  if binary.recognized then
    match ← services.readManaged path with
    | .ok references => return .ok (some references)
    | .error (.notManaged _) => return .ok none
    | .error failure => return .error failure
  else return .ok none

/-- A manifest that cannot be read is worth a note. -/
def manifestNotes (manifest? : Option ByteArray) : List String :=
  match manifest?.map Manifest.ofBytes with
  | some (.error failure) => [s!"malformed manifest: {failure.message}"]
  | _ => []

/-- A node with what its file says. A module without a file says nothing. -/
def load (services : Services m) (node : Node) : m (Result Node) := do
  match node.path? with
  | none => return .ok node
  | some path =>
    match ← services.load path with
    | .error failure => return .error failure
    | .ok binary =>
      match ← managedPart services binary path with
      | .error failure => return .error failure
      | .ok managed => return .ok { node with
          imports := importedNames binary.imports managed
          assemblies := (managed.map (·.assemblies)).getD []
          diagnostics := node.diagnostics ++ manifestNotes binary.manifest? }

def resolve (graph : Graph) (services : Services m) (name : String) : m (Result Resolution) := do
  match ← services.resolve graph.rootModule name with
  | .error failure => return .error failure
  | .ok resolution =>
    return .ok (if resolution.strategy = .notFound then Resolution.notFound else resolution)

def addEdge (graph : Graph) (child : NodeId) (name : String) (node : Node) : Node :=
  { node with
    children :=
      if node.children.any fun other => (graph.node other).name == name then node.children
      else node.children ++ [child]
    dependencies := node.dependencies ++ [child] }

def link (graph : Graph) (id : NodeId) (name : String) (resolution : Resolution) :
    Graph × Option NodeId :=
  let (larger,child) := graph.getOrCreate
    { name, path? := resolution.path?, strategy := resolution.strategy }
    ((graph.node id).level + 1)
  (larger.update id (larger.addEdge child name),
    if (graph.lookup? name resolution.path?).isSome then none else some child)

def linkAll (services : Services m) (id : NodeId) :
    List String → Graph → m (Result (Graph × List NodeId))
  | [], graph => return .ok (graph,[])
  | name :: names, graph => do
    match ← graph.resolve services name with
    | .error failure => return .error failure
    | .ok resolution =>
      let (graph,added) := graph.link id name resolution
      match ← linkAll services id names graph with
      | .error failure => return .error failure
      | .ok (graph,more) => return .ok (graph,added.toList ++ more)

def follows (graph : Graph) (level : Nat) : Bool :=
  graph.maxDepth == 0 || level + 1 < graph.maxDepth

/-- Load a module and resolve its imports, unless that has been done; what is to be visited next
comes with the graph. -/
def visit (services : Services m) (graph : Graph) (id : NodeId) :
    m (Result (Graph × List NodeId)) := do
  match ← load services (graph.node id) with
  | .error failure => return .error failure
  | .ok loaded =>
    let graph := graph.update id fun _ => loaded
    if loaded.resolved then return .ok (graph,[])
    else
      match ← linkAll services id loaded.imports graph with
      | .error failure => return .error failure
      | .ok (graph,added) =>
        return .ok (graph.update id ({ · with resolved := true }),
          if graph.follows loaded.level then added else [])

/-- A module whose imports are being visited, and the ones that are left. -/
structure Frame where
  id : NodeId
  pending : List NodeId

def blame (graph : Graph) (failure : Failure) (ids : List NodeId) : Failure :=
  ids.foldl (fun failure id => failure.inModule (graph.node id).identity) failure

inductive Outcome
  | built (graph : Graph)
  | failed (failure : Failure)
  | unfinished
  deriving DecidableEq

structure Run where
  outcome : Outcome
  loads : List Path
  deriving DecidableEq

def expand (services : Services m) :
    (steps : Nat) → List Frame → Graph → (loads : List Path) → m Run
  | 0, _, _, loads => return { outcome := .unfinished, loads }
  | _ + 1, [], graph, loads => return { outcome := .built graph, loads }
  | steps + 1, { pending := [], .. } :: stack, graph, loads =>
    expand services steps stack graph loads
  | steps + 1, { id, pending := child :: pending } :: stack, graph, loads => do
    let stack := { id, pending } :: stack
    let loads := loads ++ (graph.node child).path?.toList
    match ← graph.visit services child with
    | .ok (graph,added) =>
      expand services steps ({ id := child, pending := added } :: stack) graph loads
    | .error failure =>
      return { outcome := .failed (graph.blame failure (child :: stack.map (·.id))), loads }

def buildWithin (services : Services m) (steps : Nat) (rootModule : RootModule) (maxDepth : Nat) :
    m Run := do
  let graph := ofRoot rootModule maxDepth
  let loads := [rootModule.path]
  match ← graph.visit services rootId with
  | .ok (graph,added) => expand services steps [{ id := rootId, pending := added }] graph loads
  | .error failure => return { outcome := .failed (graph.blame failure [rootId]), loads }

/-- More steps than any machine takes. -/
def allSteps : Nat := Word.limit 62

def build (services : Services m) (rootModule : RootModule) (maxDepth : Nat) : m Run :=
  buildWithin services allSteps rootModule maxDepth

end Graph
end LoadMap
