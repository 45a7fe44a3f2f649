import LoadMap.Metadata.References
import LoadMap.Resolution
import LoadMap.RootModule

/-! The graph of modules that a binary needs. A node stands for a name together with the file it
resolved to, and its number is its place in the list of nodes, which only grows. -/
namespace LoadMap

structure Module where
  name : String
  path? : Option Path
  strategy : Strategy
  deriving DecidableEq, Inhabited

/-- A file as it is compared: by components; none for a module that was not found. -/
abbrev Place := Option (List Path.Component)

def placeOf (path? : Option Path) : Place := path?.map Path.components

instance decidableMet (place : Place) (places : List Place) : Decidable (place ∈ places) :=
  inferInstance

/-- The path of the file, or the name when there is no file. -/
def Module.identity (item : Module) : String :=
  match item.path? with
  | some path => path.text
  | none => item.name

namespace Graph

abbrev NodeId := Nat

structure Key where
  name : String
  place : Place
  deriving DecidableEq

structure Node extends Module where
  /-- How deep the module lay where it was first met. -/
  level : Nat
  imports : List String := []
  assemblies : List AssemblyReference := []
  /-- The modules imported, each imported name once. -/
  children : List NodeId := []
  /-- The modules imported, repeated imports included. -/
  dependencies : List NodeId := []
  resolved : Bool := false
  diagnostics : List String := []
  deriving DecidableEq, Inhabited

end Graph

def Module.key (item : Module) : Graph.Key := { name := item.name, place := placeOf item.path? }

namespace Graph

def Node.key (node : Node) : Key := { name := node.name, place := placeOf node.path? }

end Graph

structure Graph where
  rootModule : RootModule
  maxDepth : Nat
  nodes : List Graph.Node
  /-- The number of the node for a key, the latest entry first. -/
  index : List (Graph.Key × Graph.NodeId)
  visited : List Place := []
  deriving DecidableEq

namespace Graph

def rootId : NodeId := 0

def ofRoot (rootModule : RootModule) (maxDepth : Nat) : Graph where
  rootModule := rootModule
  maxDepth := maxDepth
  nodes := [{
    name := rootModule.name
    path? := some rootModule.path
    strategy := .root
    level := 0 }]
  index := [({ name := rootModule.name, place := placeOf (some rootModule.path) },rootId)]

def node (graph : Graph) (id : NodeId) : Node := graph.nodes.getD id default

def size (graph : Graph) : Nat := graph.nodes.length

def lookup? (graph : Graph) (name : String) (path? : Option Path) : Option NodeId :=
  graph.index.lookup { name, place := placeOf path? }

/-- The node for a name and a file; when there is none, it becomes the last one. -/
def getOrCreate (graph : Graph) (item : Module) (level : Nat) : Graph × NodeId :=
  match graph.lookup? item.name item.path? with
  | some id => (graph,id)
  | none => ({ graph with
      nodes := graph.nodes ++ [{ toModule := item, level }]
      index := (item.key,graph.size) :: graph.index },graph.size)

def update (graph : Graph) (id : NodeId) (change : Node → Node) : Graph :=
  { graph with nodes := graph.nodes.modify id change }

def modules (graph : Graph) : List Module :=
  Strategy.sortBy (·.strategy) (graph.nodes.map (·.toModule))

def mark (graph : Graph) (id : NodeId) : Graph × Bool :=
  let place := placeOf (graph.node id).path?
  if place ∈ graph.visited then (graph,false)
  else ({ graph with visited := place :: graph.visited },true)

def forgetVisited (graph : Graph) : Graph := { graph with visited := [] }

end Graph
end LoadMap
