import LoadMap.Graph.Walk
import LoadMap.Json.Reader
import LoadMap.Failure

/-! The graph as a document: a tree in which every file is unfolded once, written as JSON. -/
namespace LoadMap

structure GraphExport where
  root : Tree Module
  maxDepth : Nat

namespace Graph

def exportTree (graph : Graph) : Graph × GraphExport :=
  let (last,root) := graph.dependencyTree
  (last,{ root, maxDepth := graph.maxDepth })

end Graph

def Module.fields (item : Module) : List (String × Json) := [
  ("ModuleName",.string item.name),
  ("Filepath",Json.ofOption (.string ·.text) item.path?),
  ("SearchStrategy",.string item.strategy.label)]

namespace GraphExport

mutual
def treeToJson : Tree Module → Json
  | .node item branches =>
    .object (item.fields ++ [("Dependencies",.array (treesToJson branches))])

def treesToJson : List (Tree Module) → List Json
  | [] => []
  | tree :: rest => treeToJson tree :: treesToJson rest
end

def toJson (document : GraphExport) : Json :=
  .object [("Root",treeToJson document.root),("MaxRecursion",.ofNat document.maxDepth)]

/-- The values of named fields. An object may have other fields as well, but none of these twice; a
list holds exactly these values in this order. -/
def fieldsOf? (names : List String) : Json → Option (List (Option Json))
  | .array items => if items.length = names.length then some (items.map some) else none
  | .object fields =>
    if names.all fun name => fields.countP (·.1 == name) ≤ 1 then
      some (names.map fun name => fields.lookup name)
    else none
  | _ => none

def pathOf? : Option Json → Option (Option Path)
  | none | some .null => some none
  | some value => value.toText?.map (some ⟨·⟩)

def treeOf? : (room : Nat) → Json → Option (Tree Module)
  | room + 2, value => do
    let [some name,path,some strategy,some (.array branches)] ←
        fieldsOf? ["ModuleName","Filepath","SearchStrategy","Dependencies"] value
      | none
    let name ← name.toText?
    let path? ← pathOf? path
    let strategy ← Strategy.ofJson? strategy
    return .node { name, path?, strategy } (← branches.mapM (treeOf? room))
  | _, _ => none

/-- How many objects and lists a document may have open at a time. -/
def deepest : Nat := 127

def ofJson? (value : Json) : Option GraphExport := do
  let [some root,some maxDepth] ← fieldsOf? ["Root","MaxRecursion"] value
    | none
  return { root := ← treeOf? (deepest - 1) root, maxDepth := ← maxDepth.toNat? }

def ofText (text : String) : Result GraphExport :=
  match (Json.read? text).bind ofJson? with
  | some document => .ok document
  | none => .error (.json "the text is no exported graph")

end GraphExport
end LoadMap
