import LoadMap.Json.Value
import LoadMap.Path

/-! How the name of a module was resolved. -/
namespace LoadMap

/-- The step of the search that answered, in order of precedence. -/
inductive Strategy
  | root
  | knownDll
  | apiSet
  | sideBySide
  | standardSearch
  | notFound
  deriving DecidableEq, Repr, Inhabited

namespace Strategy

def all : List Strategy := [root,knownDll,apiSet,sideBySide,standardSearch,notFound]

def label : Strategy → String
  | root => "Root"
  | knownDll => "KnownDll"
  | apiSet => "ApiSet"
  | sideBySide => "SideBySide"
  | standardSearch => "StandardSearch"
  | notFound => "NotFound"

def rank (strategy : Strategy) : Nat := all.idxOf strategy

def ofLabel? (text : String) : Option Strategy := all.find? (·.label = text)

/-- A strategy is written as its label, or as an object with the label for its only key. -/
def ofJson? : Json → Option Strategy
  | .string text => ofLabel? text
  | .object [(text,.null)] => ofLabel? text
  | _ => none

/-- Stable, so what has the same strategy keeps its order. -/
def sortBy {α : Type} (strategy : α → Strategy) (items : List α) : List α :=
  items.mergeSort fun left right => (strategy left).rank ≤ (strategy right).rank

end Strategy

structure Resolution where
  strategy : Strategy
  path? : Option Path

namespace Resolution

def notFound : Resolution := { strategy := .notFound, path? := none }

def found (strategy : Strategy) (path : Path) : Resolution :=
  if strategy = .notFound then notFound else { strategy, path? := some path }

end Resolution
end LoadMap
