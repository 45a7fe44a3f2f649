import LoadMap.Decorated.Reader

/-! Decorated names: the names under which compilers export functions and variables, which carry
scope, access and types. -/
namespace LoadMap.Decorated

/-- The declaration that a decorated name stands for, written without calling conventions. -/
def readable? (symbolText : String) : Option String :=
  (symbol? symbolText).map (Symbol.text false)

end LoadMap.Decorated
