/-! What a binary offers to other modules. -/
namespace LoadMap

structure ExportedSymbol where
  ordinal : Nat
  name? : Option String
  address : Nat
  forwardedTo? : Option String
  deriving DecidableEq, Repr, Inhabited

end LoadMap
