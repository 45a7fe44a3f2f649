/-! What a binary asks of other modules. -/
namespace LoadMap

structure ImportedFunction where
  name? : Option String
  ordinal? : Option Nat
  deriving DecidableEq, Repr, Inhabited

structure ImportDescriptor where
  dll : String
  delay : Bool
  functions : List ImportedFunction
  deriving DecidableEq, Repr, Inhabited

end LoadMap
