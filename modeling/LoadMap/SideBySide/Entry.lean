import LoadMap.Path
import LoadMap.Text.Ascii

/-! Files that a manifest redirects to an assembly. -/
namespace LoadMap.SideBySide

/-- A redirected file; it has no path when the assembly that brings it was not found. -/
structure Entry where
  name : String
  path? : Option Path
  deriving DecidableEq, Repr

def find? (entries : List Entry) (name : String) : Option Entry :=
  entries.find? fun entry => Text.Ascii.equalIgnoringCase entry.name name

end LoadMap.SideBySide
