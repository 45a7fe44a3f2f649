import LoadMap.SideBySide.Entry

/-! The binary under analysis, to which every search for a module is relative. -/
namespace LoadMap

structure RootModule where
  name : String
  path : Path
  sideBySide : List SideBySide.Entry
  manifestBroken : Bool
  deriving DecidableEq

def RootModule.ofPath (path : Path) (sideBySide : List SideBySide.Entry) : RootModule :=
  { name := path.label, path, sideBySide, manifestBroken := false }

end LoadMap
