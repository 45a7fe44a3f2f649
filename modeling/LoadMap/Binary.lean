import LoadMap.Path
import LoadMap.ApiSet.Schema
import LoadMap.Image.DelayImport
import LoadMap.Image.ExportTable
import LoadMap.Image.ImportTable
import LoadMap.Image.Resource

/-! What is to be known of a file in order to follow its imports. -/
namespace LoadMap

structure Binary where
  path : Path
  /-- Whether the file is an executable image at all; if not, it has no imports. -/
  recognized : Bool := false
  is64 : Bool := false
  dllName? : Option String := none
  /-- The import table in its order, then the delay-load imports. -/
  imports : List ImportDescriptor := []
  exports : List ExportedSymbol := []
  manifest? : Option ByteArray := none
  schema? : Option ApiSetMap := none

namespace Binary

open Image

/-- A broken export table costs the exports only. -/
def exportsOf (view : SectionView) : Option String × List ExportedSymbol :=
  match ExportTable.read view with
  | .ok exports => exports
  | .error _ => (none,[])

def schemaOf (view : LoaderView) : Result (Option ApiSetMap) :=
  if view.sections.any (·.name = ".apiset") then ApiSetMap.ofImage? view.bytes else .ok none

/-- A file of another format is not a failure. -/
def ofBytes (path : Path) (content : ByteArray) : Result Binary := do
  unless Bytes.startsWith content dosSignature do return { path }
  match ← LoaderView.parse content with
  | .otherFormat => return { path }
  | .view loader =>
    let table ← ImportTable.read loader
    ImportTable.checkRuntime loader
    ImportTable.checkResources loader
    let image ← .ofFault (Image.parse content)
    let sections ← SectionView.parse content
    let delayed ← .ofFault image.delayImports
    let (dllName?,exports) := exportsOf sections
    return {
      path, recognized := true, is64 := image.is64, dllName?
      imports := groupImports table ++ delayed, exports
      manifest? := Resource.manifest? sections
      schema? := ← schemaOf loader }

end Binary
end LoadMap
