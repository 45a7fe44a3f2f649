import LoadMap.FileSystem
import LoadMap.Text.Lowercase

/-! Files by name in folders, whatever the letter case. A folder is listed once; later questions
are answered from that list. -/
namespace LoadMap

abbrev Listing := List (String × String)

/-- A folder that cannot be listed has no files. -/
def Listing.ofNames (names? : Option (List (String × FileKind))) : Listing :=
  (names?.getD []).filterMap fun (name,kind) =>
    if kind = .file then some (Text.lowercase name,name) else none

/-- The spelling of a name; the last file listed counts. -/
def Listing.find? (listing : Listing) (name : String) : Option String :=
  listing.reverse.lookup (Text.lowercase name)

structure FolderCache where
  folders : List (List Path.Component × Listing) := []

namespace FolderCache

variable {m : Type → Type} [Monad m]

def listing (files : FileSystem m) (folder : Path) : StateT FolderCache m Listing := do
  match (← get).folders.lookup folder.components with
  | some known => return known
  | none =>
    let listing := Listing.ofNames (← files.names? folder)
    modify fun cache => { folders := (folder.components,listing) :: cache.folders }
    return listing

def find? (files : FileSystem m) (folder : Path) (name : String) :
    StateT FolderCache m (Option Path) :=
  return ((← listing files folder).find? name).map folder.join

end FolderCache
end LoadMap
