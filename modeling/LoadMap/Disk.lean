import LoadMap.FileSystem

/-! A disk as a value: folders and files by location, a location being the names on the way from
the root. The order of the entries is the order in which folders are listed. -/
namespace LoadMap

abbrev Disk.Location := List String

inductive Disk.Entry
  | folder
  | file (content : ByteArray)

structure Disk where
  workingFolder : Disk.Location
  entries : List (Disk.Location × Disk.Entry)

namespace Disk

def Entry.kind : Entry → FileKind
  | .folder => .folder
  | .file _ => .file

def entry? (disk : Disk) (location : Location) : Option Entry :=
  if location = [] then some .folder else disk.entries.lookup location

def isFolderAt (disk : Disk) (location : Location) : Bool :=
  (disk.entry? location).any (·.kind == .folder)

def step? (disk : Disk) (here : Location) (piece : List Char) : Option Location :=
  if disk.isFolderAt here then
    if piece = [] ∨ piece = ['.'] then some here
    else if piece = ['.','.'] then some here.dropLast
    else
      let next := here ++ [String.ofList piece]
      if (disk.entry? next).isSome then some next else none
  else none

/-- The location a path leads to; the empty path leads nowhere. -/
def locate? (disk : Disk) (path : Path) : Option Location :=
  if path.text = "" then none
  else (Text.pieces '/' path.text.toList).foldlM disk.step?
    (if path.isAbsolute then [] else disk.workingFolder)

def find? (disk : Disk) (path : Path) : Option Entry :=
  (disk.locate? path).bind disk.entry?

def pathOf (location : Location) : Path := ⟨"/" ++ "/".intercalate location⟩

def namesAt (disk : Disk) (location : Location) : List (String × FileKind) :=
  disk.entries.filterMap fun (place,entry) =>
    match place.getLast? with
    | some name => if place.dropLast = location then some (name,entry.kind) else none
    | none => none

def names? (disk : Disk) (path : Path) : Option (List (String × FileKind)) :=
  match disk.locate? path with
  | some location => if disk.isFolderAt location then some (disk.namesAt location) else none
  | none => none

def content? (disk : Disk) (path : Path) : Option ByteArray :=
  match disk.find? path with
  | some (.file content) => some content
  | _ => none

def fileSystem (disk : Disk) : FileSystem Id where
  workingFolder := pathOf disk.workingFolder
  kind? path := (disk.find? path).map Entry.kind
  content? := disk.content?
  names? := disk.names?
  canonical? path := (disk.locate? path).map pathOf

/-- Where a path leads if everything on the way is there or is about to be. -/
def target (disk : Disk) (path : Path) : Location :=
  (Text.pieces '/' path.text.toList).foldl
    (fun here piece =>
      if piece = [] ∨ piece = ['.'] then here
      else if piece = ['.','.'] then here.dropLast
      else here ++ [String.ofList piece])
    (if path.isAbsolute then [] else disk.workingFolder)

def put (disk : Disk) (location : Location) (entry : Entry) : Disk :=
  if (disk.entries.lookup location).isSome then
    { disk with entries := disk.entries.map fun (place,old) =>
        (place,if place = location then entry else old) }
  else { disk with entries := disk.entries ++ [(location,entry)] }

def makeFolderAt (disk : Disk) (location : Location) : Disk :=
  if (disk.entry? location).isSome then disk else disk.put location .folder

def makeFolders (disk : Disk) (location : Location) : Disk :=
  (List.range (location.length + 1)).foldl
    (fun disk length => disk.makeFolderAt (location.take length)) disk

def makeFolder (disk : Disk) (path : Path) : Disk := disk.makeFolders (disk.target path)

def write (disk : Disk) (path : Path) (content : ByteArray) : Disk :=
  let location := disk.target path
  (disk.makeFolders location.dropLast).put location (.file content)

def remove (disk : Disk) (path : Path) : Disk :=
  let location := disk.target path
  { disk with entries := disk.entries.filter fun (place,_) => !location.isPrefixOf place }

def empty (workingFolder : Location) : Disk :=
  { workingFolder, entries := [] : Disk }.makeFolders workingFolder

end Disk
end LoadMap
