import LoadMap.CommandLine.Run

/-! The program: the words of the command line go to the library, which asks the machine for its
files. -/
namespace LoadMap.Machine

def attempt {α : Type} (work : IO α) : IO (Option α) := do
  try return some (← work)
  catch _ => return none

def kindOf : IO.FS.FileType → FileKind
  | .dir => .folder
  | .file => .file
  | _ => .other

/-- The disk of the machine. In a listing, a link is not the file it leads to. -/
def fileSystem : FileSystem IO where
  workingFolder := return ⟨(← IO.currentDir).toString⟩
  kind? path := attempt do
    let place ← IO.FS.realPath path.text
    return kindOf (← place.metadata).type
  content? path := attempt (IO.FS.readBinFile path.text)
  names? path := attempt do
    let place ← IO.FS.realPath path.text
    (← place.readDir).toList.mapM fun entry =>
      return (entry.fileName,kindOf (← entry.path.symlinkMetadata).type)
  canonical? path := attempt do
    return ⟨(← IO.FS.realPath path.text).toString⟩

end LoadMap.Machine

def main (words : List String) : IO UInt32 := do
  let output ← LoadMap.CommandLine.run LoadMap.Machine.fileSystem words
  IO.print output.standard
  output.complaints.forM IO.eprintln
  return output.code.toUInt32
