import LoadMap.Chain
import LoadMap.CommandLine.Arguments
import LoadMap.Report

/-! Running the commands. A run ends with a whole report, or with a complaint and no report. -/
namespace LoadMap.CommandLine

structure Complaint where
  trail : List String := []
  message : String
  cause? : Option String := none

def Complaint.ofFailure (failure : Failure) : Complaint where
  trail := failure.trail
  message := failure.message
  cause? := if failure.trail = [] then none else some failure.rootCause.message

def Complaint.about (message : String) (failure : Failure) : Complaint :=
  { message, cause? := some failure.message }

variable {m : Type → Type} [Monad m]

abbrev Attempt (m : Type → Type) := ExceptT Complaint (StateT Session m)

def step {α : Type} (complain : Failure → Complaint) (work : StateT Session m (Result α)) :
    Attempt m α :=
  ExceptT.mk (do return (← work).mapError complain)

def complain {α : Type} (message : String) : Attempt m α := throw { message }

def checkFile (files : FileSystem m) (file : Path) : Attempt m Path := do
  match ← (files.kind? file : m _) with
  | none =>
    let folder ← (files.workingFolder : m _)
    complain s!"Could not find file {file} on disk\nCurrent working directory: {folder}"
  | some .folder => complain s!"The specified path is a directory, not a PE file: {file}"
  | some _ => step .ofFailure (liftM (files.canonical file))

def loadFile (files : FileSystem m) (file : Path) : Attempt m Binary := do
  let path ← checkFile files file
  let message := s!"Could not load file {path} as a PE"
  let binary ← step (.about message) (Session.load files path)
  unless binary.recognized do complain message
  return binary

/-- An image without a managed part refers to nothing. -/
def readManaged (files : FileSystem m) (path : Path) : Attempt m ManagedReferences := do
  let message := s!"Could not read the managed metadata of {path}"
  step (.about message) (do
    match ← (ManagedReferences.ofFile files path : m _) with
    | .error (.notManaged _) => return .ok {}
    | answer => return answer)

/-- The folders of a list by their absolute paths, those left out that are not there. -/
def userFolders (files : FileSystem m) : List Path → m (Result (List Path))
  | [] => return .ok []
  | folder :: folders => do
    if ← files.isPresent folder then
      match ← files.canonical folder with
      | .error failure => return .error failure
      | .ok path => return (← userFolders files folders).map (path :: ·)
    else userFolders files folders

def pathList (text : String) : List Path :=
  ((Text.pieces ';' text.toList).filter (· ≠ [])).map fun piece => ⟨String.ofList piece⟩

def listComplaint (list? : Option Path) : Failure → Complaint
  | .context text => .ofFailure (.context text)
  | failure =>
    let list := (list?.map Path.text).getD ""
    .about s!"Could not read the known DLLs from {list}" failure

def queryFor (files : FileSystem m) (options : Options) (path : Path) : Attempt m Query := do
  let settings : Settings := {
    maxDepth? := options.depth?
    keepBinaries := options.cache
    windowsRoot? := options.windowsRoot?
    knownDllList? := options.knownDllList?
    workingFolder? := options.workingFolder? }
  let query ← step (listComplaint options.knownDllList?) (liftM (settings.query files path))
  let folders ← step .ofFailure (liftM (userFolders files (pathList (options.userPath?.getD ""))))
  return { query with userPath := query.userPath ++ folders }

def sideBySideReport (files : FileSystem m) (options : Options) (binary : Binary) :
    Attempt m Report := do
  let query ← queryFor files options binary.path
  let shown := match ← (files.canonical? binary.path : m _) with
    | some path => Path.withoutMark path.text
    | none => binary.path.text
  let message := s!"Could not read the side-by-side entries of {shown}"
  let entries ← step (.about message) (liftM (SideBySide.entriesOf files binary query.appFolder
    (query.system?.map (·.windowsFolder))))
  return Report.sideBySide binary.path entries

def graphFor (files : FileSystem m) (options : Options) (file : Path) : Attempt m Graph := do
  let binary ← loadFile files file
  let query ← queryFor files options binary.path
  return (← step .ofFailure (Chain.ofBinary files query binary)).graph

def fileReport (files : FileSystem m) (options : Options) (command : FileCommand) (file : Path) :
    Attempt m Report := do
  match command with
  | .imports => return Report.imports (← loadFile files file)
  | .exports => return Report.exports (← loadFile files file)
  | .manifest => return Report.manifest (← loadFile files file)
  | .sideBySide => sideBySideReport files options (← loadFile files file)
  | .managedModules =>
    let path ← checkFile files file
    return Report.managedModules path (← readManaged files path)
  | .assemblies =>
    let path ← checkFile files file
    return Report.assemblies path (← readManaged files path)
  | .chain => return Report.chain (← graphFor files options file)
  | .modules => return Report.modules (← graphFor files options file)
  | .apiSets =>
    let binary ← loadFile files file
    match binary.schema? with
    | some map => return Report.apiSets map
    | none => complain s!"{binary.path} has no API set schema"

def systemFor (files : FileSystem m) (options : Options) : Attempt m WindowsSystem := do
  match options.windowsRoot? with
  | none => complain "A Windows partition must be specified with --windows-root"
  | some root =>
    match ← (WindowsSystem.ofRoot? files root : m _) with
    | none => complain s!"No Windows installation found at {root}"
    | some system =>
      let settings : Settings := { knownDllList? := options.knownDllList? }
      let known ← step (listComplaint options.knownDllList?)
        (liftM (settings.withKnownDlls files (some system)))
      return known.getD system

def systemReport (files : FileSystem m) (options : Options) (command : SystemCommand) :
    Attempt m Report := do
  let system ← systemFor files options
  match command with
  | .knownDlls => return Report.knownDlls system
  | .apiSets =>
    match system.apiSets? with
    | some map => return Report.apiSets map
    | none => complain s!"No API set schema found in {system.systemFolder}"

def report (files : FileSystem m) (request : Request) : Attempt m Report :=
  match request.action with
  | .onFile command file => fileReport files request.options command file
  | .onSystem command => systemReport files request.options command

structure Output where
  code : Nat
  standard : String := ""
  complaints : List String := []

def Complaint.lines (complaint : Complaint) : List String :=
  (if complaint.trail = [] then []
    else ("[x] " ++ complaint.cause?.getD "") ::
      complaint.trail.map fun module => "    in " ++ Path.withoutMark module) ++
    [s!"Error: {complaint.message}"] ++
    match complaint.cause? with
    | some cause => ["","Caused by:",s!"    {cause}"]
    | none => []

def usage : String :=
  "Usage: depchain [OPTIONS] <COMMAND>\n\nCommands: imports, exports, manifest, sxsentries, " ++
    "modulerefs, assemblyrefs, chain, modules, apisetsdll <FILE>; knowndll, apisets\n"

def Interruption.output : Interruption → Output
  | .misuse => { code := 2, complaints := [usage] }
  | .help => { code := 0, standard := usage }
  | .version => { code := 0, standard := "depchain 0.4.0\n" }

def run (files : FileSystem m) (words : List String) : m Output := do
  match Request.ofWords words with
  | .error interruption => return interruption.output
  | .ok request =>
    let session : Session := { binaries := { keeps := request.options.cache } }
    let (answer,_) ← (report files request).run session
    match answer with
    | .ok report => return { code := 0, standard := report.render request.options.json }
    | .error complaint => return { code := 1, complaints := complaint.lines }

end LoadMap.CommandLine
