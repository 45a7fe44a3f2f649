import LoadMap.CommandLine.Run
import LoadMap.Disk
import LoadMap.Proofs.Bounds
import LoadMap.Proofs.CommandLine.Content
import LoadMap.Proofs.Graph.Refinement

/-! A run of the program prints a whole report, or a complaint and no report. What each command asks of the library is
listed here, and there is a report if and only if all of it succeeds. -/
namespace LoadMap.CommandLine

variable {files : FileSystem Id} {options : Options} {file path : Path} {before after : Session} {α β : Type}

/-- The file is there and is not a folder, and this is its absolute path. -/
structure Located (files : FileSystem Id) (file path : Path) : Prop where
  there : ∃ kind, (files.kind? file).run = some kind ∧ kind ≠ .folder
  absolute : (files.canonical file).run = .ok path

/-- The library loads the file, and it is an executable image. -/
structure Loaded (files : FileSystem Id) (before : Session) (file : Path) (binary : Binary) (after : Session) :
    Prop where
  located : ∃ path, Located files file path ∧ ((Session.load files path).run before).run = (.ok binary,after)
  recognized : binary.recognized = true

/-- What the managed part of a file refers to; nothing if it has none. -/
inductive ManagedPart (files : FileSystem Id) (path : Path) : ManagedReferences → Prop
  | managed {references : ManagedReferences} (answer : (ManagedReferences.ofFile files path).run = .ok references) :
      ManagedPart files path references
  | native {image : String} (answer : (ManagedReferences.ofFile files path).run = .error (.notManaged image)) :
      ManagedPart files path {}

def Options.settings (options : Options) : Settings where
  maxDepth? := options.depth?
  keepBinaries := options.cache
  windowsRoot? := options.windowsRoot?
  knownDllList? := options.knownDllList?
  workingFolder? := options.workingFolder?

/-- The folders of a list by their absolute paths. One that is not there is left out, and one that is there needs a
path. -/
inductive UserFolders (files : FileSystem Id) : List Path → List Path → Prop
  | nil : UserFolders files [] []
  | missing {folder : Path} {folders paths : List Path} (nothing : (files.kind? folder).run = none)
      (others : UserFolders files folders paths) : UserFolders files (folder :: folders) paths
  | there {folder path : Path} {kind : FileKind} {folders paths : List Path}
      (present : (files.kind? folder).run = some kind) (absolute : (files.canonical? folder).run = some path)
      (others : UserFolders files folders paths) : UserFolders files (folder :: folders) (path :: paths)

/-- The query for an executable: the one that the settings give, with the folders of the user behind its own. -/
inductive QueryOf (files : FileSystem Id) (options : Options) (executable : Path) : Query → Prop
  | extended {query : Query} {folders : List Path}
      (surroundings : (options.settings.query files executable).run = .ok query)
      (named : UserFolders files (pathList (options.userPath?.getD "")) folders) :
      QueryOf files options executable { query with userPath := query.userPath ++ folders }

def Options.session (options : Options) : Session := { binaries := { keeps := options.cache } }

/-- The system on the partition that the options name, with the known modules of the list if there is one. -/
inductive SystemOf (files : FileSystem Id) (options : Options) : WindowsSystem → Prop
  | plain {root : Path} {system : WindowsSystem} (named : options.windowsRoot? = some root)
      (found : (WindowsSystem.ofRoot? files root).run = some system) (unlisted : options.knownDllList? = none) :
      SystemOf files options system
  | listed {root list : Path} {system : WindowsSystem} {known : KnownDlls} (named : options.windowsRoot? = some root)
      (found : (WindowsSystem.ofRoot? files root).run = some system) (given : options.knownDllList? = some list)
      (read : (KnownDlls.ofFile files list system.systemFolder).run = .ok known) :
      SystemOf files options { system with knownDlls? := some known }

def graphRun (files : FileSystem Id) (query : Query) (root : RootModule) (before : Session) : Graph.Run × Session :=
  ((Graph.build (Session.services files (.ofQuery query)) root query.maxDepth).run before).run

/-- The whole graph of a file: it is loaded, it gives a query and the root of a search, and from there the recursive
procedure builds a graph, with no more steps than are allowed. -/
inductive BuildsGraph (files : FileSystem Id) (options : Options) (file : Path) : Graph → Prop
  | built {binary : Binary} {loaded : Session} {query : Query} {root : RootModule} {graph : Graph} {depth : Nat}
      (input : Loaded files options.session file binary loaded)
      (surroundings : QueryOf files options binary.path query)
      (context : (RootModule.ofBinary files binary query.appFolder (query.system?.map (·.windowsFolder))).run =
        .ok root)
      (ended : (graphRun files query root loaded).1.outcome ≠ .unfinished)
      (whole : ((Graph.buildRecursively (Session.services files (.ofQuery query)) depth root query.maxDepth).run
        loaded).1.outcome = .built graph) :
      BuildsGraph files options file graph

/-- What answers an action, and all that has to succeed for it. -/
inductive Answers (files : FileSystem Id) (options : Options) : Action → Content → Prop
  | imports {file : Path} {binary : Binary} {loaded : Session}
      (input : Loaded files options.session file binary loaded) :
      Answers files options (.onFile .imports file) (.imports binary)
  | exports {file : Path} {binary : Binary} {loaded : Session}
      (input : Loaded files options.session file binary loaded) :
      Answers files options (.onFile .exports file) (.exports binary)
  | manifest {file : Path} {binary : Binary} {loaded : Session}
      (input : Loaded files options.session file binary loaded) :
      Answers files options (.onFile .manifest file) (.manifest binary)
  | sideBySide {file : Path} {binary : Binary} {loaded : Session} {query : Query} {entries : List SideBySide.Entry}
      (input : Loaded files options.session file binary loaded)
      (surroundings : QueryOf files options binary.path query)
      (read : (SideBySide.entriesOf files binary query.appFolder (query.system?.map (·.windowsFolder))).run =
        .ok entries) :
      Answers files options (.onFile .sideBySide file) (.sideBySide binary.path entries)
  | managedModules {file path : Path} {references : ManagedReferences} (located : Located files file path)
      (read : ManagedPart files path references) :
      Answers files options (.onFile .managedModules file) (.managedModules path references)
  | assemblies {file path : Path} {references : ManagedReferences} (located : Located files file path)
      (read : ManagedPart files path references) :
      Answers files options (.onFile .assemblies file) (.assemblies path references)
  | chain {file : Path} {graph : Graph} (whole : BuildsGraph files options file graph) :
      Answers files options (.onFile .chain file) (.chain graph)
  | modules {file : Path} {graph : Graph} (whole : BuildsGraph files options file graph) :
      Answers files options (.onFile .modules file) (.modules graph)
  | schema {file : Path} {binary : Binary} {loaded : Session} {map : ApiSetMap}
      (input : Loaded files options.session file binary loaded) (schema : binary.schema? = some map) :
      Answers files options (.onFile .apiSets file) (.apiSets map)
  | knownDlls {system : WindowsSystem} (host : SystemOf files options system) :
      Answers files options (.onSystem .knownDlls) (.knownDlls system)
  | apiSets {system : WindowsSystem} {map : ApiSetMap} (host : SystemOf files options system)
      (schema : system.apiSets? = some map) :
      Answers files options (.onSystem .apiSets) (.apiSets map)

def Gives (attempt : Attempt Id α) (before : Session) (value : α) (after : Session) : Prop :=
  (attempt.run.run before).run = (.ok value,after)

theorem gives_pure_iff {given value : α} :
    Gives (pure given) before value after ↔ given = value ∧ before = after := by
  constructor
  · rintro ⟨⟩
    exact ⟨rfl,rfl⟩
  · rintro ⟨rfl,rfl⟩
    rfl

theorem gives_bind_iff {attempt : Attempt Id α} {more : α → Attempt Id β} {value : β} :
    Gives (attempt >>= more) before value after ↔
      ∃ first middle, Gives attempt before first middle ∧ Gives (more first) middle value after := by
  unfold Gives
  rw [ExceptT.run_bind,StateT.run_bind,Id.run_bind]
  obtain ⟨answer,middle⟩ := (attempt.run.run before).run
  cases answer with
  | ok first =>
    constructor
    · intro rest
      exact ⟨first,middle,rfl,rest⟩
    · rintro ⟨_,_,⟨⟩,rest⟩
      exact rest
  | error complaint =>
    constructor
    · rintro ⟨⟩
    · rintro ⟨_,_,⟨⟩,_⟩

theorem gives_asked_iff {work : Id α} {more : α → Attempt Id β} {value : β} :
    Gives ((liftM work : Attempt Id α) >>= more) before value after ↔ Gives (more work.run) before value after :=
  Iff.rfl

theorem gives_step_iff {complaint : Failure → Complaint} {work : StateT Session Id (Result α)} {value : α} :
    Gives (step complaint work) before value after ↔ (work.run before).run = (.ok value,after) := by
  unfold Gives step
  rw [ExceptT.run_mk,StateT.run_bind,Id.run_bind]
  obtain ⟨answer,middle⟩ := (work.run before).run
  cases answer with
  | ok first =>
    constructor
    · rintro ⟨⟩
      rfl
    · rintro ⟨⟩
      rfl
  | error failure =>
    constructor
    · rintro ⟨⟩
    · rintro ⟨⟩

theorem gives_step_asked_iff {complaint : Failure → Complaint} {work : Id α}
    {more : α → StateT Session Id (Result β)} {value : β} :
    Gives (step complaint ((liftM work : StateT Session Id α) >>= more)) before value after ↔
      ((more work.run).run before).run = (.ok value,after) :=
  gives_step_iff

theorem not_gives_complain {message : String} {value : α} : ¬ Gives (complain message) before value after := by
  rintro ⟨⟩

theorem gives_checkFile_iff : Gives (checkFile files file) before path after ↔
    Located files file path ∧ before = after := by
  refine gives_asked_iff.trans ?_
  cases known : (files.kind? file).run with
  | none =>
    constructor
    · intro given
      exact absurd (gives_asked_iff.mp given) not_gives_complain
    · rintro ⟨⟨⟨kind,found,-⟩,-⟩,-⟩
      rw [known] at found
      cases found
  | some kind =>
    have proper (other : kind ≠ .folder) : Gives (step .ofFailure (liftM (files.canonical file))) before path after ↔
        Located files file path ∧ before = after := by
      rw [gives_step_iff]
      constructor
      · intro answer
        obtain ⟨absolute,rfl⟩ := Prod.mk.inj answer
        exact ⟨⟨⟨kind,known,other⟩,absolute⟩,rfl⟩
      · rintro ⟨⟨-,absolute⟩,rfl⟩
        exact congrArg (·,before) absolute
    cases kind with
    | folder =>
      constructor
      · intro given
        exact absurd given not_gives_complain
      · rintro ⟨⟨⟨kind,found,other⟩,-⟩,-⟩
        rw [known] at found
        cases found
        exact absurd rfl other
    | file => exact proper nofun
    | other => exact proper nofun

theorem gives_loadFile_iff {binary : Binary} : Gives (loadFile files file) before binary after ↔
    Loaded files before file binary after := by
  unfold loadFile
  rw [gives_bind_iff]
  constructor
  · rintro ⟨path,middle,checked,rest⟩
    obtain ⟨located,rfl⟩ := gives_checkFile_iff.mp checked
    obtain ⟨loaded,middle,read,rest⟩ := gives_bind_iff.mp rest
    cases recognized : loaded.recognized with
    | true =>
      rw [recognized] at rest
      obtain ⟨rfl,rfl⟩ := gives_pure_iff.mp rest
      exact ⟨⟨path,located,gives_step_iff.mp read⟩,recognized⟩
    | false =>
      rw [recognized] at rest
      obtain ⟨_,_,stopped,-⟩ := gives_bind_iff.mp rest
      exact absurd stopped not_gives_complain
  · rintro ⟨⟨path,located,read⟩,recognized⟩
    refine ⟨path,before,gives_checkFile_iff.mpr ⟨located,rfl⟩,?_⟩
    refine gives_bind_iff.mpr ⟨binary,after,gives_step_iff.mpr read,?_⟩
    rw [recognized]
    exact gives_pure_iff.mpr ⟨rfl,rfl⟩

theorem gives_readManaged_iff {references : ManagedReferences} : Gives (readManaged files path) before references after ↔
    ManagedPart files path references ∧ before = after := by
  refine gives_step_asked_iff.trans ?_
  cases answer : (ManagedReferences.ofFile files path).run with
  | ok given =>
    constructor
    · rintro ⟨⟩
      exact ⟨.managed answer,rfl⟩
    · rintro ⟨⟨known⟩ | ⟨known⟩,rfl⟩
      · rw [answer] at known
        cases known
        rfl
      · rw [answer] at known
        cases known
  | error failure =>
    constructor
    · intro given
      cases failure
      case notManaged image =>
        cases given
        exact ⟨.native answer,rfl⟩
      all_goals cases given
    · rintro ⟨⟨known⟩ | ⟨known⟩,rfl⟩
      · rw [answer] at known
        cases known
      · rw [answer] at known
        cases known
        rfl

theorem userFolders_cons (folder : Path) (folders : List Path) : (userFolders files (folder :: folders)).run =
    match (files.kind? folder).run,(files.canonical? folder).run with
    | none,_ => (userFolders files folders).run
    | some _,none => .error (.file s!"cannot find {folder}")
    | some _,some path => (userFolders files folders).run.map (path :: ·) := by
  cases known : (files.kind? folder).run with
  | none =>
    simp only [userFolders,FileSystem.isPresent,Id.run_bind,known]
    rfl
  | some kind =>
    simp only [userFolders,FileSystem.isPresent,FileSystem.canonical,Id.run_bind,Id.run_pure,known,
      Option.isSome_some,if_true]
    cases (files.canonical? folder).run <;> rfl

theorem map_cons_eq_ok_iff {answer : Result (List Path)} {paths : List Path} :
    answer.map (path :: ·) = .ok paths ↔ ∃ others, answer = .ok others ∧ path :: others = paths := by
  cases answer <;> simp [Except.map]

theorem userFolders_eq_ok_iff {folders paths : List Path} :
    (userFolders files folders).run = .ok paths ↔ UserFolders files folders paths := by
  induction folders generalizing paths with
  | nil =>
    constructor
    · rintro ⟨⟩
      exact .nil
    · rintro ⟨⟩
      rfl
  | cons folder folders ih =>
    rw [userFolders_cons]
    constructor
    · intro found
      split at found
      · exact .missing ‹_› (ih.mp found)
      · cases found
      · obtain ⟨others,answer,rfl⟩ := map_cons_eq_ok_iff.mp found
        exact .there ‹_› ‹_› (ih.mp answer)
    · rintro (_ | ⟨nothing,others⟩ | ⟨present,absolute,others⟩)
      · rw [nothing]
        exact ih.mpr others
      · rw [present,absolute]
        exact map_cons_eq_ok_iff.mpr ⟨_,ih.mpr others,rfl⟩

theorem gives_queryFor_iff {query : Query} : Gives (queryFor files options path) before query after ↔
    QueryOf files options path query ∧ before = after := by
  unfold queryFor
  constructor
  · intro given
    obtain ⟨plain,_,asked,rest⟩ := gives_bind_iff.mp given
    obtain ⟨surroundings,rfl⟩ := Prod.mk.inj (gives_step_iff.mp asked)
    obtain ⟨folders,_,named,rest⟩ := gives_bind_iff.mp rest
    obtain ⟨found,rfl⟩ := Prod.mk.inj (gives_step_iff.mp named)
    obtain ⟨rfl,rfl⟩ := gives_pure_iff.mp rest
    exact ⟨.extended surroundings (userFolders_eq_ok_iff.mp found),rfl⟩
  · rintro ⟨⟨surroundings,named⟩,rfl⟩
    refine gives_bind_iff.mpr ⟨_,before,gives_step_iff.mpr (congrArg (·,before) surroundings),?_⟩
    have found := userFolders_eq_ok_iff.mpr named
    refine gives_bind_iff.mpr ⟨_,before,gives_step_iff.mpr (congrArg (·,before) found),?_⟩
    exact gives_pure_iff.mpr ⟨rfl,rfl⟩

theorem asked_run {work : Id α} {more : α → StateT Session Id β} :
    (((liftM work : StateT Session Id α) >>= more).run before).run = ((more work.run).run before).run := rfl

theorem graphRun_run {query : Query} {root : RootModule} {more : Graph.Run → StateT Session Id β} :
    ((Graph.build (Session.services files (.ofQuery query)) root query.maxDepth >>= more).run before).run =
      ((more (graphRun files query root before).1).run (graphRun files query root before).2).run := rfl

theorem ofBinary_builds_iff {query : Query} {binary : Binary} {graph : Graph} :
    (∃ chain after, chain.graph = graph ∧ ((Chain.ofBinary files query binary).run before).run = (.ok chain,after)) ↔
      ∃ root, (RootModule.ofBinary files binary query.appFolder (query.system?.map (·.windowsFolder))).run = .ok root ∧
        (graphRun files query root before).1.outcome = .built graph := by
  unfold Chain.ofBinary
  constructor
  · rintro ⟨chain,after,rfl,ran⟩
    replace ran := asked_run.symm.trans ran
    cases context : (RootModule.ofBinary files binary query.appFolder (query.system?.map (·.windowsFolder))).run with
    | error failure =>
      rw [context] at ran
      cases ran
    | ok root =>
      rw [context] at ran
      replace ran := graphRun_run.symm.trans ran
      refine ⟨root,rfl,?_⟩
      cases outcome : (graphRun files query root before).1.outcome with
      | built graph =>
        rw [outcome] at ran
        cases ran
        rfl
      | failed failure =>
        rw [outcome] at ran
        cases ran
      | unfinished =>
        rw [outcome] at ran
        cases ran
  · rintro ⟨root,context,built⟩
    refine ⟨{ search := .ofQuery query, root, graph },(graphRun files query root before).2,rfl,asked_run.trans ?_⟩
    rw [context]
    refine graphRun_run.trans ?_
    rw [built]
    rfl

theorem gives_graphFor_iff {graph : Graph} :
    (∃ after, Gives (graphFor files options file) options.session graph after) ↔ BuildsGraph files options file graph := by
  unfold graphFor
  constructor
  · rintro ⟨after,given⟩
    obtain ⟨binary,loaded,input,rest⟩ := gives_bind_iff.mp given
    obtain ⟨query,_,asked,rest⟩ := gives_bind_iff.mp rest
    obtain ⟨surroundings,rfl⟩ := gives_queryFor_iff.mp asked
    obtain ⟨chain,_,made,rest⟩ := gives_bind_iff.mp rest
    obtain ⟨rfl,rfl⟩ := gives_pure_iff.mp rest
    obtain ⟨root,context,built⟩ := ofBinary_builds_iff.mp ⟨chain,_,rfl,gives_step_iff.mp made⟩
    obtain ⟨ended,depth,whole⟩ := Graph.buildWithin_built_iff.mp built
    exact .built (gives_loadFile_iff.mp input) surroundings context ended whole
  · rintro ⟨input,surroundings,context,ended,whole⟩
    have built := Graph.buildWithin_built_iff.mpr ⟨ended,_,whole⟩
    obtain ⟨chain,after,rfl,made⟩ := ofBinary_builds_iff.mpr ⟨_,context,built⟩
    refine ⟨after,gives_bind_iff.mpr ⟨_,_,gives_loadFile_iff.mpr input,?_⟩⟩
    refine gives_bind_iff.mpr ⟨_,_,gives_queryFor_iff.mpr ⟨surroundings,rfl⟩,?_⟩
    exact gives_bind_iff.mpr ⟨chain,after,gives_step_iff.mpr made,gives_pure_iff.mpr ⟨rfl,rfl⟩⟩

theorem withKnownDlls_eq_ok_iff {settings : Settings} {list : Path} {found : WindowsSystem}
    {system? : Option WindowsSystem} (listed : settings.knownDllList? = some list) :
    (settings.withKnownDlls files (some found)).run = .ok system? ↔
      ∃ known, (KnownDlls.ofFile files list found.systemFolder).run = .ok known ∧
        system? = some { found with knownDlls? := some known } := by
  unfold Settings.withKnownDlls
  rw [listed]
  dsimp only
  rw [Id.run_bind]
  cases (KnownDlls.ofFile files list found.systemFolder).run with
  | error failure =>
    constructor
    · rintro ⟨⟩
    · rintro ⟨_,⟨⟩,_⟩
  | ok known =>
    constructor
    · rintro ⟨⟩
      exact ⟨known,rfl,rfl⟩
    · rintro ⟨_,⟨⟩,rfl⟩
      rfl

/-- The system is the one on the partition, after the list has been read. -/
theorem systemOf_iff {system : WindowsSystem} : SystemOf files options system ↔ ∃ root here system?,
    options.windowsRoot? = some root ∧ (WindowsSystem.ofRoot? files root).run = some here ∧
      (Settings.withKnownDlls files { knownDllList? := options.knownDllList? } (some here)).run = .ok system? ∧
      system?.getD here = system := by
  constructor
  · rintro (@⟨root,_,named,there,unlisted⟩ | @⟨root,_,here,known,named,there,listed,read⟩)
    · refine ⟨root,system,some system,named,there,?_,rfl⟩
      rw [unlisted]
      rfl
    · have listing : Settings.knownDllList? { knownDllList? := options.knownDllList? } = _ := listed
      exact ⟨root,here,_,named,there,(withKnownDlls_eq_ok_iff listing).mpr ⟨known,read,rfl⟩,rfl⟩
  · rintro ⟨root,here,system?,named,there,answer,rfl⟩
    cases listed : options.knownDllList? with
    | none =>
      rw [listed] at answer
      cases answer
      exact .plain named there listed
    | some list =>
      obtain ⟨known,read,rfl⟩ := (withKnownDlls_eq_ok_iff listed).mp answer
      exact .listed named there listed read

theorem gives_systemFor_iff {system : WindowsSystem} : Gives (systemFor files options) before system after ↔
    SystemOf files options system ∧ before = after := by
  rw [systemOf_iff]
  unfold systemFor
  cases named : options.windowsRoot? with
  | none =>
    refine ⟨fun given => absurd given not_gives_complain,?_⟩
    rintro ⟨⟨_,_,_,⟨⟩,_⟩,_⟩
  | some root =>
    refine gives_asked_iff.trans ?_
    cases there : (WindowsSystem.ofRoot? files root).run with
    | none =>
      refine ⟨fun given => absurd given not_gives_complain,?_⟩
      rintro ⟨⟨_,_,_,⟨⟩,found,_⟩,_⟩
      rw [there] at found
      cases found
    | some here =>
      constructor
      · intro given
        obtain ⟨known?,middle,asked,rest⟩ := gives_bind_iff.mp given
        obtain ⟨answer,rfl⟩ := Prod.mk.inj (gives_step_iff.mp asked)
        obtain ⟨same,rfl⟩ := gives_pure_iff.mp rest
        exact ⟨⟨root,here,known?,rfl,there,answer,same⟩,rfl⟩
      · rintro ⟨⟨_,_,known?,⟨⟩,found,answer,same⟩,rfl⟩
        obtain rfl := Option.some.inj (there.symm.trans found)
        refine gives_bind_iff.mpr ⟨known?,before,gives_step_iff.mpr ?_,gives_pure_iff.mpr ⟨same,rfl⟩⟩
        exact congrArg (·,before) answer

section Unique

theorem Gives.unique {attempt : Attempt Id α} {value other : α} {later : Session}
    (given : Gives attempt before value after) (again : Gives attempt before other later) : other = value := by
  unfold Gives at given again
  rw [given] at again
  cases again
  rfl

theorem Loaded.unique {binary other : Binary} {later : Session} (input : Loaded files before file binary after)
    (again : Loaded files before file other later) : other = binary :=
  (gives_loadFile_iff.mpr input).unique (gives_loadFile_iff.mpr again)

theorem QueryOf.unique {query other : Query} (surroundings : QueryOf files options path query)
    (again : QueryOf files options path other) : other = query :=
  (gives_queryFor_iff.mpr ⟨surroundings,rfl⟩).unique (gives_queryFor_iff.mpr ⟨again,@rfl _ options.session⟩)

theorem Located.unique {other : Path} (located : Located files file path) (again : Located files file other) :
    other = path :=
  Except.ok.inj (again.absolute.symm.trans located.absolute)

theorem ManagedPart.unique {references others : ManagedReferences} (read : ManagedPart files path references)
    (again : ManagedPart files path others) : others = references :=
  (gives_readManaged_iff.mpr ⟨read,rfl⟩).unique (gives_readManaged_iff.mpr ⟨again,@rfl _ (Options.session {})⟩)

theorem SystemOf.unique {system other : WindowsSystem} (host : SystemOf files options system)
    (again : SystemOf files options other) : other = system :=
  (gives_systemFor_iff.mpr ⟨host,rfl⟩).unique (gives_systemFor_iff.mpr ⟨again,@rfl _ options.session⟩)

theorem BuildsGraph.unique {graph other : Graph} (whole : BuildsGraph files options file graph)
    (again : BuildsGraph files options file other) : other = graph := by
  obtain ⟨after,given⟩ := gives_graphFor_iff.mpr whole
  obtain ⟨later,same⟩ := gives_graphFor_iff.mpr again
  exact given.unique same

theorem Answers.unique {action : Action} {content other : Content} (answer : Answers files options action content)
    (again : Answers files options action other) : other = content := by
  cases answer with
  | imports input =>
    cases again with
    | imports other => rw [input.unique other]
  | exports input =>
    cases again with
    | exports other => rw [input.unique other]
  | manifest input =>
    cases again with
    | manifest other => rw [input.unique other]
  | sideBySide input surroundings read =>
    cases again with
    | sideBySide other others reread =>
      obtain rfl := input.unique other
      obtain rfl := surroundings.unique others
      rw [Except.ok.inj (reread.symm.trans read)]
  | managedModules located read =>
    cases again with
    | managedModules other reread =>
      obtain rfl := located.unique other
      rw [read.unique reread]
  | assemblies located read =>
    cases again with
    | assemblies other reread =>
      obtain rfl := located.unique other
      rw [read.unique reread]
  | chain whole =>
    cases again with
    | chain other => rw [whole.unique other]
  | modules whole =>
    cases again with
    | modules other => rw [whole.unique other]
  | schema input schema =>
    cases again with
    | schema other found =>
      obtain rfl := input.unique other
      rw [Option.some.inj (found.symm.trans schema)]
  | knownDlls host =>
    cases again with
    | knownDlls other => rw [host.unique other]
  | apiSets host schema =>
    cases again with
    | apiSets other found =>
      obtain rfl := host.unique other
      rw [Option.some.inj (found.symm.trans schema)]

end Unique

end LoadMap.CommandLine
