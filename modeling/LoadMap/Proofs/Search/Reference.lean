import LoadMap.Proofs.Search.Folder
import LoadMap.Proofs.Search.Redirection
import LoadMap.SearchPath

/-! The order of precedence among the places where a module can be found. A module that the system
knows comes first, then the host of a contract, then a redirected file, then the folders in turn. -/
namespace LoadMap

variable {contents : Contents} {query : Query} {root : RootModule} {name : String}

namespace Query

/-- The tables of the system have one entry for each name. -/
def Keyed (query : Query) : Prop :=
  (∀ known ∈ query.system?.bind (·.knownDlls?), known.Keyed) ∧
    ∀ map ∈ query.system?.bind (·.apiSets?), map.Keyed

/-- The system knows a module, whatever the case of its ASCII letters. -/
def Knows (query : Query) (name : String) (path : Path) : Prop :=
  ∃ known ∈ query.system?.bind (·.knownDlls?), known.Has name path

/-- A name stands for a contract of the system. -/
def Contract (query : Query) (name : String) (entry : ApiSet.Entry) : Prop :=
  ∃ map ∈ query.system?.bind (·.apiSets?), ApiSet.isContractName name ∧
    entry ∈ map.entries ∧ ApiSet.hashedName entry.name = ApiSet.hashedName name

/-- The folders that are searched, in their order. -/
def searched (query : Query) : List Path :=
  match query.system? with
  | none => query.appFolder :: query.workingFolder :: query.userPath
  | some system =>
    query.appFolder ::
      (if system.safeSearch?.getD true then
        [system.systemFolder,system.windowsFolder,query.workingFolder]
      else [query.workingFolder,system.systemFolder,system.windowsFolder]) ++
      system.path?.getD [] ++ query.userPath

end Query

section Built

variable {files : FileSystem Id} {executable folder path : Path} {system : WindowsSystem}

theorem ApiSetMap.keyed_ofFile {map : ApiSetMap} (read : (ofFile files path).run = .ok map) : map.Keyed := by
  unfold ofFile at read
  rw [Id.run_bind] at read
  split at read
  · cases read
  · rename_i content _
    change (ofImage? content).map (·.getD {}) = .ok map at read
    cases parsed : ofImage? content with
    | error failure =>
      rw [parsed] at read
      cases read
    | ok map? =>
      rw [parsed] at read
      cases map? with
      | none =>
        cases read
        exact List.nodup_nil
      | some other =>
        cases read
        exact keyed_ofImage parsed

/-- The tables of a system have one entry for each name. -/
structure WindowsSystem.Keyed (system : WindowsSystem) : Prop where
  knownDlls : ∀ known ∈ system.knownDlls?, known.Keyed
  apiSets : ∀ map ∈ system.apiSets?, map.Keyed

theorem WindowsSystem.keyed_apiSetsIn {map : ApiSetMap} (found : (apiSetsIn? files folder).run = some map) :
    map.Keyed := by
  unfold apiSetsIn? at found
  rw [Id.run_bind] at found
  split at found
  · rw [Id.run_bind] at found
    cases read : (ApiSetMap.ofFile files (folder.join "apisetschema.dll")).run with
    | error failure =>
      rw [read] at found
      cases found
    | ok other =>
      rw [read] at found
      cases found
      exact ApiSetMap.keyed_ofFile read
  · cases found

theorem WindowsSystem.keyed_ofRoot (found : (ofRoot? files folder).run = some system) : system.Keyed := by
  unfold ofRoot? at found
  rw [Id.run_bind] at found
  split at found
  · cases found
    exact ⟨nofun,fun map listed => keyed_apiSetsIn listed⟩
  · cases found

theorem WindowsSystem.keyed_ofExecutable (found : (ofExecutable? files executable).run = some system) :
    system.Keyed := by
  unfold ofExecutable? at found
  split at found
  · cases found
  · rw [Id.run_bind] at found
    split at found
    · cases found
    · exact keyed_ofRoot found

theorem KnownDlls.keyed_ofFile {known : KnownDlls} (read : (ofFile files path folder).run = .ok known) :
    known.Keyed := by
  unfold ofFile at read
  rw [Id.run_bind] at read
  split at read
  · cases read
  · split at read
    · cases read
      exact keyed_ofNames _ _
    · cases read

theorem Settings.keyed_withKnownDlls {settings : Settings} {before? after? : Option WindowsSystem}
    (keyed : ∀ system ∈ before?, system.Keyed)
    (made : (settings.withKnownDlls files before?).run = .ok after?) : ∀ system ∈ after?, system.Keyed := by
  unfold withKnownDlls at made
  split at made
  · rw [Id.run_bind] at made
    split at made
    · cases made
    · rename_i known read
      cases made
      rintro _ ⟨⟩
      refine ⟨?_,(keyed _ rfl).apiSets⟩
      rintro _ ⟨⟩
      exact KnownDlls.keyed_ofFile read
  · cases made
    exact keyed

theorem keyed_of_system (keyed : ∀ system ∈ query.system?, system.Keyed) : query.Keyed := by
  constructor
  · intro known listed
    obtain ⟨system,running,own⟩ := Option.bind_eq_some_iff.mp listed
    exact (keyed system running).knownDlls known own
  · intro map listed
    obtain ⟨system,running,own⟩ := Option.bind_eq_some_iff.mp listed
    exact (keyed system running).apiSets map own

theorem Query.keyed_ofExecutable (deduced : (ofExecutable files executable).run = .ok query) :
    ∀ system ∈ query.system?, system.Keyed := by
  unfold ofExecutable at deduced
  split at deduced
  · cases deduced
  · rw [Id.run_bind] at deduced
    cases deduced
    exact fun system there => WindowsSystem.keyed_ofExecutable there

/-- The system of a query is one that was found on the disk, with the known modules of the list if there is one. -/
theorem Settings.query_system {settings : Settings} (made : (settings.query files executable).run = .ok query) :
    ∃ before? after?, (∀ system ∈ before?, system.Keyed) ∧
      (settings.withKnownDlls files before?).run = .ok after? ∧
      query.system? = after?.map fun system =>
        { system with safeSearch? := settings.safeSearch?.or system.safeSearch? } := by
  unfold Settings.query at made
  rw [Id.run_bind] at made
  split at made
  · cases made
  rename_i deduced found
  dsimp only at made
  split at made
  · rw [Id.run_bind,Id.run_bind] at made
    split at made
    · cases made
    · cases made
      exact ⟨_,_,fun system there => WindowsSystem.keyed_ofRoot there,‹_›,rfl⟩
  · rw [Id.run_bind,Id.run_bind] at made
    split at made
    · cases made
    · cases made
      exact ⟨_,_,Query.keyed_ofExecutable found,‹_›,rfl⟩

/-- Every query that settings give has tables with one entry for each name. -/
theorem Settings.keyed_query {settings : Settings} (made : (settings.query files executable).run = .ok query) :
    query.Keyed := by
  obtain ⟨before?,after?,keyed,known,same⟩ := query_system made
  refine keyed_of_system fun system running => ?_
  rw [same] at running
  obtain ⟨own,listed,rfl⟩ := Option.map_eq_some_iff.mp running
  have tables := keyed_withKnownDlls keyed known own listed
  exact ⟨tables.knownDlls,tables.apiSets⟩

end Built

/-- Where the host of a contract lies: where the system knows it, or else in the system's folder. -/
def HostAt (contents : Contents) (query : Query) (entry : ApiSet.Entry) (path : Path) : Prop :=
  ∃ host, entry.defaultHost? = some host ∧
    (query.Knows host path ∨ (∀ other, ¬ query.Knows host other) ∧
      ∃ system ∈ query.system?, contents.Finds system.systemFolder host (some path))

/-- The first file that is redirected under a name is there. -/
def Redirects (contents : Contents) (root : RootModule) (name : String) (path : Path) : Prop :=
  ∃ entry, root.sideBySide.find? (Text.Ascii.equalIgnoringCase ·.name name) = some entry ∧
    entry.path? = some path ∧ contents.isFile path

/-- How a name is resolved. -/
inductive Precedence (contents : Contents) (query : Query) (root : RootModule) (name : String) :
    Resolution → Prop
  | known {path : Path} (known : query.Knows name path) :
      Precedence contents query root name { strategy := .knownDll, path? := some path }
  | host {entry : ApiSet.Entry} {path : Path} (unknown : ∀ path, ¬ query.Knows name path)
      (contract : query.Contract name entry) (host : HostAt contents query entry path) :
      Precedence contents query root name { strategy := .apiSet, path? := some path }
  | noHost {entry : ApiSet.Entry} (unknown : ∀ path, ¬ query.Knows name path)
      (contract : query.Contract name entry) (none : ∀ path, ¬ HostAt contents query entry path) :
      Precedence contents query root name .notFound
  | redirected {path : Path} (unknown : ∀ path, ¬ query.Knows name path)
      (plain : ∀ entry, ¬ query.Contract name entry) (redirects : Redirects contents root name path) :
      Precedence contents query root name { strategy := .sideBySide, path? := some path }
  | folder {before after : List Path} {folder path : Path} (unknown : ∀ path, ¬ query.Knows name path)
      (plain : ∀ entry, ¬ query.Contract name entry) (own : ∀ path, ¬ Redirects contents root name path)
      (order : query.searched = before ++ folder :: after)
      (missing : ∀ earlier ∈ before, contents.Finds earlier name none)
      (here : contents.Finds folder name (some path)) :
      Precedence contents query root name { strategy := .standardSearch, path? := some path }
  | nowhere (unknown : ∀ path, ¬ query.Knows name path) (plain : ∀ entry, ¬ query.Contract name entry)
      (own : ∀ path, ¬ Redirects contents root name path)
      (missing : ∀ folder ∈ query.searched, contents.Finds folder name none) :
      Precedence contents query root name .notFound

theorem knownDll?_iff (keyed : query.Keyed) {path : Path} :
    (SearchPath.ofQuery query).knownDll? name = some path ↔ query.Knows name path := by
  have same : (SearchPath.ofQuery query).knownDll? name =
      (query.system?.bind (·.knownDlls?)).bind (·.find? name) := rfl
  rw [same,Option.bind_eq_some_iff,Query.Knows]
  constructor
  · rintro ⟨known,listed,found⟩
    exact ⟨known,listed,((keyed.1 known listed).find?_eq_some_iff).mp found⟩
  · rintro ⟨known,listed,has⟩
    exact ⟨known,listed,((keyed.1 known listed).find?_eq_some_iff).mpr has⟩

theorem knownDll?_eq_none (keyed : query.Keyed) (none : (SearchPath.ofQuery query).knownDll? name = none)
    (path : Path) : ¬ query.Knows name path := by
  rw [← knownDll?_iff keyed,none]
  nofun

theorem contract?_iff (keyed : query.Keyed) {system : WindowsSystem} (running : query.system? = some system)
    {entry : ApiSet.Entry} : SearchPath.contract? system name = some entry ↔ query.Contract name entry := by
  have maps : query.system?.bind (·.apiSets?) = system.apiSets? := by rw [running,Option.bind_some]
  rw [SearchPath.contract?,Query.Contract,maps]
  by_cases shape : ApiSet.isContractName name
  · rw [if_pos shape,Option.bind_eq_some_iff]
    refine exists_congr fun map => and_congr_right fun listed => ?_
    rw [(keyed.2 map (maps ▸ listed)).lookup?_eq_some_iff]
    exact (and_iff_right shape).symm
  · rw [if_neg shape]
    constructor
    · nofun
    · rintro ⟨map,-,shaped,-⟩
      exact absurd shaped shape

theorem hostAt_iff {system : WindowsSystem} (running : query.system? = some system) {entry : ApiSet.Entry}
    {host : String} (hosted : entry.defaultHost? = some host) {path : Path} :
    HostAt contents query entry path ↔ query.Knows host path ∨
      (∀ other, ¬ query.Knows host other) ∧ contents.Finds system.systemFolder host (some path) := by
  constructor
  · rintro ⟨other,named,located⟩
    obtain rfl : host = other := Option.some.inj (hosted.symm.trans named)
    rcases located with known | ⟨unknown,again,also,found⟩
    · exact .inl known
    · obtain rfl : system = again := Option.some.inj (running.symm.trans also)
      exact .inr ⟨unknown,found⟩
  · rintro (known | ⟨unknown,found⟩)
    · exact ⟨host,hosted,.inl known⟩
    · exact ⟨host,hosted,.inr ⟨unknown,system,running,found⟩⟩

section Unique

variable {first second : Path}

theorem Query.Knows.unique (keyed : query.Keyed) (left : query.Knows name first)
    (right : query.Knows name second) : first = second := by
  have same := (knownDll?_iff keyed).mpr left
  rw [(knownDll?_iff keyed).mpr right] at same
  exact (Option.some.inj same).symm

theorem Query.Contract.unique (keyed : query.Keyed) {entry other : ApiSet.Entry}
    (left : query.Contract name entry) (right : query.Contract name other) : entry = other := by
  have ⟨map,listed,_⟩ := left
  obtain ⟨system,running,-⟩ := Option.bind_eq_some_iff.mp listed
  have same := (contract?_iff keyed running).mpr left
  rw [(contract?_iff keyed running).mpr right] at same
  exact (Option.some.inj same).symm

/-- No folder holds two files whose names differ in letter case only. -/
def Contents.Apart (contents : Contents) : Prop :=
  ∀ folder name first second, contents.Named folder name first → contents.Named folder name second →
    first = second

theorem Contents.Finds.unique (apart : contents.Apart) {folder : Path} (left : contents.Finds folder name (some first))
    (right : contents.Finds folder name (some second)) : first = second := by
  obtain ⟨file,here,rfl⟩ := left
  obtain ⟨other,there,rfl⟩ := right
  rw [apart folder name file other here there]

theorem HostAt.unique (keyed : query.Keyed) (apart : contents.Apart) {entry : ApiSet.Entry}
    (left : HostAt contents query entry first) (right : HostAt contents query entry second) :
    first = second := by
  obtain ⟨host,named,left⟩ := left
  obtain ⟨other,same,right⟩ := right
  obtain rfl : host = other := Option.some.inj (named.symm.trans same)
  rcases left with here | ⟨absent,system,running,here⟩
  · rcases right with there | ⟨absent,-⟩
    · exact here.unique keyed there
    · exact absurd here (absent _)
  · rcases right with there | ⟨-,again,also,there⟩
    · exact absurd there (absent _)
    · obtain rfl : system = again := Option.some.inj (running.symm.trans also)
      exact here.unique apart there

theorem Redirects.unique (left : Redirects contents root name first) (right : Redirects contents root name second) :
    first = second := by
  obtain ⟨entry,here,leads,-⟩ := left
  obtain ⟨other,there,also,-⟩ := right
  obtain rfl : entry = other := Option.some.inj (here.symm.trans there)
  exact Option.some.inj (leads.symm.trans also)

/-- Of some folders in turn, only one can be the first that holds a name. -/
theorem first_folder_unique {before after others more : List Path} {folder other : Path}
    (order : before ++ folder :: after = others ++ other :: more)
    (missing : ∀ earlier ∈ before, contents.Finds earlier name none)
    (absent : ∀ earlier ∈ others, contents.Finds earlier name none)
    (here : contents.Finds folder name (some first)) (there : contents.Finds other name (some second)) :
    folder = other := by
  obtain ⟨file,named,-⟩ := here
  obtain ⟨spelled,held,-⟩ := there
  -- If one comes later, the other stands among the folders before it, which hold no such name.
  rcases List.append_eq_append_iff.mp order with ⟨middle,rfl,split⟩ | ⟨middle,rfl,split⟩
  · cases middle with
    | nil => exact (List.cons.inj split).1
    | cons next middle =>
      obtain ⟨rfl,-⟩ := List.cons.inj split
      exact absurd named (absent folder (by simp) file)
  · cases middle with
    | nil => exact (List.cons.inj split).1.symm
    | cons next middle =>
      obtain ⟨rfl,-⟩ := List.cons.inj split
      exact absurd held (missing other (by simp) spelled)

theorem Precedence.unique (keyed : query.Keyed) (apart : contents.Apart) {left right : Resolution}
    (here : Precedence contents query root name left) (there : Precedence contents query root name right) :
    left = right := by
  cases here with
  | known known =>
    cases there with
    | known other => rw [known.unique keyed other]
    | host unknown | noHost unknown | redirected unknown | folder unknown | nowhere unknown =>
      exact absurd known (unknown _)
  | host unknown contract host =>
    cases there with
    | known known => exact absurd known (unknown _)
    | host _ other located =>
      obtain rfl := contract.unique keyed other
      rw [host.unique keyed apart located]
    | noHost _ other none =>
      obtain rfl := contract.unique keyed other
      exact absurd host (none _)
    | redirected _ plain | folder _ plain | nowhere _ plain => exact absurd contract (plain _)
  | noHost unknown contract none =>
    cases there with
    | known known => exact absurd known (unknown _)
    | host _ other located =>
      obtain rfl := contract.unique keyed other
      exact absurd located (none _)
    | noHost => rfl
    | redirected _ plain | folder _ plain | nowhere _ plain => exact absurd contract (plain _)
  | redirected unknown plain redirects =>
    cases there with
    | known known => exact absurd known (unknown _)
    | host _ contract | noHost _ contract => exact absurd contract (plain _)
    | redirected _ _ other => rw [redirects.unique other]
    | folder _ _ own | nowhere _ _ own => exact absurd redirects (own _)
  | folder unknown plain own order missing here =>
    cases there with
    | known known => exact absurd known (unknown _)
    | host _ contract | noHost _ contract => exact absurd contract (plain _)
    | redirected _ _ redirects => exact absurd redirects (own _)
    | folder _ _ _ split absent there =>
      obtain rfl := first_folder_unique (order.symm.trans split) missing absent here there
      rw [here.unique apart there]
    | nowhere _ _ _ absent =>
      obtain ⟨file,named,-⟩ := here
      exact absurd named (absent _ (by rw [order]; exact List.mem_append_cons_self) file)
  | nowhere unknown plain own missing =>
    cases there with
    | known known => exact absurd known (unknown _)
    | host _ contract | noHost _ contract => exact absurd contract (plain _)
    | redirected _ _ redirects => exact absurd redirects (own _)
    | folder _ _ _ order _ here =>
      obtain ⟨file,named,-⟩ := here
      exact absurd named (missing _ (by rw [order]; exact List.mem_append_cons_self) file)
    | nowhere => rfl

end Unique

end LoadMap
