import LoadMap.Proofs.Search.Reference

/-! The search, entry by entry: what each of them says to a name, what comes of asking them in turn, and
that this is the order of precedence. -/
namespace LoadMap

open FolderCache (Gives gives_pure gives_lift)
open SearchPath (Reply)

variable {σ : Type} {contents : Contents} {files : FileSystem (StateM σ)} {query : Query}
  {root : RootModule} {name : String}

/-- What an entry may say to a name. -/
def Tells (contents : Contents) (query : Query) (root : RootModule) (name : String) :
    SearchEntry → Reply → Prop
  | .knownDlls, .found path => query.Knows name path
  | .knownDlls, .goOn => ∀ path, ¬ query.Knows name path
  | .apiSets, .found path => ∃ entry, query.Contract name entry ∧ HostAt contents query entry path
  | .apiSets, .stop => ∃ entry, query.Contract name entry ∧ ∀ path, ¬ HostAt contents query entry path
  | .apiSets, .goOn => ∀ entry, ¬ query.Contract name entry
  | .sideBySide, .found path => Redirects contents root name path
  | .sideBySide, .goOn => ∀ path, ¬ Redirects contents root name path
  | .folder _ folder, .found path => contents.Finds folder name (some path)
  | .folder _ folder, .goOn => contents.Finds folder name none
  | _, .stop => False

theorem askApiSets_gives (keyed : query.Keyed) (steady : files.Steady contents) (name : String) :
    Gives contents.shown ((SearchPath.ofQuery query).askApiSets files name)
      (Tells contents query root name .apiSets) := by
  rw [SearchPath.askApiSets]
  have given : (SearchPath.ofQuery query).query = query := rfl
  rw [given]
  cases running : query.system? with
  | none =>
    apply gives_pure
    rintro entry ⟨map,listed,-⟩
    rw [running] at listed
    cases listed
  | some system =>
    dsimp only
    cases standing : SearchPath.contract? system name with
    | none =>
      apply gives_pure
      intro entry contract
      rw [(contract?_iff keyed running).mpr contract] at standing
      cases standing
    | some entry =>
      have contract := (contract?_iff keyed running).mp standing
      dsimp only
      cases hosted : entry.defaultHost? with
      | none =>
        apply gives_pure
        refine ⟨entry,contract,?_⟩
        rintro path ⟨host,named,-⟩
        rw [hosted] at named
        cases named
      | some host =>
        have located (path : Path) : HostAt contents query entry path ↔ _ := hostAt_iff running hosted
        dsimp only
        cases known : (SearchPath.ofQuery query).knownDll? host with
        | some path => exact gives_pure ⟨entry,contract,(located _).mpr (.inl ((knownDll?_iff keyed).mp known))⟩
        | none =>
          have unknown := knownDll?_eq_none keyed known
          apply (steady.finds system.systemFolder host).bind
          intro path? found
          cases path? with
          | some path => exact gives_pure ⟨entry,contract,(located _).mpr (.inr ⟨unknown,found⟩)⟩
          | none =>
            apply gives_pure
            refine ⟨entry,contract,fun path lies => ?_⟩
            rcases (located _).mp lies with listed | ⟨-,file,held,-⟩
            · exact unknown path listed
            · exact found file held

theorem askSideBySide_gives (steady : files.Steady contents) (root : RootModule) (name : String) (state : σ) :
    Tells contents query root name .sideBySide ((SearchPath.askSideBySide files root name).run state).1 := by
  have same : SideBySide.find? root.sideBySide name =
      root.sideBySide.find? (Text.Ascii.equalIgnoringCase ·.name name) := rfl
  rw [SearchPath.askSideBySide,same]
  cases redirected : (root.sideBySide.find? (Text.Ascii.equalIgnoringCase ·.name name)).bind (·.path?) with
  | none =>
    rintro path ⟨entry,first,leads,-⟩
    rw [first,Option.bind_some,leads] at redirected
    cases redirected
  | some path =>
    obtain ⟨entry,first,leads⟩ := Option.bind_eq_some_iff.mp redirected
    change Tells contents query root name .sideBySide
      ((if ((files.isFile path).run state).1 = true then pure (Reply.found path) else pure Reply.goOn :
        StateM σ Reply).run ((files.isFile path).run state).2).1
    by_cases there : contents.isFile path
    · rw [if_pos ((steady.isFile_iff path state).mpr there)]
      exact ⟨entry,first,leads,there⟩
    · rw [if_neg (mt (steady.isFile_iff path state).mp there)]
      rintro other ⟨same,found,spelled,regular⟩
      rw [first] at found
      cases found
      rw [leads] at spelled
      cases spelled
      exact there regular

theorem ask_gives (keyed : query.Keyed) (steady : files.Steady contents) (entry : SearchEntry) :
    Gives contents.shown ((SearchPath.ofQuery query).ask files root name entry)
      (Tells contents query root name entry) := by
  cases entry with
  | knownDlls =>
    apply gives_pure
    cases known : (SearchPath.ofQuery query).knownDll? name with
    | some path => exact (knownDll?_iff keyed).mp known
    | none => exact knownDll?_eq_none keyed known
  | apiSets => exact askApiSets_gives keyed steady name
  | sideBySide => exact gives_lift (askSideBySide_gives steady root name)
  | folder role folder =>
    apply (steady.finds folder name).bind
    intro path? found
    apply gives_pure
    cases path? with
    | some path => exact found
    | none => exact found

/-- What comes of asking some entries in turn, by what each of them says. -/
inductive Ends (tells : SearchEntry → Reply → Prop) : List SearchEntry → Option (SearchEntry × Path) → Prop
  | nil : Ends tells [] none
  | found {entry : SearchEntry} {rest : List SearchEntry} {path : Path} (here : tells entry (.found path)) :
      Ends tells (entry :: rest) (some (entry,path))
  | stop {entry : SearchEntry} {rest : List SearchEntry} (here : tells entry .stop) :
      Ends tells (entry :: rest) none
  | goOn {entry : SearchEntry} {rest : List SearchEntry} {answer : Option (SearchEntry × Path)}
      (here : tells entry .goOn) (later : Ends tells rest answer) : Ends tells (entry :: rest) answer

theorem askInTurn_gives (keyed : query.Keyed) (steady : files.Steady contents) (entries : List SearchEntry) :
    Gives contents.shown ((SearchPath.ofQuery query).askInTurn files root name entries)
      (Ends (Tells contents query root name) entries) := by
  induction entries with
  | nil => exact gives_pure .nil
  | cons entry rest ih =>
    apply (ask_gives keyed steady entry).bind
    intro reply said
    cases reply with
    | found path => exact gives_pure (.found said)
    | stop => exact gives_pure (.stop said)
    | goOn => exact ih.mono fun answer later => .goOn said later

section Order

variable {rest : List SearchEntry} {answer : Option (SearchEntry × Path)}

/-- The folders of a search, each with what it is for. -/
def placesOf (query : Query) : List (FolderRole × Path) :=
  let own : List (FolderRole × Path) := match query.system? with
    | none => [(.working,query.workingFolder)]
    | some system =>
      if system.safeSearch?.getD true then
        [(.system,system.systemFolder),(.windows,system.windowsFolder),(.working,query.workingFolder)]
      else [(.working,query.workingFolder),(.system,system.systemFolder),(.windows,system.windowsFolder)]
  (.application,query.appFolder) :: own ++
    ((query.system?.bind (·.path?)).getD []).map (.systemPath,·) ++ query.userPath.map (.userPath,·)

theorem placesOf_paths (query : Query) : (placesOf query).map Prod.snd = query.searched := by
  rw [placesOf,Query.searched]
  cases query.system? with
  | none => simp [Function.comp_def]
  | some system =>
    by_cases safe : system.safeSearch?.getD true
    · simp [safe,Function.comp_def]
    · simp [safe,Function.comp_def]

theorem entries_ofQuery (query : Query) :
    (SearchPath.ofQuery query).entries = SearchPath.redirections query.system? ++
      (placesOf query).map fun place => .folder place.1 place.2 := by
  rw [SearchPath.ofQuery,SearchPath.ownFolders,SearchPath.pathFolders,placesOf]
  cases query.system? with
  | none => simp [Function.comp_def]
  | some system =>
    by_cases safe : system.safeSearch?.getD true
    · simp [safe,Function.comp_def]
    · simp [safe,Function.comp_def]

theorem ends_known (ends : Ends (Tells contents query root name)
      ((if (query.system?.bind (·.knownDlls?)).isSome then [.knownDlls] else []) ++ rest) answer) :
    (∃ path, query.Knows name path ∧ answer = some (.knownDlls,path)) ∨
      (∀ path, ¬ query.Knows name path) ∧ Ends (Tells contents query root name) rest answer := by
  split at ends
  · rw [List.singleton_append] at ends
    cases ends with
    | found here => exact .inl ⟨_,here,rfl⟩
    | goOn here later => exact .inr ⟨here,later⟩
    | stop here => cases here
  · rename_i absent
    refine .inr ⟨?_,ends⟩
    rintro path ⟨known,listed,-⟩
    rw [Option.mem_def.mp listed] at absent
    exact absent rfl

theorem ends_contracts (ends : Ends (Tells contents query root name)
      ((if (query.system?.bind (·.apiSets?)).isSome then [.apiSets] else []) ++ rest) answer) :
    (∃ entry, query.Contract name entry ∧
      ((∃ path, HostAt contents query entry path ∧ answer = some (.apiSets,path)) ∨
        (∀ path, ¬ HostAt contents query entry path) ∧ answer = none)) ∨
      (∀ entry, ¬ query.Contract name entry) ∧ Ends (Tells contents query root name) rest answer := by
  split at ends
  · rw [List.singleton_append] at ends
    cases ends with
    | found here =>
      obtain ⟨entry,contract,host⟩ := here
      exact .inl ⟨entry,contract,.inl ⟨_,host,rfl⟩⟩
    | stop here =>
      obtain ⟨entry,contract,none⟩ := here
      exact .inl ⟨entry,contract,.inr ⟨none,rfl⟩⟩
    | goOn here later => exact .inr ⟨here,later⟩
  · rename_i absent
    refine .inr ⟨?_,ends⟩
    rintro entry ⟨map,listed,-⟩
    rw [Option.mem_def.mp listed] at absent
    exact absent rfl

theorem ends_redirected (ends : Ends (Tells contents query root name) (.sideBySide :: rest) answer) :
    (∃ path, Redirects contents root name path ∧ answer = some (.sideBySide,path)) ∨
      (∀ path, ¬ Redirects contents root name path) ∧ Ends (Tells contents query root name) rest answer := by
  cases ends with
  | found here => exact .inl ⟨_,here,rfl⟩
  | goOn here later => exact .inr ⟨here,later⟩
  | stop here => cases here

theorem ends_folders {places : List (FolderRole × Path)} (ends : Ends (Tells contents query root name)
      (places.map fun place => .folder place.1 place.2) answer) :
    (∃ before after role folder path, places.map Prod.snd = before ++ folder :: after ∧
      (∀ earlier ∈ before, contents.Finds earlier name none) ∧
      contents.Finds folder name (some path) ∧ answer = some (.folder role folder,path)) ∨
    (∀ folder ∈ places.map Prod.snd, contents.Finds folder name none) ∧ answer = none := by
  induction places with
  | nil =>
    cases ends
    exact .inr ⟨by simp,rfl⟩
  | cons place places ih =>
    cases ends with
    | found here => exact .inl ⟨[],_,place.1,place.2,_,rfl,by simp,here,rfl⟩
    | stop here => cases here
    | goOn here later =>
      rcases ih later with ⟨before,after,role,folder,path,order,missing,found,same⟩ | ⟨missing,same⟩
      · refine .inl ⟨place.2 :: before,after,role,folder,path,?_,?_,found,same⟩
        · rw [List.map_cons,order,List.cons_append]
        · rw [List.forall_mem_cons]
          exact ⟨here,missing⟩
      · refine .inr ⟨?_,same⟩
        rw [List.map_cons,List.forall_mem_cons]
        exact ⟨here,missing⟩

end Order

theorem precedence_of_ends {answer : Option (SearchEntry × Path)}
    (ends : Ends (Tells contents query root name) (SearchPath.ofQuery query).entries answer) :
    Precedence contents query root name (match answer with
      | some (entry,path) => .found entry.strategy path
      | none => .notFound) := by
  rw [entries_ofQuery,SearchPath.redirections,List.append_assoc,List.append_assoc] at ends
  rcases ends_known ends with ⟨path,known,rfl⟩ | ⟨unknown,ends⟩
  · exact .known known
  rcases ends_contracts ends with ⟨entry,contract,⟨path,host,rfl⟩ | ⟨none,rfl⟩⟩ | ⟨plain,ends⟩
  · exact .host unknown contract host
  · exact .noHost unknown contract none
  rcases ends_redirected ends with ⟨path,redirects,rfl⟩ | ⟨own,ends⟩
  · exact .redirected unknown plain redirects
  rcases ends_folders ends with ⟨before,after,role,folder,path,order,missing,found,rfl⟩ | ⟨missing,rfl⟩
  · rw [placesOf_paths] at order
    exact .folder unknown plain own order missing found
  · rw [placesOf_paths] at missing
    exact .nowhere unknown plain own missing

theorem resolve_gives (keyed : query.Keyed) (steady : files.Steady contents) (root : RootModule) (name : String) :
    Gives contents.shown ((SearchPath.ofQuery query).resolve files root name)
      (Precedence contents query root name) := by
  apply (askInTurn_gives keyed steady _).bind
  intro answer ends
  have precedence := precedence_of_ends ends
  cases answer with
  | none => exact gives_pure precedence
  | some found => exact gives_pure precedence

/-- Whatever is asked of a search, in turn and with its cache, is answered in the order of precedence.
There is one such answer, unless a folder holds two files whose names differ in letter case only. -/
theorem resolve_precedence (keyed : query.Keyed) (steady : files.Steady contents)
    (requests : List (RootModule × String)) (state : σ) :
    List.Forall₂ (fun request => Precedence contents query request.1 request.2) requests
      (((requests.mapM fun request =>
        (SearchPath.ofQuery query).resolve files request.1 request.2).run {}).run state).1.1 ∧
    (contents.Apart → ∀ root name left right, Precedence contents query root name left →
      Precedence contents query root name right → left = right) := by
  have gives : Gives contents.shown
      (requests.mapM fun request => (SearchPath.ofQuery query).resolve files request.1 request.2)
      (List.Forall₂ (fun request => Precedence contents query request.1 request.2) requests) :=
    FolderCache.gives_mapM fun request => resolve_gives keyed steady request.1 request.2
  constructor
  · exact (gives {} FolderCache.agrees_empty state).1
  · intro apart root name left right here there
    exact here.unique keyed apart there

/-- An application with a library of its own, on a system with one known module and one contract. -/
def office : Query where
  system? := some {
    knownDlls? := some (.ofNames ["kernel32.dll"] ⟨"/win/sys"⟩)
    apiSets? := some (.ofEntries [{ name := "api-ms-core-l1-1-0", hosts := [⟨none,"Host.dll"⟩] }])
    windowsFolder := ⟨"/win"⟩
    systemFolder := ⟨"/win/sys"⟩ }
  executable := ⟨"/app/office.exe"⟩
  appFolder := ⟨"/app"⟩
  workingFolder := ⟨"/app"⟩

def officeDisk : Disk where
  workingFolder := ["app"]
  entries := [(["app"],.folder),(["win"],.folder),(["win","sys"],.folder),
    (["app","Lib.dll"],.file .empty),(["win","sys","lib.dll"],.file .empty),
    (["win","sys","host.dll"],.file .empty)]

theorem office_keyed : office.Keyed := by
  constructor
  · intro known listed
    cases listed
    exact KnownDlls.keyed_ofNames _ _
  · intro map listed
    cases listed
    exact ApiSetMap.keyed_ofEntries _

theorem office_names {location : Disk.Location} {file : String}
    (member : (file,.file) ∈ officeDisk.namesAt location) :
    location = ["app"] ∧ file = "Lib.dll" ∨
      location = ["win","sys"] ∧ (file = "lib.dll" ∨ file = "host.dll") := by
  obtain ⟨entry,listed,regular⟩ := Disk.mem_namesAt.mp member
  simp only [officeDisk,List.mem_cons,List.not_mem_nil,or_false,Prod.mk.injEq] at listed
  have split (folder : Disk.Location) (name : String) :
      location ++ [file] = folder ++ [name] ↔ location = folder ∧ file = name := by simp
  rcases listed with ⟨-,rfl⟩ | ⟨-,rfl⟩ | ⟨-,rfl⟩ | ⟨place,-⟩ | ⟨place,-⟩ | ⟨place,-⟩
  · cases regular
  · cases regular
  · cases regular
  · exact .inl ((split ["app"] _).mp place)
  · exact .inr (((split ["win","sys"] _).mp place).imp_right .inl)
  · exact .inr (((split ["win","sys"] _).mp place).imp_right .inr)

theorem office_apart : officeDisk.holdings.Apart := by
  rintro folder name first second ⟨⟨here,left,held⟩,same⟩ ⟨⟨there,right,kept⟩,also⟩
  rw [Disk.names?_congr (right.trans left.symm)] at kept
  rw [Disk.names?] at held kept
  cases located : officeDisk.locate? here with
  | none =>
    rw [located] at held
    cases held
  | some location =>
    rw [located] at held kept
    dsimp only at held kept
    by_cases listed : officeDisk.isFolderAt location
    · rw [if_pos listed] at held kept
      have alike := same.trans also.symm
      have different : Text.lowercase "lib.dll" ≠ Text.lowercase "host.dll" := by decide +kernel
      have names := office_names held
      have others := office_names kept
      grind
    · rw [if_neg listed] at held
      cases held

theorem resolve_precedence_office :
    office.Keyed ∧ officeDisk.restless.Steady officeDisk.holdings ∧ officeDisk.holdings.Apart ∧
    (∀ root name left right, Precedence officeDisk.holdings office root name left →
      Precedence officeDisk.holdings office root name right → left = right) ∧
    ∃ answers, List.Forall₂ (fun request => Precedence officeDisk.holdings office request.1 request.2)
      (["KERNEL32.dll","API-ms-core-l1-1-7.dll","LIB.DLL","other.dll"].map fun name =>
        (.ofPath ⟨"/app/office.exe"⟩ [],name)) answers ∧
      answers.map (fun answer => (answer.strategy,answer.path?.map Path.text)) =
        [(.knownDll,some "/win/sys/kernel32.dll"),(.apiSet,some "/win/sys/host.dll"),
          (.standardSearch,some "/app/Lib.dll"),(.notFound,none)] := by
  have steady := officeDisk.restless_steady
  obtain ⟨answered,unique⟩ := resolve_precedence office_keyed steady
    (["KERNEL32.dll","API-ms-core-l1-1-7.dll","LIB.DLL","other.dll"].map fun name =>
      (.ofPath ⟨"/app/office.exe"⟩ [],name)) 0
  exact ⟨office_keyed,steady,office_apart,unique office_apart,_,answered,by decide +kernel⟩

end LoadMap
