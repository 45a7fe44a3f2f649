import LoadMap.Proofs.Graph.Widening
import LoadMap.Proofs.Search.Invisible

/-! Folders that a user adds to a search. They are asked last, so what was found without them is found with
them, and the graph over the longer search has all modules that the shorter one led to. -/
namespace LoadMap

open LoadMap.Graph (buildWithin answerFor)

variable {files : FileSystem Id} {search longer : SearchPath} {root : RootModule} {name : String}

def Query.withFolders (query : Query) (more : List Path) : Query :=
  { query with userPath := query.userPath ++ more }

namespace SearchPath

theorem entries_withFolders (query : Query) (more : List Path) :
    (ofQuery (query.withFolders more)).entries =
      (ofQuery query).entries ++ more.map (.folder .userPath) := by
  have ahead : ownFolders (query.withFolders more) = ownFolders query := rfl
  have behind : pathFolders (query.withFolders more) =
      pathFolders query ++ more.map (.folder .userPath) := by
    rw [pathFolders,pathFolders,List.append_assoc,← List.map_append]
    rfl
  rw [ofQuery,ofQuery,ahead,behind,← List.append_assoc]
  rfl

/-- What an entry says hangs on the system alone, not on the rest of the search. -/
theorem reply_congr (same : longer.query.system? = search.query.system?) (entry : SearchEntry) :
    longer.reply files root name entry = search.reply files root name entry := by
  cases entry with
  | knownDlls => simp only [reply,ask,knownDll?,same]
  | apiSets => simp only [reply,ask,askApiSets,knownDll?,same]
  | sideBySide => rfl
  | folder role folder => rfl

theorem answer?_congr (same : longer.query.system? = search.query.system?) (entries : List SearchEntry) :
    longer.answer? files root name entries = search.answer? files root name entries := by
  induction entries with
  | nil => rfl
  | cons entry entries ih =>
    rw [answer?,answer?,reply_congr same,ih]

theorem answer?_append {entries : List SearchEntry} {found : SearchEntry × Path}
    (first : search.answer? files root name entries = some found) (more : List SearchEntry) :
    search.answer? files root name (entries ++ more) = some found := by
  induction entries with
  | nil => cases first
  | cons entry entries ih =>
    rw [List.cons_append]
    rw [answer?] at first ⊢
    cases said : search.reply files root name entry with
    | found path => rwa [said] at first
    | stop =>
      rw [said] at first
      cases first
    | goOn =>
      rw [said] at first
      exact ih first

theorem resolution_withFolders (query : Query) (more : List Path)
    (found : ((ofQuery query).resolution files root name).strategy ≠ .notFound) :
    (ofQuery (query.withFolders more)).resolution files root name =
      (ofQuery query).resolution files root name := by
  have same : (ofQuery (query.withFolders more)).query.system? = (ofQuery query).query.system? := rfl
  unfold resolution at found ⊢
  cases answered : (ofQuery query).answer? files root name (ofQuery query).entries with
  | none =>
    rw [answered] at found
    exact absurd rfl found
  | some place => rw [entries_withFolders,answer?_congr same,answer?_append answered]

variable {load : Path → Id (Result Binary)} {readManaged : Path → Id (Result ManagedReferences)}

theorem answerFor_afresh :
    answerFor (search.servicesAfresh files load readManaged) root name =
      .ok (if (search.resolution files root name).strategy = .notFound then .notFound
        else search.resolution files root name) := rfl

theorem widens_withFolders (query : Query) (more : List Path) :
    Graph.Widens ((ofQuery query).servicesAfresh files load readManaged)
      ((ofQuery (query.withFolders more)).servicesAfresh files load readManaged) root where
  load := rfl
  readManaged := rfl
  answers name resolution answered known := by
    rw [answerFor_afresh] at answered ⊢
    have found : ((ofQuery query).resolution files root name).strategy ≠ .notFound := by
      intro missing
      rw [if_pos missing] at answered
      cases answered
      exact known rfl
    rwa [resolution_withFolders query more found]

theorem built_afresh (byFolder : files.ByFolder) {steps maxDepth : Nat} {graph : Graph}
    (built : ((buildWithin (search.services files load readManaged) steps root maxDepth).run {}).run.1.outcome =
      .built graph) :
    (buildWithin (search.servicesAfresh files load readManaged) steps root maxDepth).run.outcome =
      .built graph := by
  rw [← build_hides byFolder]
  exact built

/-- More folders at the end of a search only add modules: what a build without a limit found is found again,
under the same name, in the same place and in the same way. -/
theorem build_withFolders (byFolder : files.ByFolder) (query : Query) (more : List Path)
    {steps wider : Nat} {graph larger : Graph}
    (built : ((buildWithin ((ofQuery query).services files load readManaged) steps root 0).run {}).run.1.outcome =
      .built graph)
    (also : ((buildWithin ((ofQuery (query.withFolders more)).services files load readManaged) wider root 0).run
      {}).run.1.outcome = .built larger) :
    ∀ node ∈ graph.nodes, node.strategy ≠ .notFound →
      ∃ other ∈ larger.nodes, other.toModule = node.toModule :=
  fun _ member found => (widens_withFolders query more).nodes (built_afresh byFolder built)
    (built_afresh byFolder also) member found

/-- A tool whose library lies in its own folder, and whose plugin lies elsewhere and has needs of its own. -/
def toolDisk : Disk where
  workingFolder := ["app"]
  entries := [(["app"],.folder),(["app","lib.dll"],.file .empty),(["extra"],.folder),
    (["extra","Plugin.dll"],.file .empty),(["extra","lib.dll"],.file .empty),(["extra","font.dll"],.file .empty)]

def toolQuery : Query where
  system? := none
  executable := ⟨"/app/tool.exe"⟩
  appFolder := ⟨"/app"⟩
  workingFolder := ⟨"/app"⟩

def toolLinks : String → List String
  | "/app/tool.exe" => ["plugin.dll","lib.dll"]
  | "/extra/Plugin.dll" => ["font.dll","lib.dll","gone.dll"]
  | _ => []

def toolRun (query : Query) : Graph.Run :=
  ((buildWithin ((ofQuery query).services toolDisk.fileSystem (Graph.linked (m := Id) toolLinks).load
    fun _ => pure (.ok {})) 12 (.ofPath query.executable []) 0).run {}).run.1

def shownNodes (graph : Graph) : List (String × String × Strategy) :=
  graph.nodes.map fun node => (node.name,node.identity,node.strategy)

def toolNodes : List (String × String × Strategy) :=
  [("tool.exe","/app/tool.exe",.root),("plugin.dll","plugin.dll",.notFound),
    ("lib.dll","/app/lib.dll",.standardSearch)]

def pluginNodes : List (String × String × Strategy) :=
  [("tool.exe","/app/tool.exe",.root),("plugin.dll","/extra/Plugin.dll",.standardSearch),
    ("lib.dll","/app/lib.dll",.standardSearch),("font.dll","/extra/font.dll",.standardSearch),
    ("gone.dll","gone.dll",.notFound)]

theorem build_withFolders_plugin :
    ∃ graph larger, (toolRun toolQuery).outcome = .built graph ∧ shownNodes graph = toolNodes ∧
      (toolRun (toolQuery.withFolders [⟨"/extra"⟩])).outcome = .built larger ∧ shownNodes larger = pluginNodes ∧
      ∀ node ∈ graph.nodes, node.strategy ≠ .notFound →
        ∃ other ∈ larger.nodes, other.toModule = node.toModule := by
  have few : ∃ graph, (toolRun toolQuery).outcome = .built graph ∧ shownNodes graph = toolNodes :=
    ⟨_,rfl,by decide +kernel⟩
  have many : ∃ larger, (toolRun (toolQuery.withFolders [⟨"/extra"⟩])).outcome = .built larger ∧
      shownNodes larger = pluginNodes := ⟨_,rfl,by decide +kernel⟩
  obtain ⟨graph,built,short⟩ := few
  obtain ⟨larger,also,long⟩ := many
  exact ⟨graph,larger,built,short,also,long,
    build_withFolders toolDisk.byFolder toolQuery [⟨"/extra"⟩] built also⟩

end SearchPath
end LoadMap
