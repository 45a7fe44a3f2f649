import LoadMap.Proofs.Graph.Document
import LoadMap.Proofs.KnownDlls
import LoadMap.Report

/-! What a report has to hold, told by what it reports and not by how it is made: every part of it stands on its
lines, in order, and in its place in the document. -/
namespace LoadMap.CommandLine

open LoadMap.Graph (NodeId Exported Printed)
open LoadMap.Json (Plain)

/-- What a command tells about. -/
inductive Content
  | imports (binary : Binary)
  | exports (binary : Binary)
  | manifest (binary : Binary)
  | sideBySide (path : Path) (entries : List SideBySide.Entry)
  | managedModules (path : Path) (references : ManagedReferences)
  | assemblies (path : Path) (references : ManagedReferences)
  | chain (graph : Graph)
  | modules (graph : Graph)
  | knownDlls (system : WindowsSystem)
  | apiSets (map : ApiSetMap)

section Parts

/-- A symbol by its declaration, if its name tells one. -/
inductive SymbolShown (symbol : String) : String → Prop
  | plain (bare : Decorated.readable? symbol = none) : SymbolShown symbol symbol
  | declared {text : String} (decorated : Decorated.readable? symbol = some text) : SymbolShown symbol text

def delayMark (delay : Bool) : String := if delay then " (Delay Import)" else ""

inductive FunctionLine (delay : Bool) : ImportedFunction → String → Prop
  | named {name shown : String} {ordinal? : Option Nat} (text : SymbolShown name shown) :
      FunctionLine delay ⟨some name,ordinal?⟩ ("\t Function " ++ shown ++ delayMark delay)
  | numbered (ordinal : Nat) : FunctionLine delay ⟨none,some ordinal⟩ (s!"\t Ordinal_{ordinal}" ++ delayMark delay)
  | unknown : FunctionLine delay ⟨none,none⟩ ("\t ???" ++ delayMark delay)

inductive ImportLines : ImportDescriptor → List String → Prop
  | below {entry : ImportDescriptor} {lines : List String}
      (functions : List.Forall₂ (FunctionLine entry.delay) entry.functions lines) :
      ImportLines entry (s!"Import from module {entry.dll} :" :: lines)

inductive NameShown : Option String → String → Prop
  | nameless : NameShown none ""
  | named {name shown : String} (text : SymbolShown name shown) : NameShown (some name) shown

inductive ExportLines : ExportedSymbol → List String → Prop
  | own {ordinal address : Nat} {name? : Option String} {shown : String} (name : NameShown name? shown) :
      ExportLines ⟨ordinal,name?,address,none⟩
        [s!"Export {ordinal} :","\t Name : " ++ shown,"\t VA : 0x" ++ Text.hexCapital address]
  | forwarded {ordinal address : Nat} {name? : Option String} {shown target : String} (name : NameShown name? shown) :
      ExportLines ⟨ordinal,name?,address,some target⟩
        [s!"Export {ordinal} :","\t Name : " ++ shown,"\t VA : 0x" ++ Text.hexCapital address,
          "\t ForwardedName : " ++ target]

/-- A manifest is shown without the white space at its end; a broken one as it is, and what is wrong with it. -/
inductive ManifestLines (path : Path) : Option ByteArray → List String → Prop
  | none : ManifestLines path none [s!"[x] No embedded pe manifest for file {path}"]
  | read {bytes : ByteArray} {manifest : Manifest} (fine : Manifest.ofBytes bytes = .ok manifest) :
      ManifestLines path (some bytes) [Text.trimEnd (Manifest.textOf bytes)]
  | broken {bytes : ByteArray} {failure : Failure} (refused : Manifest.ofBytes bytes = .error failure) :
      ManifestLines path (some bytes)
        [s!"[x] \"Malformed\" pe manifest for file {path} : {Manifest.textOf bytes}",
          s!"[x] Error : {failure.message}"]

inductive RedirectionLine : SideBySide.Entry → String → Prop
  | found (name : String) (path : Path) : RedirectionLine ⟨name,some path⟩ s!"  [+] {name} : {path}"
  | missing (name : String) : RedirectionLine ⟨name,none⟩ s!"  [x] {name} : ???"

inductive PathsOf : Option KnownDlls → List Path → Prop
  | none : PathsOf none []
  | sorted {known : KnownDlls} {paths : List Path} (all : paths.Perm (known.entries.map (·.2)))
      (sorted : paths.Pairwise (·.compare · ≠ .gt)) : PathsOf (some known) paths

structure Contracts (map : ApiSetMap) (entries : List ApiSet.Entry) : Prop where
  all : entries.Perm map.entries
  sorted : entries.Pairwise (·.name ≤ ·.name)

def contractLine (entry : ApiSet.Entry) : String :=
  let hosts := (entry.hosts.map (·.host)).filter (· ≠ "")
  entry.name ++ " -> [ " ++ ",".intercalate hosts ++ " ]"

/-- All modules of a graph by their strategies, and those of one strategy in the order of their nodes. -/
structure ByStrategy (graph : Graph) (items : List Module) : Prop where
  all : items.Perm (graph.nodes.map (·.toModule))
  sorted : items.Pairwise (·.strategy.rank ≤ ·.strategy.rank)
  stable : ∀ strategy, items.filter (·.strategy = strategy) =
    (graph.nodes.map (·.toModule)).filter (·.strategy = strategy)

def pathText : Option Path → String
  | none => ""
  | some path => path.text

def moduleLine (item : Module) : String := s!"[{item.strategy.label}] {item.name} : " ++ pathText item.path?

def nodeLine (depth : Nat) (item : Module) : String :=
  String.join (List.replicate depth "|  ") ++ "├ " ++ s!"{item.name} ({item.strategy.label}) : " ++
    pathText item.path?

inductive TextIn : Option String → Json → Prop
  | none : TextIn none .null
  | some (text : String) : TextIn (some text) (.string text)

inductive NumberIn : Option Nat → Json → Prop
  | none : NumberIn none .null
  | some (value : Nat) : NumberIn (some value) (.number (toString value))

inductive FunctionIn : ImportedFunction → Json → Prop
  | fields {function : ImportedFunction} {name ordinal : Json} (named : TextIn function.name? name)
      (numbered : NumberIn function.ordinal? ordinal) :
      FunctionIn function (.object [("name",name),("ordinal",ordinal)])

inductive ImportIn : ImportDescriptor → Json → Prop
  | fields {entry : ImportDescriptor} {functions : List Json}
      (each : List.Forall₂ FunctionIn entry.functions functions) :
      ImportIn entry
        (.object [("dll",.string entry.dll),("delay",.bool entry.delay),("functions",.array functions)])

inductive ExportIn : ExportedSymbol → Json → Prop
  | fields {symbol : ExportedSymbol} {name target : Json} (named : TextIn symbol.name? name)
      (forwarded : TextIn symbol.forwardedTo? target) :
      ExportIn symbol (.object [("ordinal",.number (toString symbol.ordinal)),("name",name),
        ("rva",.number (toString symbol.address)),("forwarded_to",target)])

inductive RedirectionIn : SideBySide.Entry → Json → Prop
  | fields {entry : SideBySide.Entry} {path : Json} (told : TextIn (entry.path?.map Path.text) path) :
      RedirectionIn entry (.object [("name",.string entry.name),("path",path)])

inductive AssemblyIn : AssemblyReference → Json → Prop
  | fields {reference : AssemblyReference} :
      AssemblyIn reference (.object [("name",.string reference.name),("version",.string reference.version)])

inductive HostIn : ApiSet.Host → Json → Prop
  | fields {host : ApiSet.Host} {importer : Json} (told : TextIn host.importer? importer) :
      HostIn host (.object [("importer",importer),("host",.string host.host)])

inductive ContractIn : ApiSet.Entry → Json → Prop
  | fields {entry : ApiSet.Entry} {hosts : List Json} (each : List.Forall₂ HostIn entry.hosts hosts) :
      ContractIn entry (.object [("name",.string entry.name),("hosts",.array hosts)])

inductive ModuleIn : Module → Json → Prop
  | fields {item : Module} {path : Json} (told : TextIn (item.path?.map Path.text) path) :
      ModuleIn item (.object [("ModuleName",.string item.name),("Filepath",path),
        ("SearchStrategy",.string item.strategy.label)])

mutual
/-- A tree of nodes in a document: each module with those that stand below it. -/
inductive TreeIn (graph : Graph) : Tree NodeId → Json → Prop
  | fields {id : NodeId} {branches : List (Tree NodeId)} {path : Json} {documents : List Json}
      (told : TextIn ((graph.node id).path?.map Path.text) path) (below : TreesIn graph branches documents) :
      TreeIn graph (.node id branches) (.object [("ModuleName",.string (graph.node id).name),("Filepath",path),
        ("SearchStrategy",.string (graph.node id).strategy.label),("Dependencies",.array documents)])

inductive TreesIn (graph : Graph) : List (Tree NodeId) → List Json → Prop
  | nil : TreesIn graph [] []
  | cons {tree : Tree NodeId} {trees : List (Tree NodeId)} {document : Json} {documents : List Json}
      (first : TreeIn graph tree document) (rest : TreesIn graph trees documents) :
      TreesIn graph (tree :: trees) (document :: documents)
end

end Parts

inductive Content.Text : Content → List String → Prop
  | imports {binary : Binary} {blocks : List (List String)}
      (each : List.Forall₂ ImportLines binary.imports blocks) :
      Text (.imports binary) (s!"[-] Import listing for file : {binary.path}" :: blocks.flatten ++
        ["[-] Import listing done"])
  | exports {binary : Binary} {blocks : List (List String)}
      (each : List.Forall₂ ExportLines binary.exports blocks) :
      Text (.exports binary) (s!"[-] Export listing for file : {binary.path}" :: blocks.flatten ++
        ["[-] Export listing done"])
  | manifest {binary : Binary} {lines : List String} (shown : ManifestLines binary.path binary.manifest? lines) :
      Text (.manifest binary) (s!"[-] Manifest for file : {binary.path}" :: lines)
  | sideBySide {path : Path} {entries : List SideBySide.Entry} {lines : List String}
      (each : List.Forall₂ RedirectionLine entries lines) :
      Text (.sideBySide path entries) (s!"[-] sxs dependencies for executable : {path}" :: lines)
  | managedModules {path : Path} {references : ManagedReferences} :
      Text (.managedModules path references) (s!"[-] Module references listing for file : {path}" ::
        references.modules.map (fun name => s!"Import module {name} :") ++ ["[-] Import listing done"])
  | assemblies {path : Path} {references : ManagedReferences} :
      Text (.assemblies path references) (s!"[-] Assembly references listing for file : {path}" ::
        references.assemblies.map (fun reference => s!"Import assembly {reference.name} ({reference.version}) :") ++
        ["[-] Import listing done"])
  | chain {graph : Graph} {tree : Tree NodeId} (printed : Printed graph tree) :
      Text (.chain graph) ((tree.preorder 0).map fun entry => nodeLine entry.1 (graph.node entry.2).toModule)
  | modules {graph : Graph} {items : List Module} (listed : ByStrategy graph items) :
      Text (.modules graph) (items.map moduleLine)
  | knownDlls {system : WindowsSystem} {wide narrow : List Path} (own : PathsOf system.knownDlls? wide)
      (other : PathsOf system.knownDlls32? narrow) :
      Text (.knownDlls system) (("[-] 64-bit KnownDlls : " :: wide.map (fun path => s!"  {path}") ++ [""]) ++
        ("[-] 32-bit KnownDlls : " :: narrow.map (fun path => s!"  {path}") ++ [""]))
  | apiSets {map : ApiSetMap} {entries : List ApiSet.Entry} (listed : Contracts map entries) :
      Text (.apiSets map) ("[-] Api Sets Map : " :: entries.map contractLine ++ [""])

inductive Content.Document : Content → Json → Prop
  | imports {binary : Binary} {documents : List Json} (each : List.Forall₂ ImportIn binary.imports documents) :
      Document (.imports binary) (.object [("Imports",.array documents)])
  | exports {binary : Binary} {documents : List Json} (each : List.Forall₂ ExportIn binary.exports documents) :
      Document (.exports binary) (.object [("Exports",.array documents)])
  | manifest {binary : Binary} {document : Json} (told : TextIn (binary.manifest?.map Manifest.textOf) document) :
      Document (.manifest binary) (.object [("Manifest",document)])
  | sideBySide {path : Path} {entries : List SideBySide.Entry} {documents : List Json}
      (each : List.Forall₂ RedirectionIn entries documents) :
      Document (.sideBySide path entries) (.object [("Sxs",.array documents)])
  | managedModules {path : Path} {references : ManagedReferences} :
      Document (.managedModules path references)
        (.object [("ModuleReferences",.array (references.modules.map .string))])
  | assemblies {path : Path} {references : ManagedReferences} {documents : List Json}
      (each : List.Forall₂ AssemblyIn references.assemblies documents) :
      Document (.assemblies path references) (.object [("AssemblyReferences",.array documents)])
  | chain {graph : Graph} {tree : Tree NodeId} {document : Json} (exported : Exported graph tree)
      (told : TreeIn graph tree document) :
      Document (.chain graph) (.object [("Root",document),("MaxRecursion",.number (toString graph.maxDepth))])
  | modules {graph : Graph} {items : List Module} {documents : List Json} (listed : ByStrategy graph items)
      (each : List.Forall₂ ModuleIn items documents) : Document (.modules graph) (.array documents)
  | knownDlls {system : WindowsSystem} {wide narrow : List Path} (own : PathsOf system.knownDlls? wide)
      (other : PathsOf system.knownDlls32? narrow) :
      Document (.knownDlls system) (.object [("x64",.array ((wide.map Path.text).map .string)),
        ("x86",.array ((narrow.map Path.text).map .string))])
  | apiSets {map : ApiSetMap} {entries : List ApiSet.Entry} {documents : List Json} (listed : Contracts map entries)
      (each : List.Forall₂ ContractIn entries documents) :
      Document (.apiSets map) (.object [("Schema",.array documents)])

def Content.report : Content → Report
  | imports binary => .imports binary
  | exports binary => .exports binary
  | manifest binary => .manifest binary
  | sideBySide path entries => .sideBySide path entries
  | managedModules path references => .managedModules path references
  | assemblies path references => .assemblies path references
  | chain graph => .chain graph
  | modules graph => .modules graph
  | knownDlls system => .knownDlls system
  | apiSets map => .apiSets map

section Reading

theorem TextIn.plain {text? : Option String} {document : Json} (told : TextIn text? document) : Plain document := by
  cases told with
  | none => exact .null
  | some text => exact .string text

theorem NumberIn.plain {value? : Option Nat} {document : Json} (told : NumberIn value? document) :
    Plain document := by
  cases told with
  | none => exact .null
  | some value => exact .number value

theorem plain_number (value : Nat) : Plain (.number value.repr) := .number value

theorem plain_each {α : Type} {told : α → Json → Prop} {items : List α} {documents : List Json}
    (plain : ∀ {item document}, told item document → Plain document) (each : List.Forall₂ told items documents) :
    ∀ document ∈ documents, Plain document := by
  induction each with
  | nil => exact List.forall_mem_nil _
  | cons first _ rest => exact List.forall_mem_cons.mpr ⟨plain first,rest⟩

theorem FunctionIn.plain {function : ImportedFunction} {document : Json} (told : FunctionIn function document) :
    Plain document := by
  obtain ⟨named,numbered⟩ := told
  exact .object (by simp [named.plain,numbered.plain])

theorem ImportIn.plain {entry : ImportDescriptor} {document : Json} (told : ImportIn entry document) :
    Plain document := by
  obtain ⟨each⟩ := told
  have functions := Plain.array (plain_each FunctionIn.plain each)
  exact .object (by simp [functions,Plain.string,Plain.bool])

theorem ExportIn.plain {symbol : ExportedSymbol} {document : Json} (told : ExportIn symbol document) :
    Plain document := by
  obtain ⟨named,forwarded⟩ := told
  exact .object (by simp [named.plain,forwarded.plain,plain_number])

theorem RedirectionIn.plain {entry : SideBySide.Entry} {document : Json} (told : RedirectionIn entry document) :
    Plain document := by
  obtain ⟨path⟩ := told
  exact .object (by simp [path.plain,Plain.string])

theorem AssemblyIn.plain {reference : AssemblyReference} {document : Json} (told : AssemblyIn reference document) :
    Plain document := by
  obtain ⟨⟩ := told
  exact .object (by simp [Plain.string])

theorem HostIn.plain {host : ApiSet.Host} {document : Json} (told : HostIn host document) : Plain document := by
  obtain ⟨importer⟩ := told
  exact .object (by simp [importer.plain,Plain.string])

theorem ContractIn.plain {entry : ApiSet.Entry} {document : Json} (told : ContractIn entry document) :
    Plain document := by
  obtain ⟨each⟩ := told
  have hosts := Plain.array (plain_each HostIn.plain each)
  exact .object (by simp [hosts,Plain.string])

theorem ModuleIn.plain {item : Module} {document : Json} (told : ModuleIn item document) : Plain document := by
  obtain ⟨path⟩ := told
  exact .object (by simp [path.plain,Plain.string])

mutual
theorem TreeIn.plain {graph : Graph} {tree : Tree NodeId} {document : Json} (told : TreeIn graph tree document) :
    Plain document := by
  obtain ⟨path,below⟩ := told
  have dependencies := Plain.array below.plain
  exact .object (by simp [path.plain,dependencies,Plain.string])

theorem TreesIn.plain {graph : Graph} {trees : List (Tree NodeId)} {documents : List Json}
    (told : TreesIn graph trees documents) : ∀ document ∈ documents, Plain document := by
  match told with
  | .nil => exact List.forall_mem_nil _
  | .cons first rest => exact List.forall_mem_cons.mpr ⟨first.plain,rest.plain⟩
end

theorem plain_texts (texts : List String) : Plain (.array (texts.map .string)) := by
  refine .array fun document listed => ?_
  obtain ⟨text,-,rfl⟩ := List.mem_map.mp listed
  exact .string text

theorem Content.Document.plain {content : Content} {document : Json} (told : content.Document document) :
    Plain document := by
  have single {key : String} {value : Json} (plain : Plain value) : Plain (.object [(key,value)]) :=
    .object (by simp [plain])
  cases told with
  | imports each => exact single (.array (plain_each ImportIn.plain each))
  | exports each => exact single (.array (plain_each ExportIn.plain each))
  | manifest told => exact single told.plain
  | sideBySide each => exact single (.array (plain_each RedirectionIn.plain each))
  | managedModules => exact single (plain_texts _)
  | assemblies each => exact single (.array (plain_each AssemblyIn.plain each))
  | chain exported told => exact .object (by simp [told.plain,plain_number])
  | modules listed each => exact .array (plain_each ModuleIn.plain each)
  | knownDlls own other =>
    refine .object (List.forall_mem_cons.mpr ⟨plain_texts _,List.forall_mem_singleton.mpr ?_⟩)
    exact plain_texts _
  | apiSets listed each => exact single (.array (plain_each ContractIn.plain each))

end Reading

section Lines

end Lines

section Documents

theorem textIn_path (path? : Option Path) :
    TextIn (path?.map Path.text) (Json.ofOption (.string ·.text) path?) := by
  cases path? with
  | none => exact .none
  | some path => exact .some path.text

mutual
theorem treeIn_toJson (graph : Graph) (tree : Tree NodeId) :
    TreeIn graph tree (GraphExport.treeToJson (graph.moduleTree tree)) := by
  obtain ⟨id,branches⟩ := tree
  exact .fields (textIn_path (graph.node id).path?) (treesIn_toJson graph branches)

theorem treesIn_toJson (graph : Graph) (trees : List (Tree NodeId)) : TreesIn graph trees
    (GraphExport.treesToJson (Tree.mapAll (fun id => (graph.node id).toModule) trees)) := by
  match trees with
  | [] => exact .nil
  | tree :: rest => exact .cons (treeIn_toJson graph tree) (treesIn_toJson graph rest)
end

end Documents

section Listings

end Listings

end LoadMap.CommandLine
