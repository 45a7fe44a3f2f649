import LoadMap.Decorated
import LoadMap.Graph.Export
import LoadMap.Json.Printer
import LoadMap.Binary
import LoadMap.Manifest
import LoadMap.WindowsSystem

/-! What is shown to the user: every report has lines to read and a JSON document. -/
namespace LoadMap

structure Report where
  lines : List String
  document : Json

namespace Report

def text (lines : List String) : String := String.join (lines.map (· ++ "\n"))

def render (report : Report) (asJson : Bool) : String :=
  if asJson then Json.pretty report.document ++ "\n" else text report.lines

def ofText (text? : Option String) : Json := Json.ofOption .string text?

def ofPath? (path? : Option Path) : Json := ofText (path?.map Path.text)

def ofTexts (texts : List String) : Json := .array (texts.map .string)

def readable (symbol : String) : String := (Decorated.readable? symbol).getD symbol

def functionLine (delay : Bool) (function : ImportedFunction) : String :=
  let what := match function.name?, function.ordinal? with
    | some name, _ => "Function " ++ readable name
    | none, some ordinal => s!"Ordinal_{ordinal}"
    | none, none => "???"
  "\t " ++ what ++ (if delay then " (Delay Import)" else "")

def importLines (entry : ImportDescriptor) : List String :=
  s!"Import from module {entry.dll} :" :: entry.functions.map (functionLine entry.delay)

def functionDocument (function : ImportedFunction) : Json :=
  .object [
    ("name",ofText function.name?),
    ("ordinal",Json.ofOption .ofNat function.ordinal?)]

def importDocument (entry : ImportDescriptor) : Json :=
  .object [
    ("dll",.string entry.dll),
    ("delay",.bool entry.delay),
    ("functions",.array (entry.functions.map functionDocument))]

def imports (binary : Binary) : Report where
  lines :=
    s!"[-] Import listing for file : {binary.path}" :: binary.imports.flatMap importLines ++
      ["[-] Import listing done"]
  document := .object [("Imports",.array (binary.imports.map importDocument))]

def exportLines (symbol : ExportedSymbol) : List String :=
  [s!"Export {symbol.ordinal} :",
    "\t Name : " ++ (symbol.name?.map readable).getD "",
    "\t VA : 0x" ++ Text.hexCapital symbol.address] ++
    (symbol.forwardedTo?.map ("\t ForwardedName : " ++ ·)).toList

def exportDocument (symbol : ExportedSymbol) : Json :=
  .object [
    ("ordinal",.ofNat symbol.ordinal),
    ("name",ofText symbol.name?),
    ("rva",.ofNat symbol.address),
    ("forwarded_to",ofText symbol.forwardedTo?)]

def exports (binary : Binary) : Report where
  lines :=
    s!"[-] Export listing for file : {binary.path}" :: binary.exports.flatMap exportLines ++
      ["[-] Export listing done"]
  document := .object [("Exports",.array (binary.exports.map exportDocument))]

/-- A manifest that cannot be read is shown all the same, with what is wrong with it. -/
def manifestLines (path : Path) (content : ByteArray) : List String :=
  let text := Manifest.textOf content
  match Manifest.ofBytes content with
  | .ok _ => [Text.trimEnd text]
  | .error failure => [
      s!"[x] \"Malformed\" pe manifest for file {path} : {text}",
      s!"[x] Error : {failure.message}"]

def manifest (binary : Binary) : Report where
  lines :=
    s!"[-] Manifest for file : {binary.path}" :: match binary.manifest? with
      | some content => manifestLines binary.path content
      | none => [s!"[x] No embedded pe manifest for file {binary.path}"]
  document := .object [("Manifest",ofText (binary.manifest?.map Manifest.textOf))]

def sideBySideLine (entry : SideBySide.Entry) : String :=
  match entry.path? with
  | some path => s!"  [+] {entry.name} : {path}"
  | none => s!"  [x] {entry.name} : ???"

def sideBySideDocument (entry : SideBySide.Entry) : Json :=
  .object [("name",.string entry.name),("path",ofPath? entry.path?)]

def sideBySide (path : Path) (entries : List SideBySide.Entry) : Report where
  lines := s!"[-] sxs dependencies for executable : {path}" :: entries.map sideBySideLine
  document := .object [("Sxs",.array (entries.map sideBySideDocument))]

def managedModules (path : Path) (references : ManagedReferences) : Report where
  lines :=
    s!"[-] Module references listing for file : {path}" ::
      references.modules.map (fun name => s!"Import module {name} :") ++
      ["[-] Import listing done"]
  document := .object [("ModuleReferences",ofTexts references.modules)]

def assemblyDocument (reference : AssemblyReference) : Json :=
  .object [("name",.string reference.name),("version",.string reference.version)]

def assemblies (path : Path) (references : ManagedReferences) : Report where
  lines :=
    s!"[-] Assembly references listing for file : {path}" ::
      references.assemblies.map
        (fun reference => s!"Import assembly {reference.name} ({reference.version}) :") ++
      ["[-] Import listing done"]
  document := .object [
    ("AssemblyReferences",.array (references.assemblies.map assemblyDocument))]

def knownLines (title : String) (paths : List Path) : List String :=
  s!"[-] {title} KnownDlls : " :: paths.map (fun path => s!"  {path}") ++ [""]

def knownDlls (system : WindowsSystem) : Report :=
  let paths (known? : Option KnownDlls) := (known?.map KnownDlls.paths).getD []
  let wide := paths system.knownDlls?
  let narrow := paths system.knownDlls32?
  { lines := knownLines "64-bit" wide ++ knownLines "32-bit" narrow
    document := .object [
      ("x64",ofTexts (wide.map Path.text)),
      ("x86",ofTexts (narrow.map Path.text))] }

def contractLine (entry : ApiSet.Entry) : String :=
  let hosts := (entry.hosts.map (·.host)).filter (· ≠ "")
  s!"{entry.name} -> [ " ++ ",".intercalate hosts ++ " ]"

def hostDocument (host : ApiSet.Host) : Json :=
  .object [("importer",ofText host.importer?),("host",.string host.host)]

def contractDocument (entry : ApiSet.Entry) : Json :=
  .object [("name",.string entry.name),("hosts",.array (entry.hosts.map hostDocument))]

def apiSets (map : ApiSetMap) : Report where
  lines := "[-] Api Sets Map : " :: map.sorted.map contractLine ++ [""]
  document := .object [("Schema",.array (map.sorted.map contractDocument))]

def chain (graph : Graph) : Report where
  lines := graph.print.2
  document := graph.exportTree.2.toJson

def moduleLine (item : Module) : String :=
  s!"[{item.strategy.label}] {item.name} : " ++ (item.path?.map Path.text).getD ""

def modules (graph : Graph) : Report where
  lines := graph.modules.map moduleLine
  document := .array (graph.modules.map fun item => .object item.fields)

end Report
end LoadMap
