import LoadMap.Image.Fault

/-! Why a question could not be answered. A failure that surfaced while modules were being
processed carries the modules it passed through, the innermost first. -/
namespace LoadMap

inductive SchemaFault
  | stringOutOfBounds (offset : Nat)
  | unsupportedVersion (version : Nat)
  | described (text : String)
  deriving DecidableEq, Repr

def SchemaFault.message : SchemaFault → String
  | .stringOutOfBounds offset => s!"string out of bounds at offset {Text.hexAddress offset}"
  | .unsupportedVersion version => s!"unsupported API set schema version {version}"
  | .described text => text

inductive Failure
  | context (text : String)
  | scan (text : String)
  | parse (text : String)
  | malformedImage (fault : Image.Fault)
  | notManaged (image : String)
  | schema (fault : SchemaFault)
  | inModules (trail : List String) (source : Failure)
  | file (text : String)
  | tables (text : String)
  | headers (text : String)
  | xml (text : String)
  | json (text : String)
  deriving DecidableEq, Repr, Inhabited

namespace Failure

def message : Failure → String
  | .context text => s!"Lookup context building error: {text}"
  | .scan text => s!"Scan error: {text}"
  | .parse text => s!"Parse error: {text}"
  | .malformedImage fault => s!"Malformed PE image: {fault.message}"
  | .notManaged image => s!"Not a managed (.NET) image: {image}"
  | .schema fault => s!"API set schema error: {fault.message}"
  | .inModules trail _ =>
    "failure while processing \"" ++ trail.head?.getD "<unknown>" ++ "\""
  | .file text => text
  | .tables text => text
  | .headers text => text
  | .xml text => text
  | .json text => text

/-- Note that the failure surfaced while `module` was being processed. -/
def inModule (failure : Failure) (identity : String) : Failure :=
  match failure with
  | .inModules trail source => .inModules (trail ++ [identity]) source
  | other => .inModules [identity] other

def trail : Failure → List String
  | .inModules trail _ => trail
  | _ => []

def rootCause : Failure → Failure
  | .inModules _ source => source.rootCause
  | other => other

end Failure

abbrev Result := Except Failure

def Result.ofFault {α : Type} : Except Image.Fault α → Result α
  | .ok value => .ok value
  | .error fault => .error (.malformedImage fault)

end LoadMap
