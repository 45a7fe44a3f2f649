import LoadMap.Failure
import LoadMap.Text.Blank
import LoadMap.Text.Utf8
import LoadMap.Xml.Element

/-! Manifests: what an application or an assembly says about itself, the files it brings along and
the assemblies it needs. Element names count without their name space. -/
namespace LoadMap

structure AssemblyIdentity where
  name : String
  version? : Option String := none
  architecture? : Option String := none
  publicKeyToken? : Option String := none
  language? : Option String := none
  deriving DecidableEq, Repr, Inhabited

structure Manifest where
  identity? : Option AssemblyIdentity := none
  files : List String := []
  dependentAssemblies : List AssemblyIdentity := []
  deriving DecidableEq, Repr, Inhabited

def AssemblyIdentity.ofElement? (element : Xml.Element) : Option AssemblyIdentity :=
  (element.attribute? "name").map fun name => {
    name
    version? := element.attribute? "version"
    architecture? := element.attribute? "processorArchitecture"
    publicKeyToken? := element.attribute? "publicKeyToken"
    language? := element.attribute? "language" }

namespace Manifest

/-- The identity stated by a child of the element; only the first such child counts. -/
def identityIn? (element : Xml.Element) : Option AssemblyIdentity :=
  (element.child? "assemblyIdentity").bind AssemblyIdentity.ofElement?

/-- Files are children of the root; dependencies may stand at any depth. -/
def ofElement (root : Xml.Element) : Manifest where
  identity? := identityIn? root
  files := (root.children.filter (·.name = "file")).filterMap (·.attribute? "name")
  dependentAssemblies := (root.all.filter (·.name = "dependentAssembly")).filterMap identityIn?

def textOf (bytes : ByteArray) : String :=
  match bytes.toList with
  | 0xEF :: 0xBB :: 0xBF :: rest => Text.Utf8.decodeLossy rest
  | all => Text.Utf8.decodeLossy all

def ofBytes (bytes : ByteArray) : Result Manifest :=
  match Xml.document? (Text.trimStart (textOf bytes)) with
  | some root => .ok (ofElement root)
  | none => .error (.xml "the document is not well-formed")

end Manifest
end LoadMap
