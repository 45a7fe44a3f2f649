import LoadMap.Proofs.Bytes.Range
import LoadMap.Proofs.SideBySide.Store

/-! What the manifest of a binary does to a search. Its own files lie with the application, and behind them come those
of the assemblies that it needs, in the order in which it names them. The first of all these that has the name that is
searched for counts, if it is there. -/
namespace LoadMap

namespace SideBySide

variable {site : Site} {identity : AssemblyIdentity} {manifest : Manifest} {binary : Binary} {path folder : Path}
  {entries : List Entry}

namespace Site

/-- The files that an assembly brings, mapped into its folder. A manifest that is no good brings none, and an assembly
without a manifest is listed by its name. -/
inductive Brings (site : Site) (takes : AssemblyIdentity → Path → Path → Prop) (identity : AssemblyIdentity) :
    List Entry → Prop
  | absent (nowhere : ∀ path, ¬ site.Located identity path) :
      Brings site takes identity [{ name := identity.name, path? := none }]
  | broken {path : Path} {content : ByteArray} {failure : Failure} (located : site.Located identity path)
      (read : (site.files.content? path).run = some content) (broken : Manifest.ofBytes content = .error failure) :
      Brings site takes identity []
  | listed {path folder : Path} {content : ByteArray} {manifest : Manifest} (located : site.Located identity path)
      (taken : takes identity path folder) (read : (site.files.content? path).run = some content)
      (parsed : Manifest.ofBytes content = .ok manifest) :
      Brings site takes identity (manifest.files.map fun name => { name, path? := some (folder.join name) })

/-- The files of a manifest with those of the assemblies that it needs. -/
def Sequence (site : Site) (takes : AssemblyIdentity → Path → Path → Prop) (manifest : Manifest)
    (entries : List Entry) : Prop :=
  ∃ parts, List.Forall₂ (site.Brings takes) manifest.dependentAssemblies parts ∧
    entries = manifest.files.map (fun name => { name, path? := some (site.appFolder.join name) }) ++ parts.flatten

end Site

section Entries

end Entries

namespace Site

/-- The first entry for a name, whatever the case of its ASCII letters, has a path, and a file is there. -/
def Leads (site : Site) (entries : List Entry) (name : String) (path : Path) : Prop :=
  ∃ entry, entries.find? (Text.Ascii.equalIgnoringCase ·.name name) = some entry ∧ entry.path? = some path ∧
    site.files.contents.isFile path

theorem Brings.congr {takes other : AssemblyIdentity → Path → Path → Prop} {identity : AssemblyIdentity}
    {part : List Entry} (brings : site.Brings takes identity part)
    (same : ∀ path folder, takes identity path folder → other identity path folder) :
    site.Brings other identity part := by
  cases brings with
  | absent nowhere => exact .absent nowhere
  | broken located read parsed => exact .broken located read parsed
  | listed located taken read parsed => exact .listed located (same _ _ taken) read parsed

theorem Sequence.congr {takes other : AssemblyIdentity → Path → Path → Prop} {entries : List Entry}
    (sequence : site.Sequence takes manifest entries)
    (same : ∀ identity ∈ manifest.dependentAssemblies, ∀ path folder,
      takes identity path folder → other identity path folder) : site.Sequence other manifest entries := by
  obtain ⟨parts,brings,rfl⟩ := sequence
  refine ⟨parts,?_,rfl⟩
  generalize manifest.dependentAssemblies = identities at brings same
  induction brings with
  | nil => exact .nil
  | cons first rest ih =>
    obtain ⟨here,others⟩ := List.forall_mem_cons.mp same
    exact .cons (first.congr here) (ih others)

end Site

instance (folder : Path) : Decidable folder.CalledManifests := decidable_of_iff _ calledManifests_iff

/-- A manifest that lists a file. -/
def listing (file : String) : ByteArray :=
  (Text.Utf8.encode ("<" ++ ("assembly><file name=\"" ++ file ++ "\"/></assembly>"))).toByteArray

end SideBySide
end LoadMap
