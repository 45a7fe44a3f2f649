import LoadMap.Proofs.Path
import LoadMap.Proofs.Search.Redirection

/-! Disks whose entries have names that a path can spell and lie in folders. What such a disk lists in a folder lies
at the path of the folder with the name behind it. -/
namespace LoadMap

namespace Disk

variable {disk : Disk} {here location : Location} {name : String} {path folder : Path}

theorem step?_folder {piece : List Char} (stepped : disk.step? here piece = some location) :
    disk.arrive here = some here := by
  rw [step?] at stepped
  split at stepped
  · exact if_pos ‹_›
  · cases stepped

theorem arrive_step? (here : Location) (piece : List Char) :
    (disk.arrive here).bind (disk.step? · piece) = disk.step? here piece := by
  cases stepped : disk.step? here piece with
  | some location => rw [step?_folder stepped,Option.bind_some,stepped]
  | none =>
    rw [arrive]
    split
    · exact stepped
    · rfl

theorem locate?_ofList {chars : List Char} (some : chars ≠ []) :
    disk.locate? ⟨String.ofList chars⟩ = (Text.pieces '/' chars).foldlM disk.step?
      (if chars.head? == Option.some '/' then [] else disk.workingFolder) := by
  have filled : String.ofList chars ≠ "" := by
    intro empty
    exact some (by rw [← String.toList_ofList (l := chars),empty]; rfl)
  rw [locate?,if_neg filled,Path.isAbsolute,String.toList_ofList]

theorem steps_slash (here : Location) :
    (Text.pieces '/' []).foldlM disk.step? here = disk.arrive here := by
  rw [Text.pieces,List.foldlM_cons,step?_silent rfl]
  exact bind_pure _

theorem head?_slash (before name : List Char) :
    (before ++ '/' :: name).head? = (before ++ ['/']).head? := by
  cases before <;> rfl

/-- The folder that stands before a slash. -/
theorem locate?_slash (before : List Char) {name : List Char} (whole : '/' ∉ name) :
    disk.locate? ⟨String.ofList (before ++ '/' :: name)⟩ =
      (disk.locate? ⟨String.ofList (before ++ ['/'])⟩).bind (disk.step? · name) := by
  rw [locate?_ofList (by simp),locate?_ofList (by simp),head?_slash before name,Text.pieces_append,
    Text.pieces_append,Text.pieces_single whole,List.foldlM_append,List.foldlM_append]
  have last (here : Location) : [name].foldlM disk.step? here = disk.step? here name := by
    rw [List.foldlM_cons]
    exact bind_pure _
  simp only [last,steps_slash,Option.bind_eq_bind,Option.bind_assoc,arrive_step?]

theorem locate?_folder {before : List Char} (some : before ≠ []) :
    disk.locate? ⟨String.ofList (before ++ ['/'])⟩ =
      (disk.locate? ⟨String.ofList before⟩).bind disk.arrive := by
  have first : (before ++ ['/']).head? = before.head? := by
    cases before with
    | nil => exact absurd rfl some
    | cons _ _ => rfl
  rw [locate?_ofList (by simp),locate?_ofList some,first,Text.pieces_append,List.foldlM_append]
  simp only [steps_slash,Option.bind_eq_bind]

/-- A name that a path can spell. -/
structure Named (name : String) : Prop where
  whole : '/' ∉ name.toList
  loud : Path.isSilent name.toList = false
  own : name ≠ ".."

instance (name : String) : Decidable (Named name) :=
  decidable_of_iff ('/' ∉ name.toList ∧ Path.isSilent name.toList = false ∧ name ≠ "..")
    ⟨fun ⟨whole,loud,own⟩ => ⟨whole,loud,own⟩,fun named => ⟨named.whole,named.loud,named.own⟩⟩

/-- Every entry has a place of its own and a name that a path can spell, and lies in a folder. -/
structure Proper (disk : Disk) : Prop where
  distinct : (disk.entries.map Prod.fst).Nodup
  named : ∀ entry ∈ disk.entries, ∀ name ∈ entry.1.getLast?, Named name
  housed : ∀ entry ∈ disk.entries, disk.isFolderAt entry.1.dropLast = true

instance (disk : Disk) : Decidable disk.Proper :=
  decidable_of_iff ((disk.entries.map Prod.fst).Nodup ∧
      (∀ entry ∈ disk.entries, ∀ name ∈ entry.1.getLast?, Named name) ∧
      ∀ entry ∈ disk.entries, disk.isFolderAt entry.1.dropLast = true)
    ⟨fun ⟨distinct,named,housed⟩ => ⟨distinct,named,housed⟩,
      fun proper => ⟨proper.distinct,proper.named,proper.housed⟩⟩

theorem step?_named (named : Named name) (folder : disk.isFolderAt here = true)
    (there : (disk.entry? (here ++ [name])).isSome) :
    disk.step? here name.toList = some (here ++ [name]) := by
  have loud : ¬ (name.toList = [] ∨ name.toList = ['.']) := by
    have heard := named.loud
    simpa [Path.isSilent] using heard
  have own : name.toList ≠ ['.','.'] := by
    intro up
    exact named.own (String.toList_inj.mp up)
  rw [step?,if_pos folder,if_neg loud,if_neg own,String.ofList_toList,if_pos there]

theorem locate?_join (named : Named name) (located : disk.locate? folder = some here)
    (inside : disk.isFolderAt here = true) (there : (disk.entry? (here ++ [name])).isSome) :
    disk.locate? (folder.join name) = some (here ++ [name]) := by
  have filled : folder.text ≠ "" := by
    intro empty
    rw [locate?,if_pos empty] at located
    cases located
  have arrived : disk.arrive here = some here := if_pos inside
  obtain ⟨before,spelled,rfl | ⟨some,rfl⟩⟩ := Path.join_cases (Path.relative_of_whole named.whole) filled
  · rw [spelled,locate?_slash before named.whole,located,Option.bind_some,step?_named named inside there]
  · rw [spelled,locate?_slash before named.whole,locate?_folder some,located,Option.bind_some,arrived,
      Option.bind_some,step?_named named inside there]

namespace Proper

variable (proper : disk.Proper)
include proper

theorem entry?_of_mem {entry : Entry} (listed : (here ++ [name],entry) ∈ disk.entries) :
    disk.entry? (here ++ [name]) = some entry := by
  rw [ entry?,if_neg (by simp)]
  exact (lookup_iff_mem proper.distinct).mpr listed

/-- What a folder lists lies at its path with the name behind it. -/
theorem find?_join {kind : FileKind} (listed : (name,kind) ∈ (disk.names? folder).getD []) :
    ∃ here, disk.locate? folder = some here ∧ disk.locate? (folder.join name) = some (here ++ [name]) ∧
      (disk.find? (folder.join name)).map Entry.kind = some kind := by
  rw [names?] at listed
  cases located : disk.locate? folder with
  | none =>
    rw [located] at listed
    cases listed
  | some here =>
    rw [located] at listed
    dsimp only at listed
    by_cases inside : disk.isFolderAt here = true
    · rw [if_pos inside] at listed
      obtain ⟨entry,member,rfl⟩ := mem_namesAt.mp listed
      have there := proper.entry?_of_mem member
      have named := proper.named _ member name (by rw [List.getLast?_concat]; rfl)
      have found := locate?_join named located inside (by rw [there]; rfl)
      refine ⟨here,rfl,found,?_⟩
      rw [find?,found,Option.bind_some,there]
      rfl
    · rw [if_neg inside] at listed
      cases listed

end Proper

end Disk
end LoadMap
