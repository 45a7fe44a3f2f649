import LoadMap.Proofs.SideBySide.Store

/-! Where the manifest of an assembly lies. No mark of a pattern in an identity leads out of the folders that are
searched, and what lies in the store is called as the identity asks. Only a slash leads further, and two dots as the
name of a private assembly. -/
namespace LoadMap

open LoadMap.Disk (spoken)

namespace SideBySide

variable {site : Site} {identity : AssemblyIdentity} {path folder holder windowsFolder : Path}

section Private

variable {name : String}

theorem named_manifest (whole : '/' ∉ name.toList) : Disk.Named (name ++ ".manifest") := by
  have free : '/' ∉ ".manifest".toList := by decide
  have letter : 'm' ∈ ".manifest".toList := by decide
  refine named_of_mem ?_ ?_ (show 'm' ≠ '.' by decide)
  · rw [String.toList_append,List.mem_append,not_or]
    exact ⟨whole,free⟩
  · rw [String.toList_append]
    exact List.mem_append_right _ letter

/-- A private manifest lies with the application or in a folder there that is called as the assembly, unless the name of
the assembly has a slash or is that of the folder above. -/
theorem Site.PrivateAt.inside (found : site.PrivateAt identity path) (whole : '/' ∉ identity.name.toList)
    (own : identity.name ≠ "..") : path.LiesIn site.appFolder (identity.name ++ ".manifest") ∨
      ∃ folder : Path, folder.LiesIn site.appFolder identity.name ∧ path.LiesIn folder (identity.name ++ ".manifest") := by
  have file := named_manifest whole
  obtain ⟨-,rfl | ⟨-,rfl⟩⟩ := found
  · exact .inl (Path.join_liesIn file _)
  · by_cases loud : Path.isSilent identity.name.toList = false
    · exact .inr ⟨_,Path.join_liesIn ⟨whole,loud,own⟩ _,Path.join_liesIn file _⟩
    · -- An empty name or a dot does not lead out of the folder of the application.
      have silent : spoken [identity.name.toList] = [] := Disk.spoken_silent (by simpa using loud) []
      have same : (site.appFolder.join identity.name).steps = site.appFolder.steps := by
        rw [Path.steps_join (Path.relative_of_whole whole),Text.pieces_single whole,silent,List.append_nil]
      have inside := Path.join_liesIn file (site.appFolder.join identity.name)
      rw [Path.LiesIn,same] at inside
      exact .inl inside

theorem Site.neither (alone : ∀ other, ¬ site.PrivateAt identity other) :
    ∀ candidate ∈ privateCandidates identity.name site.appFolder, ¬ site.files.contents.isFile candidate := by
  intro candidate member regular
  rcases List.mem_pair.mp member with rfl | rfl
  · exact alone _ ⟨regular,.inl rfl⟩
  · by_cases near : site.files.contents.isFile (site.appFolder.join (identity.name ++ ".manifest"))
    · exact alone _ ⟨near,.inl rfl⟩
    · exact alone _ ⟨regular,.inr ⟨near,rfl⟩⟩

end Private

section Reordering

variable {files : FileSystem Id}

/-- The same search on another file system. -/
def Site.on (site : Site) (files : FileSystem Id) : Site := { site with files }

theorem isFile_reordered (reorders : Reorders site.files files) (path : Path) :
    files.contents.isFile path ↔ site.files.contents.isFile path := by
  have same : (files.kind? path).run = (site.files.kind? path).run := congrArg Id.run (reorders.kind? path)
  exact Eq.congr_left same

theorem Site.PrivateAt.reordered (reorders : Reorders site.files files) :
    (site.on files).PrivateAt identity path ↔ site.PrivateAt identity path := by
  simp only [Site.PrivateAt,Site.on,isFile_reordered reorders]

theorem Site.StoredAt.reordered (named : ListsNamed site.files) (reorders : Reorders site.files files)
    (found : site.StoredAt identity windowsFolder path) : (site.on files).StoredAt identity windowsFolder path := by
  obtain ⟨given,there,greatest⟩ := found
  obtain ⟨patterns,start,whole,followed⟩ := Pattern.paths_follow (storePattern (manifestStore windowsFolder) identity)
  rw [followed] at greatest
  refine ⟨given,?_,?_⟩
  · exact (congrArg Id.run (reorders.kind? _)).trans there
  · rw [followed]
    refine greatest?_congr (fun left here right kept same => ?_) (fun _ => Pattern.mem_follow_reordered reorders) greatest
    exact Pattern.follow_apart named whole here kept (by rw [Path.steps,same,Path.steps])

end Reordering

/-- Where the manifest lies that is found for an identity. -/
inductive Site.Housed (site : Site) (identity : AssemblyIdentity) (path : Path) : Prop
  | privately (found : site.PrivateAt identity path)
      (inside : '/' ∉ identity.name.toList → identity.name ≠ ".." →
        path.LiesIn site.appFolder (identity.name ++ ".manifest") ∨
          ∃ folder : Path, folder.LiesIn site.appFolder identity.name ∧ path.LiesIn folder (identity.name ++ ".manifest"))
  | stored {windowsFolder holder : Path} {tail : String} (given : windowsFolder ∈ site.windowsFolder?)
      (neither : ∀ candidate ∈ privateCandidates identity.name site.appFolder, ¬ site.files.contents.isFile candidate)
      (kept : site.Kept identity windowsFolder path holder tail)

/-- A manifest that is found for an assembly lies with the application, or else it is the greatest of those in the store
that are called as the identity asks. Only slashes and two dots in the identity lead further, and the order in which
folders are listed does not matter. -/
theorem located_housed (named : ListsNamed site.files)
    (located : (locate? site.files identity site.appFolder site.windowsFolder?).run = some path) :
    site.Housed identity path ∧ ∀ files, Reorders site.files files →
      (locate? files identity site.appFolder site.windowsFolder?).run = some path := by
  rw [locate?_iff] at located
  constructor
  · cases located with
    | privately found => exact .privately found found.inside
    | stored alone found =>
      obtain ⟨holder,tail,kept⟩ := found.kept fun _ _ listed => (named _ _ listed).whole
      exact .stored found.1 (Site.neither alone) kept
  · intro files reorders
    have again : (site.on files).Located identity path := by
      cases located with
      | privately found => exact .privately ((Site.PrivateAt.reordered reorders).mpr found)
      | stored alone found =>
        exact .stored (fun other there => alone other ((Site.PrivateAt.reordered reorders).mp there))
          (found.reordered named reorders)
    have answer := locate?_iff.mpr again
    exact answer

/-- A store with two versions of an assembly whose name has marks, and another that the marks would match. -/
def libraryDisk : Disk where
  workingFolder := []
  entries := [(["app"],.folder),(["win"],.folder),(["win","WinSxS"],.folder),(["win","WinSxS","Manifests"],.folder),
    (["win","WinSxS","Manifests","x86_gui[2]_none_1.1_b.manifest"],.file .empty),
    (["win","WinSxS","Manifests","X86_Gui[2]_none_1.0_a.manifest"],.file .empty),
    (["win","WinSxS","Manifests","x86_gui2_none_9.9_c.manifest"],.file .empty)]

def librarySite : Site :=
  { files := libraryDisk.fileSystem, appFolder := ⟨"/app"⟩, windowsFolder? := some ⟨"/win"⟩ }

def guiIdentity : AssemblyIdentity := { name := "Gui[2]", architecture? := some "X86", version? := some "*" }

def guiPath : Path := ⟨"/win/WinSxS/Manifests/x86_gui[2]_none_1.1_b.manifest"⟩

theorem located_housed_marks :
    (locate? librarySite.files guiIdentity librarySite.appFolder librarySite.windowsFolder?).run = some guiPath ∧
      (∃ file, Names guiIdentity file ∧ guiPath.LiesIn ⟨"/win/WinSxS/Manifests"⟩ file) ∧
      (locate? { libraryDisk with entries := libraryDisk.entries.reverse }.fileSystem guiIdentity
        librarySite.appFolder librarySite.windowsFolder?).run = some guiPath := by
  have proper : libraryDisk.Proper := by decide +kernel
  have named : ListsNamed librarySite.files := fun _ _ => lists_named proper
  have located : (locate? librarySite.files guiIdentity librarySite.appFolder librarySite.windowsFolder?).run =
      some guiPath := by decide +kernel
  obtain ⟨housed,reordered⟩ := located_housed named located
  refine ⟨located,?_,reordered _ (reorders_of_perm proper rfl (List.reverse_perm _))⟩
  cases housed with
  | privately found =>
    obtain ⟨-,same | ⟨-,same⟩⟩ := found
    · exact absurd same (by decide +kernel)
    · exact absurd same (by decide +kernel)
  | stored given neither kept =>
    cases given
    have whole : guiIdentity.Whole := ⟨by decide,by decide,nofun,by decide⟩
    obtain ⟨-,lies⟩ := kept.inside whole
    rw [Path.LiesIn,kept.exact (by decide +kernel)] at lies
    exact ⟨_,kept.names,lies⟩

/-- An application beside a folder that is none of its own. -/
def strayDisk : Disk where
  workingFolder := []
  entries := [(["app"],.folder),(["secret"],.folder),(["secret","evil.manifest"],.file .empty)]

/-- A manifest is found in a folder that is not searched. -/
theorem slash_leads_out : ¬ ∀ (disk : Disk) identity (appFolder : Path) windowsFolder? path,
    (locate? disk.fileSystem identity appFolder windowsFolder?).run = some path →
      (∃ here file, disk.locate? appFolder = some here ∧
        (disk.locate? path = some (here ++ [file]) ∨ disk.locate? path = some (here ++ [identity.name,file]))) ∨
      ∃ windowsFolder ∈ windowsFolder?, ∃ here file, disk.locate? (manifestStore windowsFolder) = some here ∧
        disk.locate? path = some (here ++ [file]) := by
  intro all
  have located : (locate? strayDisk.fileSystem { name := "../secret/evil" } ⟨"/app"⟩ none).run =
      some ⟨"/app/../secret/evil.manifest"⟩ := by decide +kernel
  have home : strayDisk.locate? ⟨"/app"⟩ = some ["app"] := by decide +kernel
  have away : strayDisk.locate? ⟨"/app/../secret/evil.manifest"⟩ = some ["secret","evil.manifest"] := by decide +kernel
  rcases all _ _ _ _ _ located with ⟨here,file,same,inside⟩ | ⟨_,none,-⟩
  · rw [home] at same
    cases same
    rw [away] at inside
    rcases inside with same | same
    · simp at same
    · simp at same
  · cases none

end SideBySide
end LoadMap
