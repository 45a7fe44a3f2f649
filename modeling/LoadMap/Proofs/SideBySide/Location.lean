import LoadMap.Proofs.Search.Passage
import LoadMap.Proofs.SideBySide.Choice

/-! Where the manifest of an assembly is looked for, with the application or else in the store of the system, and which
folder it tells for the files of the assembly. What is found ends in a name, and so leads to such a folder. -/
namespace LoadMap

instance (files : FileSystem Id) (path : Path) : Decidable (files.contents.isFile path) :=
  inferInstanceAs (Decidable ((files.kind? path).run = some .file))

/-- A folder that is called like the one with the manifests of the store. -/
def Path.CalledManifests (folder : Path) : Prop :=
  ∃ text, folder.fileName? = some text ∧ Text.Ascii.equalIgnoringCase text "Manifests"

namespace SideBySide

/-- What an assembly is looked for in. -/
structure Site where
  files : FileSystem Id
  appFolder : Path
  windowsFolder? : Option Path

variable {site : Site} {files : FileSystem Id} {identity : AssemblyIdentity} {path folder windowsFolder : Path}

namespace Site

/-- A manifest in the folder of the application, or else in a folder there that is called as the assembly. -/
def PrivateAt (site : Site) (identity : AssemblyIdentity) (path : Path) : Prop :=
  let near := site.appFolder.join (identity.name ++ ".manifest")
  let own := (site.appFolder.join identity.name).join (identity.name ++ ".manifest")
  site.files.contents.isFile path ∧ (path = near ∨ ¬ site.files.contents.isFile near ∧ path = own)

/-- The greatest path in the store that matches an identity. -/
def StoredAt (site : Site) (identity : AssemblyIdentity) (windowsFolder path : Path) : Prop :=
  windowsFolder ∈ site.windowsFolder? ∧
    (site.files.kind? (manifestStore windowsFolder)).run = some .folder ∧
    greatest? ((storePattern (manifestStore windowsFolder) identity).paths site.files).run = some path

/-- The store counts for an assembly that is not with the application. -/
inductive Located (site : Site) (identity : AssemblyIdentity) (path : Path) : Prop
  | privately (found : site.PrivateAt identity path)
  | stored {windowsFolder : Path} (alone : ∀ other, ¬ site.PrivateAt identity other)
      (found : site.StoredAt identity windowsFolder path)

end Site

section Locate

theorem firstFile?_iff (paths : List Path) : (firstFile? files paths).run = some path ↔
    ∃ before after, paths = before ++ path :: after ∧ files.contents.isFile path ∧
      ∀ other ∈ before, ¬ files.contents.isFile other := by
  have first : (firstFile? files paths).run = paths.find? fun path => (files.isFile path).run := by
    induction paths with
    | nil => rfl
    | cons path paths ih =>
      rw [firstFile?,List.find?_cons,Id.run_bind]
      cases (files.isFile path).run
      · exact ih
      · rfl
  rw [first,List.find?_eq_some_iff_append,FileSystem.isFile_iff]
  constructor
  · rintro ⟨regular,before,after,rfl,others⟩
    exact ⟨before,after,rfl,regular,fun other member => by simpa [← FileSystem.isFile_iff] using others other member⟩
  · rintro ⟨before,after,rfl,regular,others⟩
    exact ⟨regular,before,after,rfl,fun other member => by simpa [← FileSystem.isFile_iff] using others other member⟩

theorem privately_iff : (firstFile? site.files (privateCandidates identity.name site.appFolder)).run = some path ↔
    site.PrivateAt identity path := by
  rw [firstFile?_iff,privateCandidates,Site.PrivateAt]
  constructor
  · rintro ⟨before,after,split,regular,others⟩
    refine ⟨regular,?_⟩
    match before,split with
    | [],split => exact .inl (List.cons.inj split).1.symm
    | [near],split =>
      obtain ⟨rfl,rest⟩ := List.cons.inj split
      exact .inr ⟨others _ List.mem_cons_self,(List.cons.inj rest).1.symm⟩
    | _ :: _ :: before,split => simp at split
  · rintro ⟨regular,rfl | ⟨missing,rfl⟩⟩
    · exact ⟨[],_,rfl,regular,nofun⟩
    · exact ⟨[_],[],rfl,regular,by simpa using missing⟩

theorem locate?_iff : (locate? site.files identity site.appFolder site.windowsFolder?).run = some path ↔
    site.Located identity path := by
  unfold locate?
  rw [Id.run_bind]
  cases candidate : (firstFile? site.files (privateCandidates identity.name site.appFolder)).run with
  | some near =>
    have found := privately_iff.mp candidate
    constructor
    · rintro ⟨⟩
      exact .privately found
    · rintro (again | ⟨alone,-⟩)
      · exact candidate.symm.trans (privately_iff.mpr again)
      · exact absurd found (alone near)
  | none =>
    have alone (other : Path) : ¬ site.PrivateAt identity other := by
      intro found
      rw [privately_iff.mpr found] at candidate
      cases candidate
    dsimp only
    cases given : site.windowsFolder? with
    | none =>
      constructor
      · nofun
      · rintro (found | ⟨-,member,-⟩)
        · exact absurd found (alone path)
        · rw [given] at member
          cases member
    | some windowsFolder =>
      dsimp only
      rw [Id.run_bind]
      have folder_iff : (site.files.isFolder (manifestStore windowsFolder)).run = true ↔
          (site.files.kind? (manifestStore windowsFolder)).run = some .folder := decide_eq_true_iff
      have stored : site.Located identity path ↔ site.StoredAt identity windowsFolder path := by
        constructor
        · rintro (found | ⟨-,member,found⟩)
          · exact absurd found (alone path)
          · rw [given] at member
            cases member
            exact ⟨given,found⟩
        · exact .stored alone
      rw [stored,Site.StoredAt,← folder_iff]
      cases there : (site.files.isFolder (manifestStore windowsFolder)).run with
      | false => simp
      | true =>
        rw [if_pos rfl,Id.run_bind,Id.run_pure]
        simp only [true_and,Option.mem_def.mpr given]

end Locate

section Ending

open Pattern (below ofText)

theorem below_text (folder : Path) (name : String) : ∃ before, (below folder name).text = before ++ name := by
  rw [below]
  split
  · exact ⟨"",by simp⟩
  · exact Path.text_join folder name

theorem matches?_manifest {front : Pattern} {chars : List Char}
    (fits : (front ++ (.any :: ofText ".manifest")).matches? chars) : ∃ first middle ending,
      chars = first ++ (middle ++ ending) ∧ front.matches? first ∧
        ending.map Char.toLower = ".manifest".toList.map Char.toLower := by
  obtain ⟨first,rest,rfl,fitting,later⟩ := Pattern.matches?_append fits
  obtain ⟨middle,ending,rfl,-,last⟩ := @Pattern.matches?_append [.any] _ _ later
  exact ⟨first,middle,ending,rfl,fitting,Pattern.matches?_quote last⟩

theorem fileName?_of_ending {path : Path} {before ending : List Char} (spelled : path.text.toList = before ++ ending)
    (alike : ending.map Char.toLower = ".manifest".toList.map Char.toLower) : ∃ text, path.fileName? = some text := by
  have long := congrArg List.length alike
  rw [List.length_map,List.length_map] at long
  refine Path.fileName?_of_end spelled (fun slash => ?_) (long.symm ▸ by decide)
  exact absurd (Pattern.slash_of_alike alike slash) (by decide)

end Ending

section Folder

/-- The folder beside the one that holds a manifest, if this is called like that of the store. -/
def Beside (path folder : Path) : Prop := ∃ holder above stem, path.parent? = some holder ∧ holder.CalledManifests ∧
  holder.parent? = some above ∧ path.fileStem? = some stem ∧ folder = above.join stem

theorem calledManifests_iff : folder.fileName?.any (Text.Ascii.equalIgnoringCase · "Manifests") ↔
    folder.CalledManifests := by
  rw [Path.CalledManifests]
  cases folder.fileName? <;> simp

theorem folderOf?_iff : folderOf? path = some folder ↔
    path.parent? = some folder ∧ ¬ folder.CalledManifests ∨ Beside path folder := by
  cases above : path.parent? with
  | none => simp [folderOf?,Beside,above]
  | some holder =>
    by_cases called : holder.CalledManifests
    · have chosen : folderOf? path = holder.parent?.bind fun above => path.fileStem?.map above.join := by
        simp only [folderOf?,above,Option.bind_eq_bind,Option.bind_some,if_pos (calledManifests_iff.mpr called)]
        cases holder.parent? <;> cases path.fileStem? <;> rfl
      rw [chosen]
      constructor
      · intro found
        obtain ⟨next,second,found⟩ := Option.bind_eq_some_iff.mp found
        obtain ⟨stem,named,rfl⟩ := Option.map_eq_some_iff.mp found
        exact .inr ⟨holder,next,stem,above,called,second,named,rfl⟩
      · rintro (⟨same,other⟩ | ⟨other,next,stem,same,-,second,named,rfl⟩)
        · cases same
          exact absurd called other
        · rw [above] at same
          cases same
          rw [second,named]
          rfl
    · have chosen : folderOf? path = some holder := by
        simp only [folderOf?,above,Option.bind_eq_bind,Option.bind_some,if_neg (calledManifests_iff.not.mpr called)]
        rfl
      rw [chosen]
      constructor
      · rintro ⟨⟩
        exact .inl ⟨rfl,called⟩
      · rintro (⟨same,-⟩ | ⟨other,-,-,same,called',-⟩)
        · exact same
        · rw [above] at same
          cases same
          exact absurd called' called

/-- What ends in a name has a folder for its files. -/
theorem folderOf?_named {text : String} (named : path.fileName? = some text) : ∃ folder, folderOf? path = some folder := by
  obtain ⟨holder,above⟩ := Path.parent?_of_fileName named
  by_cases called : holder.CalledManifests
  · obtain ⟨other,spelled,ascii⟩ := called
    obtain ⟨next,second⟩ := Path.parent?_of_fileName spelled
    have stem : path.fileStem? = some (Path.stemOf text) := by rw [Path.fileStem?,named,Option.map_some]
    exact ⟨_,folderOf?_iff.mpr (.inr ⟨holder,next,_,above,⟨other,spelled,ascii⟩,second,stem,rfl⟩)⟩
  · exact ⟨holder,folderOf?_iff.mpr (.inl ⟨above,called⟩)⟩

end Folder

section Found

open Pattern (below ofText paths quote)

theorem Site.PrivateAt.named (found : site.PrivateAt identity path) : ∃ text, path.fileName? = some text := by
  have ends (folder : Path) : ∃ before,
      (folder.join (identity.name ++ ".manifest")).text.toList = before ++ ".manifest".toList := by
    obtain ⟨before,text⟩ := Path.text_join folder (identity.name ++ ".manifest")
    exact ⟨(before ++ identity.name).toList,by simp [text]⟩
  obtain ⟨-,rfl | ⟨-,rfl⟩⟩ := found
  all_goals
    obtain ⟨before,spelled⟩ := ends _
    exact fileName?_of_ending spelled rfl

theorem Site.StoredAt.member (found : site.StoredAt identity windowsFolder path) : path ∈
    (paths site.files (quote (manifestStore windowsFolder).text.toList ++ .plain '/' :: manifestName identity)).run := by
  rw [← storePattern_eq]
  exact mem_of_greatest? found.2.2

theorem Site.StoredAt.named (found : site.StoredAt identity windowsFolder path) : ∃ text, path.fileName? = some text := by
  have member := found.member
  have split : quote (manifestStore windowsFolder).text.toList ++ .plain '/' :: manifestName identity =
      (quote (manifestStore windowsFolder).text.toList ++ .plain '/' :: (identityName identity ++ [.plain '_'])) ++
        (.any :: ofText ".manifest") := by
    simp [manifestName]
  rw [split] at member
  obtain ⟨folder,name,first,rfl,fits⟩ := Pattern.paths_end (by simp) (by decide) (by decide) member
  obtain ⟨first,middle,ending,spelled,-,alike⟩ := matches?_manifest fits
  obtain ⟨before,text⟩ := below_text folder name
  have whole : (below folder name).text.toList = before.toList ++ first ++ middle ++ ending := by
    rw [text,String.toList_append,spelled]
    simp
  exact fileName?_of_ending whole alike

theorem Site.Located.leads (located : site.Located identity path) : ∃ folder, folderOf? path = some folder := by
  cases located with
  | privately found =>
    obtain ⟨text,named⟩ := found.named
    exact folderOf?_named named
  | stored alone found =>
    obtain ⟨text,named⟩ := found.named
    exact folderOf?_named named

end Found

end SideBySide
end LoadMap
