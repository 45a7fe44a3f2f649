import LoadMap.Proofs.SideBySide.Location

/-! What lies in the store for an identity. The pattern leads to the folder with the manifests and on from there by the
names of the assembly, through further folders only if the identity has slashes. -/
namespace LoadMap

open LoadMap.Path (Component)
open LoadMap.Disk (spoken)

section Inside

variable {path folder : Path} {name : String}

/-- A path is that of a folder with a name behind it. -/
def Path.LiesIn (path folder : Path) (name : String) : Prop := path.steps = folder.steps ++ [.name name]

theorem Path.join_liesIn (named : Disk.Named name) (folder : Path) : (folder.join name).LiesIn folder name := by
  rw [LiesIn,steps_join (relative_of_whole named.whole),Text.pieces_single named.whole,
    SideBySide.Pattern.spoken_of_named named]

theorem Path.LiesIn.fileName? (lies : path.LiesIn folder name) : path.fileName? = some name :=
  fileName?_of_steps (by rw [lies,List.getLast?_concat])

theorem Path.liesIn_parent? (above : path.parent? = some folder) (named : path.fileName? = some name) :
    path.LiesIn folder name := by
  have whole : path.components = folder.components ++ [.name name] := by
    rw [parent?_components above]
    rw [Path.fileName?] at named
    split at named
    · rename_i last
      cases named
      exact (List.dropLast_append_getLast? _ last).symm
    · cases named
  rw [LiesIn,steps,whole,List.filter_append]
  rfl

/-- The folder of a path is spelled as one that the path lies in. -/
theorem Path.LiesIn.parent? (lies : path.LiesIn folder name) :
    ∃ holder, path.parent? = some holder ∧ holder.steps = folder.steps := by
  obtain ⟨holder,above⟩ := parent?_of_fileName lies.fileName?
  have again := liesIn_parent? above lies.fileName?
  exact ⟨holder,above,List.append_inj_left' (again.symm.trans lies) rfl⟩

end Inside

namespace SideBySide

open Pattern (Lists below follow names ofText paths quote)

variable {site : Site} {identity : AssemblyIdentity} {path holder windowsFolder : Path}

section Spelling

variable {folder : Path} {text : String} {chars : List Char} {spelled meant : List Component}

theorem plainText?_quote_iff : (quote chars).plainText? ≠ none ↔ ∀ char ∈ chars, Pattern.token char = .plain char := by
  induction chars with
  | nil => simp [quote,Pattern.plainText?]
  | cons char chars ih =>
    have step : quote (char :: chars) = Pattern.token char :: quote chars := rfl
    rw [step,List.forall_mem_cons,← ih]
    rcases Pattern.token_cases char with same | same
    · simp [same,Pattern.plainText?]
    · simp [same,Pattern.plainText?]

/-- The names on a path without marks have no marks. -/
theorem plain_steps (plain : (ofText folder.text).plainText? ≠ none) (named : .name text ∈ folder.steps) :
    (ofText text).plainText? ≠ none := by
  rw [Pattern.ofText_eq,plainText?_quote_iff] at plain ⊢
  rw [Path.steps_eq,List.mem_append] at named
  rcases named with start | later
  · split at start <;> simp at start
  · obtain ⟨piece,kept,same⟩ := List.mem_map.mp later
    rw [Component.ofPiece] at same
    split at same
    · cases same
    · cases same
      rw [String.toList_ofList]
      exact fun char member => plain char (Text.mem_of_pieces (List.mem_of_mem_filter kept) member)

theorem spells_plain (plain : ∀ text, .name text ∈ meant → (ofText text).plainText? ≠ none)
    (spells : List.Forall₂ Component.Spells spelled meant) : spelled = meant := by
  induction spells with
  | nil => rfl
  | cons first rest ih =>
    have others := ih fun text member => plain text (List.mem_cons_of_mem _ member)
    rcases first with same | ⟨left,right,rfl,rfl,odd,-⟩
    · rw [same,others]
    · exact absurd odd (plain right List.mem_cons_self)

theorem manifestStore_filled (windowsFolder : Path) : (manifestStore windowsFolder).text.toList ≠ [] := by
  obtain ⟨before,text⟩ := Path.text_join (windowsFolder.join "WinSxS") "Manifests"
  rw [manifestStore,text]
  simp

theorem manifestStore_steps (windowsFolder : Path) :
    (manifestStore windowsFolder).steps = windowsFolder.steps ++ [.name "WinSxS",.name "Manifests"] := by
  have first : (windowsFolder.join "WinSxS").steps = windowsFolder.steps ++ [.name "WinSxS"] := Path.steps_join rfl
  have second : (manifestStore windowsFolder).steps = (windowsFolder.join "WinSxS").steps ++ [.name "Manifests"] :=
    Path.steps_join rfl
  rw [second,first,List.append_assoc]
  rfl

theorem store_exact (plain : (ofText windowsFolder.text).plainText? ≠ none)
    (spells : List.Forall₂ Component.Spells holder.steps (manifestStore windowsFolder).steps) :
    holder.steps = (manifestStore windowsFolder).steps := by
  refine spells_plain (fun text member => ?_) spells
  rw [manifestStore_steps,List.mem_append] at member
  rcases member with above | below
  · exact plain_steps plain above
  · rcases List.mem_pair.mp below with same | same
    all_goals
      cases same
      decide

theorem holder_moves (spells : List.Forall₂ Component.Spells holder.steps (manifestStore windowsFolder).steps) :
    holder.steps ≠ [] := by
  intro none
  rw [none,manifestStore_steps] at spells
  simpa using spells.length_eq

end Spelling

section Manifests

variable {text : String}

/-- A character other than a dot keeps a name from being a mark. -/
theorem named_of_mem {char : Char} (whole : '/' ∉ text.toList) (member : char ∈ text.toList) (other : char ≠ '.') :
    Disk.Named text := by
  refine ⟨whole,?_,?_⟩
  · rw [Path.isSilent,Bool.or_eq_false_iff]
    constructor
    all_goals
      rw [beq_eq_false_iff_ne]
      intro short
      simp [short,other] at member
  · rintro rfl
    simp [other] at member

theorem below_eq_join (moves : holder.steps ≠ []) (name : String) : below holder name = holder.join name := by
  rw [below,if_neg]
  intro start
  rw [Path.same,beq_iff_eq] at start
  refine moves ?_
  rw [Path.steps,start]
  rfl

/-- What matches in a folder are the entries with a name of the assembly, when no part of it leads into a folder. -/
theorem mem_follow_manifest (plain : ∀ folder name, Lists site.files folder name → '/' ∉ name.toList)
    (whole : identity.Whole) : path ∈ (follow site.files (names (manifestName identity)) holder).run ↔
      ∃ file, Lists site.files holder file ∧ Names identity file ∧ path = below holder file := by
  have odd : (manifestName identity).plainText? = none := Pattern.plainText?_any (by simp [manifestName])
  rw [Pattern.names_whole (manifestName_whole whole),Pattern.follow_cons,List.mem_flatMap]
  constructor
  · rintro ⟨next,moved,same⟩
    obtain rfl : path = next := List.mem_singleton.mp same
    obtain ⟨file,rfl,text | ⟨-,listed,fits⟩⟩ := Pattern.mem_onward moved
    · rw [odd] at text
      cases text
    · exact ⟨file,listed,fits_manifestName.mp ((Pattern.matches?_iff_fits (plain _ _ listed)).mp fits),rfl⟩
  · rintro ⟨file,listed,called,rfl⟩
    have fits := (Pattern.matches?_iff_fits (plain _ _ listed)).mpr (fits_manifestName.mpr called)
    refine ⟨below holder file,?_,List.mem_singleton_self _⟩
    rw [Pattern.onward,odd]
    exact List.mem_map_of_mem (Pattern.mem_matching.mpr ⟨listed,fits⟩)

/-- What matches behind a folder leads on from it by a name of the assembly, which may go through several folders. -/
theorem names_of_follow (plain : ∀ folder name, Lists site.files folder name → '/' ∉ name.toList)
    (member : path ∈ (follow site.files (names (manifestName identity)) holder).run) :
    ∃ tail, Names identity tail ∧ path.steps = holder.steps ++ spoken (Text.pieces '/' tail.toList) := by
  obtain ⟨texts,whole,found,steps⟩ := Pattern.follow_steps plain (fun _ => Pattern.whole_of_names) member
  have some : texts ≠ [] := by
    rintro rfl
    exact Pattern.names_ne_nil _ (List.forall₂_nil_right_iff.mp found)
  refine ⟨String.ofList (Text.join '/' texts),fits_manifestName.mp ?_,?_⟩
  · rw [String.toList_ofList]
    exact Pattern.fits_of_names whole found
  · rw [String.toList_ofList,Text.pieces_join some whole,steps]

/-- A manifest of the store that an identity asks for: below the folder with the manifests it has one of the names of
the assembly. If no part of the identity leads into a folder, it lies directly in that folder, and no other that is
there with such a name comes after it. -/
structure Site.Kept (site : Site) (identity : AssemblyIdentity) (windowsFolder path holder : Path) (tail : String) :
    Prop where
  spells : List.Forall₂ Component.Spells holder.steps (manifestStore windowsFolder).steps
  exact : (ofText windowsFolder.text).plainText? ≠ none → holder.steps = (manifestStore windowsFolder).steps
  names : Names identity tail
  leads : path.steps = holder.steps ++ spoken (Text.pieces '/' tail.toList)
  greatest : ∀ other ∈ ((storePattern (manifestStore windowsFolder) identity).paths site.files).run, other.upTo path
  inside : identity.Whole → Lists site.files holder tail ∧ path.LiesIn holder tail
  chosen : identity.Whole → ∀ other, Lists site.files holder other → Names identity other →
    (holder.join other).upTo path

theorem Site.StoredAt.kept (plain : ∀ folder name, Lists site.files folder name → '/' ∉ name.toList)
    (found : site.StoredAt identity windowsFolder path) :
    ∃ holder tail, site.Kept identity windowsFolder path holder tail := by
  obtain ⟨holder,reached,member⟩ := (Pattern.mem_paths (manifestStore_filled windowsFolder)).mp found.member
  have spells := Pattern.holders_spell reached
  rw [String.ofList_toList] at spells
  have greatest := upTo_greatest? found.2.2
  by_cases whole : identity.Whole
  · obtain ⟨file,listed,called,rfl⟩ := (mem_follow_manifest plain whole).mp member
    have joined := below_eq_join (holder_moves spells)
    have lies : (below holder file).LiesIn holder file :=
      joined file ▸ Path.join_liesIn (named_of_mem (plain _ _ listed) called.bar (by decide)) holder
    refine ⟨holder,file,spells,fun clear => store_exact clear spells,called,?_,greatest,fun _ => ⟨listed,lies⟩,?_⟩
    · rw [lies,Text.pieces_single (called.whole whole),
        Pattern.spoken_of_named (named_of_mem (plain _ _ listed) called.bar (by decide))]
    · intro _ other kept fits
      rw [← joined other]
      refine greatest _ ?_
      rw [storePattern_eq]
      exact (Pattern.mem_paths (manifestStore_filled windowsFolder)).mpr
        ⟨holder,reached,(mem_follow_manifest plain whole).mpr ⟨other,kept,fits,rfl⟩⟩
  · obtain ⟨tail,called,leads⟩ := names_of_follow plain member
    exact ⟨holder,tail,spells,fun clear => store_exact clear spells,called,leads,greatest,fun all => absurd all whole,
      fun all => absurd all whole⟩

end Manifests

section Folders

end Folders

end SideBySide
end LoadMap
