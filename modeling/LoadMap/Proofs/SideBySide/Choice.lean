import LoadMap.Proofs.Disk.Proper
import LoadMap.Proofs.Path.Order
import LoadMap.Proofs.SideBySide.StoreName

/-! Which manifest is chosen for an assembly. A private one lies with the application; one of the store lies where the
pattern for its identity leads, and is the greatest of all there, in whatever order folders are listed. -/
namespace LoadMap

open LoadMap.Path (Component)
open LoadMap.Disk (spoken)

namespace SideBySide

variable {files other : FileSystem Id} {path folder holder : Path}

/-- Folders list names that a path can spell. -/
def ListsNamed (files : FileSystem Id) : Prop := ∀ folder name, Pattern.Lists files folder name → Disk.Named name

/-- Another file system with the same names, which folders may list in another order. -/
structure Reorders (files other : FileSystem Id) : Prop where
  kind? : ∀ path, other.kind? path = files.kind? path
  lists : ∀ folder name, Pattern.Lists other folder name ↔ Pattern.Lists files folder name

section Disks

variable {disk another : Disk}

theorem lists_named {name : String} (proper : disk.Proper) (listed : Pattern.Lists disk.fileSystem folder name) :
    Disk.Named name := by
  obtain ⟨⟨other,kind⟩,member,rfl⟩ := List.mem_map.mp listed
  have told : (disk.fileSystem.names? folder).run = disk.names? folder := rfl
  rw [told,Disk.names?_eq] at member
  cases there : disk.folder? folder.components with
  | none =>
    rw [there] at member
    cases member
  | some here =>
    rw [there] at member
    obtain ⟨entry,kept,-⟩ := Disk.mem_namesAt.mp member
    exact proper.named _ kept other (by simp)

theorem entry?_of_perm (proper : disk.Proper) (same : another.entries.Perm disk.entries) :
    another.entry? = disk.entry? := by
  have distinct : (another.entries.map Prod.fst).Nodup := (same.map Prod.fst).nodup_iff.mpr proper.distinct
  funext location
  have found : another.entries.lookup location = disk.entries.lookup location :=
    Option.ext fun entry => by rw [lookup_iff_mem distinct,lookup_iff_mem proper.distinct,same.mem_iff]
  rw [Disk.entry?,Disk.entry?,found]

theorem locate?_congr (entry : another.entry? = disk.entry?) (here : another.workingFolder = disk.workingFolder) :
    another.locate? = disk.locate? := by
  have step : another.step? = disk.step? := by
    funext location piece
    simp only [Disk.step?,Disk.isFolderAt,entry]
  funext path
  rw [Disk.locate?,Disk.locate?,step,here]

/-- The order of its entries is that in which the folders of a disk are listed. -/
theorem reorders_of_perm (proper : disk.Proper) (here : another.workingFolder = disk.workingFolder)
    (same : another.entries.Perm disk.entries) : Reorders disk.fileSystem another.fileSystem := by
  have entry := entry?_of_perm proper same
  have locate := locate?_congr entry here
  constructor
  case kind? =>
    intro path
    simp only [Disk.fileSystem,Disk.find?,entry,locate]
  case lists =>
    intro folder name
    have inside : another.isFolderAt = disk.isFolderAt := by
      funext location
      rw [Disk.isFolderAt,Disk.isFolderAt,entry]
    have listed (location : Disk.Location) : (another.namesAt location).Perm (disk.namesAt location) := same.filterMap _
    simp only [Pattern.Lists,Disk.fileSystem,Disk.names?,inside,locate,Id.run]
    cases disk.locate? folder with
    | none => rfl
    | some location =>
      dsimp only
      by_cases there : disk.isFolderAt location = true
      · rw [if_pos there,if_pos there]
        exact ((listed location).map Prod.fst).mem_iff
      · rw [if_neg there,if_neg there]

end Disks

namespace Pattern

variable {pattern : Pattern} {patterns : List Pattern} {chars : List Char}

section Plain

theorem plainText?_eq_some : pattern.plainText? = some chars ↔ pattern = chars.map .plain := by
  induction pattern generalizing chars with
  | nil => cases chars <;> simp [plainText?]
  | cons token rest ih =>
    cases token with
    | plain char => cases chars <;> simp [plainText?,ih,and_comm]
    | quoted char => cases chars <;> simp [plainText?]
    | any => cases chars <;> simp [plainText?]

theorem matches?_plain (chars : List Char) : matches? (chars.map .plain) chars := by
  induction chars with
  | nil => rfl
  | cons char chars ih => simpa [matches?] using ih

theorem whole_of_names {piece : Pattern} (member : piece ∈ names pattern) : .plain '/' ∉ piece := by
  induction pattern generalizing piece with
  | nil =>
    obtain rfl := List.mem_singleton.mp member
    exact List.not_mem_nil
  | cons token rest ih =>
    obtain ⟨first,more,split⟩ := List.exists_cons_of_ne_nil (names_ne_nil rest)
    rw [names] at member
    by_cases slash : token = .plain '/'
    · rw [if_pos slash] at member
      rcases List.mem_cons.mp member with rfl | later
      · exact List.not_mem_nil
      · exact ih later
    · rw [if_neg slash,split] at member
      rw [split] at ih
      rcases List.mem_cons.mp member with rfl | later
      · exact List.not_mem_cons_of_ne_of_not_mem (Ne.symm slash) (ih List.mem_cons_self)
      · exact ih (List.mem_cons_of_mem _ later)

theorem paths_follow (pattern : Pattern) : ∃ patterns folder, (∀ piece ∈ patterns, .plain '/' ∉ piece) ∧
    ∀ files : FileSystem Id, paths files pattern = follow files patterns folder := by
  unfold paths
  split
  · exact ⟨_,_,fun _ => whole_of_names,fun _ => rfl⟩
  · exact ⟨_,_,fun _ => whole_of_names,fun _ => rfl⟩

end Plain

section Along

/-- What is followed goes on from the folder by names that match one by one. -/
theorem follow_steps (plain : ∀ folder name, Lists files folder name → '/' ∉ name.toList)
    (whole : ∀ piece ∈ patterns, .plain '/' ∉ piece) (member : path ∈ (follow files patterns folder).run) :
    ∃ texts : List (List Char), (∀ text ∈ texts, '/' ∉ text) ∧
      List.Forall₂ (fun pattern chars => pattern.matches? chars = true) patterns texts ∧
        path.steps = folder.steps ++ spoken texts := by
  induction patterns generalizing folder with
  | nil =>
    obtain rfl : path = folder := List.mem_singleton.mp member
    exact ⟨[],nofun,.nil,(List.append_nil _).symm⟩
  | cons pattern patterns ih =>
    obtain ⟨first,others⟩ := List.forall_mem_cons.mp whole
    rw [follow_cons,List.mem_flatMap] at member
    obtain ⟨next,moved,rest⟩ := member
    obtain ⟨texts,free,found,steps⟩ := ih others rest
    obtain ⟨name,rfl,here⟩ := mem_onward moved
    have matched : '/' ∉ name.toList ∧ pattern.matches? name.toList := by
      rcases here with text | ⟨-,listed,fits⟩
      · rw [plainText?_eq_some] at text
        subst text
        exact ⟨fun slash => first (List.mem_map.mpr ⟨'/',slash,rfl⟩),matches?_plain _⟩
      · exact ⟨plain _ _ listed,fits⟩
    refine ⟨name.toList :: texts,List.forall_mem_cons.mpr ⟨matched.1,free⟩,.cons matched.2 found,?_⟩
    have cut : spoken (name.toList :: texts) = spoken [name.toList] ++ spoken texts :=
      Path.spoken_append [name.toList] texts
    rw [steps,steps_below matched.1,cut,List.append_assoc]

theorem spoken_of_named {name : String} (named : Disk.Named name) : spoken [name.toList] = [.name name] := by
  have own : name.toList ≠ ['.','.'] := fun up => named.own (String.toList_inj.mp up)
  rw [spoken_named named.loud own,String.ofList_toList]

/-- Paths that are followed and have the same components are one. -/
theorem follow_apart (named : ListsNamed files) (whole : ∀ piece ∈ patterns, .plain '/' ∉ piece) {left right : Path}
    (here : left ∈ (follow files patterns folder).run) (there : right ∈ (follow files patterns folder).run)
    (same : left.steps = right.steps) : left = right := by
  induction patterns generalizing folder with
  | nil => exact (List.mem_singleton.mp here).trans (List.mem_singleton.mp there).symm
  | cons pattern patterns ih =>
    obtain ⟨first,others⟩ := List.forall_mem_cons.mp whole
    rw [follow_cons,List.mem_flatMap] at here there
    obtain ⟨near,moved,here⟩ := here
    obtain ⟨far,also,there⟩ := there
    obtain ⟨name,rfl,found⟩ := mem_onward moved
    obtain ⟨again,rfl,kept⟩ := mem_onward also
    have one : name = again := by
      cases plain : pattern.plainText? with
      | some chars =>
        rw [plain] at found kept
        have left : some chars = some name.toList := found.resolve_right nofun
        have right : some chars = some again.toList := kept.resolve_right nofun
        exact String.toList_inj.mp (Option.some.inj (left.symm.trans right))
      | none =>
        rw [plain] at found kept
        obtain ⟨-,listed,-⟩ := found.resolve_left nofun
        obtain ⟨-,filed,-⟩ := kept.resolve_left nofun
        have free (folder : Path) (name : String) (kept : Lists files folder name) := (named _ _ kept).whole
        obtain ⟨before,-,-,steps⟩ := follow_steps free others here
        obtain ⟨after,-,-,further⟩ := follow_steps free others there
        -- Both names are components of their own, at the same place.
        rw [steps,further,steps_below (named _ _ listed).whole,steps_below (named _ _ filed).whole,
          spoken_of_named (named _ _ listed),spoken_of_named (named _ _ filed),List.append_assoc,List.append_assoc] at same
        have next := (List.cons.inj (List.append_cancel_left same)).1
        exact Component.name.inj next
    subst one
    exact ih others here there

theorem mem_matching {name : String} : name ∈ (matching files pattern folder).run ↔
    Lists files folder name ∧ pattern.matches? name.toList := List.mem_filter

theorem mem_onward_reordered (reorders : Reorders files other) :
    path ∈ onward other pattern folder ↔ path ∈ onward files pattern folder := by
  unfold onward
  split
  · have same (name : String) : (present other folder name).run = (present files folder name).run := by
      simp [present,FileSystem.isFolder,FileSystem.isPresent,reorders.kind?]
    rw [same]
  · simp only [List.mem_map,mem_matching,reorders.lists]

theorem mem_follow_reordered (reorders : Reorders files other) :
    path ∈ (follow other patterns folder).run ↔ path ∈ (follow files patterns folder).run := by
  induction patterns generalizing folder with
  | nil => rfl
  | cons pattern patterns ih => simp only [follow_cons,List.mem_flatMap,mem_onward_reordered reorders,ih]

end Along

end Pattern

section Greatest

variable {paths others : List Path}

theorem upTo_greater (left right : Path) : left.upTo (greater left right) ∧ right.upTo (greater left right) := by
  rw [greater]
  split
  · rename_i after
    have other : left.upTo right = false := by simp [Path.upTo,after]
    have total := Path.upTo_total left right
    rw [other,Bool.false_or] at total
    exact ⟨left.upTo_refl,total⟩
  · rename_i before
    exact ⟨by simpa [Path.upTo] using before,right.upTo_refl⟩

theorem mem_of_greatest? {paths : List Path} (greatest : greatest? paths = some path) : path ∈ paths := by
  have kept (first : Path) (paths : List Path) : paths.foldl greater first ∈ first :: paths := by
    induction paths generalizing first with
    | nil => exact List.mem_cons_self
    | cons next paths ih =>
      rw [List.foldl_cons]
      have either : greater first next = first ∨ greater first next = next := by
        rw [greater]
        split
        · exact .inl rfl
        · exact .inr rfl
      have there := ih (greater first next)
      rcases either with same | same
      · rw [same] at there ⊢
        rcases List.mem_cons.mp there with here | later
        · exact List.mem_cons.mpr (.inl here)
        · exact List.mem_cons_of_mem _ (List.mem_cons_of_mem _ later)
      · rw [same] at there ⊢
        exact List.mem_cons_of_mem _ there
  cases paths with
  | nil => cases greatest
  | cons first paths =>
    cases greatest
    exact kept first paths

theorem upTo_greatest? (greatest : greatest? paths = some path) : ∀ other ∈ paths, other.upTo path := by
  have bounds (first : Path) (paths : List Path) : ∀ other ∈ first :: paths, other.upTo (paths.foldl greater first) := by
    induction paths generalizing first with
    | nil =>
      intro other member
      rw [List.mem_singleton.mp member]
      exact first.upTo_refl
    | cons next paths ih =>
      obtain ⟨top,others⟩ := List.forall_mem_cons.mp (ih (greater first next))
      obtain ⟨left,right⟩ := upTo_greater first next
      exact List.forall_mem_cons.mpr ⟨Path.upTo_trans left top,
        List.forall_mem_cons.mpr ⟨Path.upTo_trans right top,others⟩⟩
  cases paths with
  | nil => cases greatest
  | cons first paths =>
    cases greatest
    exact bounds first paths

/-- Among paths with components of their own, the greatest is the one that none comes after. -/
theorem greatest?_iff (apart : ∀ left ∈ paths, ∀ right ∈ paths, left.components = right.components → left = right) :
    greatest? paths = some path ↔ path ∈ paths ∧ ∀ other ∈ paths, other.upTo path := by
  constructor
  · exact fun greatest => ⟨mem_of_greatest? greatest,upTo_greatest? greatest⟩
  · rintro ⟨member,bounds⟩
    cases greatest : greatest? paths with
    | none =>
      cases paths with
      | nil => cases member
      | cons first paths => cases greatest
    | some top =>
      have kept := mem_of_greatest? greatest
      have same := Path.components_of_upTo (bounds top kept) (upTo_greatest? greatest path member)
      rw [apart top kept path member same]

/-- The order in which paths are listed does not tell in the greatest. -/
theorem greatest?_congr (apart : ∀ left ∈ paths, ∀ right ∈ paths, left.components = right.components → left = right)
    (same : ∀ path, path ∈ others ↔ path ∈ paths) (greatest : greatest? paths = some path) :
    greatest? others = some path := by
  obtain ⟨member,bounds⟩ := (greatest?_iff apart).mp greatest
  refine (greatest?_iff fun left here right there => ?_).mpr ⟨(same _).mpr member,fun other kept => ?_⟩
  · exact apart left ((same _).mp here) right ((same _).mp there)
  · exact bounds other ((same _).mp kept)

end Greatest

end SideBySide
end LoadMap
