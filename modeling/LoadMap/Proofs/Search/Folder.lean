import LoadMap.FolderCache
import LoadMap.Proofs.Disk
import Mathlib.Data.List.Rotate

/-! Looking for files in folders that do not change, with a cache of their listings. What is found does
not hang on the order in which the files of a folder are listed, nor on what was asked before. -/
namespace LoadMap

/-- What a search can see of a file system: the files of each folder, and which paths are files. -/
structure Contents where
  holds : List Path.Component → String → Prop
  isFile : Path → Prop

variable {σ α β : Type} {contents : Contents} {name file : String}
  {names? : Option (List (String × FileKind))} {may : List Path.Component → Listing → Prop}

namespace Listing

theorem mem_ofNames {small : String} :
    (small,file) ∈ ofNames names? ↔ (file,.file) ∈ names?.getD [] ∧ small = Text.lowercase file := by
  rw [ofNames,List.mem_filterMap]
  constructor
  · rintro ⟨⟨other,kind⟩,member,kept⟩
    dsimp only at kept
    by_cases regular : kind = .file
    · rw [if_pos regular] at kept
      cases kept
      exact ⟨regular ▸ member,rfl⟩
    · rw [if_neg regular] at kept
      cases kept
  · rintro ⟨member,rfl⟩
    exact ⟨_,member,if_pos rfl⟩

/-- A listing of the files that a folder holds, in any order. -/
def Shows (listing : Listing) (contents : Contents) (key : List Path.Component) : Prop :=
  ∀ small file, (small,file) ∈ listing ↔ contents.holds key file ∧ small = Text.lowercase file

end Listing

def Contents.shown (contents : Contents) (key : List Path.Component) (listing : Listing) : Prop :=
  listing.Shows contents key

/-- A folder holds a file of some name, whatever the letter case. -/
def Contents.Named (contents : Contents) (folder : Path) (name file : String) : Prop :=
  contents.holds folder.components file ∧ Text.lowercase file = Text.lowercase name

/-- What may be answered to a question for a name in a folder. -/
def Contents.Finds (contents : Contents) (folder : Path) (name : String) : Option Path → Prop
  | some path => ∃ file, contents.Named folder name file ∧ path = folder.join file
  | none => ∀ file, ¬ contents.Named folder name file

theorem Listing.mem_of_find? {listing : Listing} (found : listing.find? name = some file) :
    (Text.lowercase name,file) ∈ listing := by
  rw [find?,List.lookup_eq_some_iff] at found
  obtain ⟨before,after,split,-⟩ := found
  rw [← List.mem_reverse,split]
  exact List.mem_append_cons_self

theorem Listing.Shows.finds {listing : Listing} {folder : Path}
    (shows : listing.Shows contents folder.components) (name : String) :
    contents.Finds folder name ((listing.find? name).map folder.join) := by
  cases found : listing.find? name with
  | some file =>
    obtain ⟨held,same⟩ := (shows _ _).mp (mem_of_find? found)
    exact ⟨file,⟨held,same.symm⟩,rfl⟩
  | none =>
    rintro file ⟨held,same⟩
    rw [find?,List.lookup_eq_none_iff] at found
    have listed := List.mem_reverse.mpr ((shows _ _).mpr ⟨held,rfl⟩)
    have apart := found _ listed
    rw [same] at apart
    simp at apart

namespace FolderCache

/-- Every listing kept is one that its folder may have. -/
def Agrees (may : List Path.Component → Listing → Prop) (cache : FolderCache) : Prop :=
  ∀ key listing, cache.folders.lookup key = some listing → may key listing

theorem agrees_empty : Agrees may {} := by
  intro key listing known
  cases known

theorem Agrees.cons {cache : FolderCache} {key : List Path.Component} {listing : Listing}
    (agrees : cache.Agrees may) (fresh : may key listing) :
    Agrees may { folders := (key,listing) :: cache.folders } := by
  intro other kept member
  -- The new listing stands in front, and stands for its own folder only.
  rw [List.lookup_cons] at member
  split at member
  · rename_i same
    cases member
    rwa [beq_iff_eq.mp same]
  · exact agrees other kept member

/-- From a cache that agrees, an action ends with one, and with a result as described. -/
def Gives (may : List Path.Component → Listing → Prop) (action : StateT FolderCache (StateM σ) α)
    (post : α → Prop) : Prop :=
  ∀ cache : FolderCache, cache.Agrees may → ∀ state,
    post ((action.run cache).run state).1.1 ∧ ((action.run cache).run state).1.2.Agrees may

section Gives

variable {action : StateT FolderCache (StateM σ) α} {more : α → StateT FolderCache (StateM σ) β}
  {middle post : α → Prop} {last : β → Prop}

theorem gives_pure {value : α} (holds : post value) :
    Gives may (pure value : StateT FolderCache (StateM σ) α) post :=
  fun _ agrees _ => ⟨holds,agrees⟩

theorem Gives.bind (first : Gives may action middle)
    (next : ∀ value, middle value → Gives may (more value) last) : Gives may (action >>= more) last := by
  intro cache agrees state
  obtain ⟨reached,kept⟩ := first cache agrees state
  exact next _ reached _ kept _

theorem Gives.mono (gives : Gives may action middle) (weaker : ∀ value, middle value → post value) :
    Gives may action post := by
  intro cache agrees state
  obtain ⟨reached,kept⟩ := gives cache agrees state
  exact ⟨weaker _ reached,kept⟩

theorem gives_lift {action : StateM σ α} (read : ∀ state, post (action.run state).1) :
    Gives may (liftM action : StateT FolderCache (StateM σ) α) post :=
  fun _ agrees state => ⟨read state,agrees⟩

theorem gives_mapM {requests : List β} {ask : β → StateT FolderCache (StateM σ) α} {wanted : β → α → Prop}
    (each : ∀ request, Gives may (ask request) (wanted request)) :
    Gives may (requests.mapM ask) (List.Forall₂ wanted requests) := by
  induction requests with
  | nil => exact gives_pure .nil
  | cons request rest ih =>
    rw [List.mapM_cons]
    apply (each request).bind
    intro answer said
    apply ih.bind
    intro answers others
    exact gives_pure (.cons said others)

end Gives

end FolderCache

variable {files : FileSystem (StateM σ)} {folder : Path}

def FileSystem.Lists (files : FileSystem (StateM σ)) (may : List Path.Component → Listing → Prop) :
    Prop :=
  ∀ folder state, may folder.components (.ofNames ((files.names? folder).run state).1)

/-- The answers always tell of the same contents. A folder may be listed in another order each time. -/
structure FileSystem.Steady (files : FileSystem (StateM σ)) (contents : Contents) : Prop where
  lists : ∀ folder state file, (file,.file) ∈ ((files.names? folder).run state).1.getD [] ↔
    contents.holds folder.components file
  knows : ∀ path state, ((files.kind? path).run state).1 = some .file ↔ contents.isFile path

theorem FileSystem.Steady.shows (steady : files.Steady contents) :
    files.Lists contents.shown := by
  intro folder state small file
  rw [Listing.mem_ofNames,steady.lists folder state file]

theorem FileSystem.Steady.isFile_iff (steady : files.Steady contents) (path : Path) (state : σ) :
    ((files.isFile path).run state).1 = true ↔ contents.isFile path := by
  rw [← steady.knows path state]
  exact decide_eq_true_iff

namespace FolderCache

theorem listing_gives (lists : files.Lists may) (folder : Path) :
    Gives may (listing files folder) (may folder.components) := by
  intro cache agrees state
  cases known : cache.folders.lookup folder.components with
  | some kept =>
    have ran : ((listing files folder).run cache).run state = ((kept,cache),state) := by
      simp only [listing,StateT.run_bind,StateT.run_get,pure_bind,known,StateT.run_pure]
      rfl
    rw [ran]
    exact ⟨agrees _ _ known,agrees⟩
  | none =>
    have fresh := lists folder state
    have ran : ((listing files folder).run cache).run state =
        ((.ofNames ((files.names? folder).run state).1,
          { folders := (folder.components,.ofNames ((files.names? folder).run state).1) :: cache.folders }),
          ((files.names? folder).run state).2) := by
      simp only [listing,StateT.run_bind,StateT.run_get,pure_bind,known]
      rfl
    rw [ran]
    exact ⟨fresh,agrees.cons fresh⟩

theorem find?_gives (lists : files.Lists may) (folder : Path) (name : String) :
    Gives may (find? files folder name) fun path? =>
      ∃ listing, may folder.components listing ∧ path? = (listing.find? name).map folder.join := by
  apply (listing_gives lists folder).bind
  intro listing allowed
  exact gives_pure ⟨listing,allowed,rfl⟩

end FolderCache

theorem FileSystem.Steady.finds (steady : files.Steady contents) (folder : Path) (name : String) :
    FolderCache.Gives contents.shown (FolderCache.find? files folder name)
      (contents.Finds folder name) := by
  apply (FolderCache.find?_gives steady.shows folder name).mono
  rintro _ ⟨listing,shows,rfl⟩
  exact shows.finds name

namespace Disk

def holdings (disk : Disk) : Contents where
  holds key file := ∃ folder : Path, folder.components = key ∧
    (file,.file) ∈ (disk.names? folder).getD []
  isFile path := (disk.find? path).map Entry.kind = some .file

/-- The answers of a disk that lists its folders in another order each time. -/
def restless (disk : Disk) : FileSystem (StateM Nat) where
  workingFolder := return pathOf disk.workingFolder
  kind? path := return (disk.find? path).map Entry.kind
  content? path := return disk.content? path
  names? path := modifyGet fun turn => ((disk.names? path).map (·.rotate turn),turn + 1)
  canonical? path := return (disk.locate? path).map pathOf

theorem restless_steady (disk : Disk) : disk.restless.Steady disk.holdings := by
  constructor
  · intro folder turn file
    have turned : ((disk.restless.names? folder).run turn).1 =
        (disk.names? folder).map (·.rotate turn) := rfl
    have members : (file,.file) ∈ ((disk.restless.names? folder).run turn).1.getD [] ↔
        (file,.file) ∈ (disk.names? folder).getD [] := by
      rw [turned]
      cases disk.names? folder <;> simp
    rw [members]
    constructor
    · intro member
      exact ⟨folder,rfl,member⟩
    · rintro ⟨other,same,member⟩
      rwa [← names?_congr same]
  · intro path turn
    exact Iff.rfl

end Disk
end LoadMap
