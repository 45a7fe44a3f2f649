import LoadMap.BinaryStore
import LoadMap.Proofs.Binary
import LoadMap.Proofs.Search.Afresh

/-! Loading with a store that keeps what it has loaded, and with one that maps the file for every request. -/
namespace LoadMap

variable {n : Type → Type} [Monad n] {files : FileSystem Id} {asked : List Path} {path : Path}
  {store : BinaryStore} {answer : Result Binary} {content : ByteArray}

/-- The same binary, whose path may be spelled in another way. -/
structure Binary.Alike (one other : Binary) : Prop where
  path : one.path.components = other.path.components
  rest : other = { one with path := other.path }

namespace Binary.Alike

variable {one other last : Binary}

theorem refl (binary : Binary) : binary.Alike binary := ⟨rfl,rfl⟩

theorem symm (alike : one.Alike other) : other.Alike one := by
  refine ⟨alike.path.symm,?_⟩
  rw [alike.rest]

theorem trans (alike : one.Alike other) (further : other.Alike last) : one.Alike last := by
  refine ⟨alike.path.trans further.path,?_⟩
  rw [further.rest,alike.rest]

end Binary.Alike

/-- The same binary, or failures of one kind. -/
def Result.Alike (one other : Result Binary) : Prop := one.Both Failure.Alike Binary.Alike other

namespace Result.Alike

variable {one other last : Result Binary}

theorem symm (alike : Result.Alike one other) : Result.Alike other one := by
  cases alike with
  | ok related => exact .ok related.symm
  | error related => exact .error related.symm

theorem trans (alike : Result.Alike one other) (further : Result.Alike other last) : Result.Alike one last := by
  cases alike with
  | ok related =>
    cases further with
    | ok more => exact .ok (related.trans more)
  | error related =>
    cases further with
    | error more => exact .error (related.trans more)

/-- Binaries that are told of one path are the very same. -/
theorem eq (alike : Result.Alike one other) (here : ∀ binary, one = .ok binary → binary.path = path)
    (there : ∀ binary, other = .ok binary → binary.path = path) : one.Both Failure.Alike Eq other := by
  cases alike with
  | @ok first second related =>
    have last := related.rest
    rw [there second rfl,← here first rfl] at last
    exact .ok last.symm
  | error related => exact .error related

end Result.Alike

namespace FileSystem

/-- Spellings of one path open one file, if they open any, and one that ends in a name opens if any does. -/
structure ByFile (files : FileSystem Id) : Prop where
  same {left right : Path} {one other : ByteArray} (spelled : left.components = right.components)
    (first : (files.content? left).run = some one) (second : (files.content? right).run = some other) : one = other
  named {path other : Path} (ends : path.EndsInName) (spelled : other.components = path.components)
    (closed : (files.content? path).run = none) : (files.content? other).run = none

def binary (files : FileSystem Id) (path : Path) : Result Binary :=
  (files.read path).run.bind (Binary.ofBytes path)

def mappedBinary (files : FileSystem Id) (path : Path) : Result Binary :=
  (files.readMapped path).run.bind (Binary.ofBytes path)

/-- A request after some others that is answered alike, whether or not binaries are kept: the file reads alike, or it
cannot be opened and has not been loaded by another spelling of its path. -/
structure Indifferent (files : FileSystem Id) (asked : List Path) (path : Path) : Prop where
  opened : ∀ content, (files.content? path).run = some content → Binary.ReadsAlike content
  closed : (files.content? path).run = none → ∀ first ∈ asked, first.components = path.components →
    ∀ binary, files.binary first ≠ .ok binary

theorem binary_eq (path : Path) : files.binary path = (files.read path).run.bind (Binary.ofBytes path) := rfl

theorem mappedBinary_eq (path : Path) :
    files.mappedBinary path = (files.readMapped path).run.bind (Binary.ofBytes path) := rfl

theorem binary_opened (opened : (files.content? path).run = some content) :
    files.binary path = Binary.ofBytes path content := by
  simp only [binary,read,Id.run_bind,opened]
  rfl

theorem binary_closed (closed : (files.content? path).run = none) :
    files.binary path = .error (.file s!"cannot read {path}") := by
  simp only [binary,read,Id.run_bind,closed]
  rfl

theorem mappedBinary_empty (opened : (files.content? path).run = some content) (empty : content.size = 0) :
    files.mappedBinary path = .error (.file s!"cannot map {path}") := by
  simp only [mappedBinary,readMapped,Id.run_bind,opened,if_pos empty]
  rfl

theorem mappedBinary_opened (opened : (files.content? path).run = some content) (filled : content.size ≠ 0) :
    files.mappedBinary path = Binary.ofBytes path (Bytes.padTo pageSize content) := by
  simp only [mappedBinary,readMapped,Id.run_bind,opened,if_neg filled]
  rfl

theorem mappedBinary_closed (closed : (files.content? path).run = none) :
    files.mappedBinary path = .error (.file s!"cannot open {path}") := by
  simp only [mappedBinary,readMapped,Id.run_bind,closed]
  rfl

theorem alike_mappedBinary_iff (opened : (files.content? path).run = some content) :
    Result.Alike (Binary.ofBytes path content) (files.mappedBinary path) ↔ Binary.ReadsAlike content := by
  by_cases filled : content.size = 0
  · rw [mappedBinary_empty opened filled,Binary.ofBytes_empty filled]
    exact iff_of_false nofun fun reads => reads.1 filled
  · rw [mappedBinary_opened opened filled,Binary.readsAlike_iff path,and_iff_right filled]
    exact ⟨fun alike => alike.eq (fun _ => Binary.path_of_ofBytes) fun _ => Binary.path_of_ofBytes,
      fun reads => reads.imp fun _ _ same => same ▸ .refl _⟩

theorem lift_read [LawfulMonad n] (path : Path) :
    (files.lift : FileSystem n).read path = pure (files.read path).run := by
  simp only [read,lift,pure_bind,Id.run_bind]
  cases (files.content? path).run <;> rfl

theorem lift_readMapped [LawfulMonad n] (path : Path) :
    (files.lift : FileSystem n).readMapped path = pure (files.readMapped path).run := by
  simp only [readMapped,lift,pure_bind,Id.run_bind]
  cases (files.content? path).run with
  | none => rfl
  | some content =>
    dsimp only
    split <;> rfl

end FileSystem

theorem Disk.byFile (disk : Disk) : disk.fileSystem.ByFile where
  same spelled first second := content?_spelling spelled first second
  named ends spelled closed := by
    rw [← Option.not_isSome_iff_eq_none,Option.isSome_iff_exists]
    rintro ⟨content,opened⟩
    cases closed.symm.trans (content?_named ends spelled opened)

namespace BinaryStore

open FileSystem

/-- After some requests a store keeps, for every path, the binary of the first spelling that could be loaded. -/
structure Remembers (files : FileSystem Id) (asked : List Path) (store : BinaryStore) : Prop where
  keeps : store.keeps = true
  loaded : ∀ path binary, store.find? path = some binary →
    ∃ first ∈ asked, first.components = path.components ∧ files.binary first = .ok binary
  missing : ∀ path, store.find? path = none → ∀ first ∈ asked, first.components = path.components →
    ∀ binary, files.binary first ≠ .ok binary

/-- What such a store answers. -/
inductive Recalls (files : FileSystem Id) (asked : List Path) (path : Path) : Result Binary → Prop
  | kept {first : Path} {binary : Binary} (earlier : first ∈ asked) (same : first.components = path.components)
      (loaded : files.binary first = .ok binary) : Recalls files asked path (.ok binary)
  | read (missing : ∀ first ∈ asked, first.components = path.components → ∀ binary, files.binary first ≠ .ok binary) :
      Recalls files asked path (files.binary path)

theorem remembers_nothing : Remembers files [] { keeps := true } :=
  ⟨rfl,nofun,fun _ _ => nofun⟩

theorem find?_congr {left right : Path} (same : left.components = right.components) :
    store.find? left = store.find? right := by
  rw [find?,find?,same]

theorem find?_insert (keeps : store.keeps = true) (path other : Path) (binary : Binary) :
    (store.insert path binary).find? other =
      if other.components = path.components then some binary else store.find? other := by
  simp only [find?,insert,keeps,if_true,List.lookup_cons]
  by_cases same : other.components = path.components
  · simp [same]
  · rw [if_neg same,beq_false_of_ne same]

/-- What one more request may add to a store. -/
theorem Remembers.next (remembers : Remembers files asked store) {after : BinaryStore} (keeps : after.keeps = true)
    (kept : ∀ other binary, after.find? other = some binary → store.find? other = some binary ∨
      path.components = other.components ∧ files.binary path = .ok binary)
    (lost : ∀ other, after.find? other = none → store.find? other = none ∧
      (path.components = other.components → ∀ binary, files.binary path ≠ .ok binary)) :
    Remembers files (asked ++ [path]) after := by
  refine ⟨keeps,fun other binary found => ?_,fun other unknown first member same => ?_⟩
  · rcases kept other binary found with earlier | ⟨same,loaded⟩
    · obtain ⟨first,member,rest⟩ := remembers.loaded other binary earlier
      exact ⟨first,List.mem_append_left _ member,rest⟩
    · exact ⟨path,List.mem_append_right _ (List.mem_singleton_self _),same,loaded⟩
  · obtain ⟨before,here⟩ := lost other unknown
    rcases List.mem_append.mp member with earlier | last
    · exact remembers.missing other before first earlier same
    · obtain rfl := List.mem_singleton.mp last
      exact here same

theorem Remembers.again (remembers : Remembers files asked store)
    (known : store.find? path = none → ∀ binary, files.binary path ≠ .ok binary) :
    Remembers files (asked ++ [path]) store :=
  remembers.next remembers.keeps (fun _ _ found => .inl found) fun _ unknown =>
    ⟨unknown,fun same => known (find?_congr same ▸ unknown)⟩

theorem Remembers.insert (remembers : Remembers files asked store) {binary : Binary}
    (loaded : files.binary path = .ok binary) :
    Remembers files (asked ++ [path]) (store.insert path binary) := by
  refine remembers.next remembers.keeps (fun other kept found => ?_) fun other unknown => ?_
  · rw [find?_insert remembers.keeps] at found
    split at found
    · rename_i same
      cases found
      exact .inr ⟨same.symm,loaded⟩
    · exact .inl found
  · rw [find?_insert remembers.keeps] at unknown
    split at unknown
    · cases unknown
    · rename_i apart
      exact ⟨unknown,fun same => absurd same.symm apart⟩

section Load

variable [LawfulMonad n]

/-- What is kept is answered without a look at the file. -/
theorem load_kept (files : FileSystem Id) {binary : Binary} (known : store.find? path = some binary) :
    (load (files.lift : FileSystem n) path).run store = pure (.ok binary,store) := by
  simp only [load,StateT.run_bind,StateT.run_get,pure_bind,known,StateT.run_pure]

/-- Otherwise the file is read, and kept if it could be loaded. -/
theorem load_new (files : FileSystem Id) (keeps : store.keeps = true) (unknown : store.find? path = none) :
    (load (files.lift : FileSystem n) path).run store =
      pure (files.binary path,(files.binary path).toOption.elim store (store.insert path)) := by
  simp only [load,StateT.run_bind,StateT.run_get,StateT.run_monadLift,monadLift_self,pure_bind,unknown,keeps,if_true,
    lift_read,← binary_eq]
  cases files.binary path with
  | error failure => rfl
  | ok binary => simp [Except.toOption]

/-- One request to a store that keeps binaries. -/
theorem load_remembers (remembers : Remembers files asked store) (path : Path) :
    ∃ answer after, (load (files.lift : FileSystem n) path).run store = pure (answer,after) ∧
      Recalls files asked path answer ∧ Remembers files (asked ++ [path]) after := by
  cases known : store.find? path with
  | some binary =>
    obtain ⟨first,earlier,same,loaded⟩ := remembers.loaded path binary known
    refine ⟨.ok binary,store,load_kept files known,.kept earlier same loaded,remembers.again fun unknown => ?_⟩
    rw [known] at unknown
    cases unknown
  | none =>
    refine ⟨_,_,load_new files remembers.keeps known,.read (remembers.missing path known),?_⟩
    cases loading : files.binary path with
    | error failure =>
      refine remembers.again fun _ => ?_
      rw [loading]
      exact fun _ => nofun
    | ok binary => exact remembers.insert loading

/-- One request to a store that keeps nothing. -/
theorem load_mapped (path : Path) : (load (files.lift : FileSystem n) path).run { keeps := false } =
    pure (files.mappedBinary path,{ keeps := false }) := by
  have unknown : find? { keeps := false } path = none := rfl
  simp only [load,StateT.run_bind,StateT.run_get,pure_bind,unknown,Bool.false_eq_true,if_false,
    lift_readMapped,liftM_pure,← mappedBinary_eq]
  cases files.mappedBinary path with
  | error failure => rfl
  | ok binary => simp

end Load

theorem Recalls.alike (byFile : files.ByFile) (recalls : Recalls files asked path answer)
    (opened : (files.content? path).run = some content) : Result.Alike answer (Binary.ofBytes path content) := by
  cases recalls with
  | @kept first binary earlier same loaded =>
    cases there : (files.content? first).run with
    | none =>
      rw [binary_closed there] at loaded
      cases loaded
    | some other =>
      obtain rfl := byFile.same same there opened
      rw [binary_opened there] at loaded
      rw [Binary.ofBytes_path path first,loaded]
      refine .ok ⟨?_,rfl⟩
      rw [Binary.path_of_ofBytes loaded,same]
  | read missing =>
    rw [binary_opened opened]
    exact .self .refl .refl _

theorem Recalls.alike_iff (byFile : files.ByFile) (recalls : Recalls files asked path answer) :
    Result.Alike answer (files.mappedBinary path) ↔ files.Indifferent asked path := by
  cases opened : (files.content? path).run with
  | some content =>
    have same := recalls.alike byFile opened
    have reads := alike_mappedBinary_iff opened
    refine ⟨fun alike => ⟨fun other found => ?_,fun closed => ?_⟩,fun indifferent => ?_⟩
    · rw [opened] at found
      cases found
      exact reads.mp (same.symm.trans alike)
    · rw [opened] at closed
      cases closed
    · exact same.trans (reads.mpr (indifferent.opened content opened))
  | none =>
    -- The file cannot be mapped, so that only an answer from memory differs.
    rw [mappedBinary_closed opened]
    cases recalls with
    | @kept first binary earlier same loaded =>
      exact iff_of_false nofun fun indifferent => indifferent.closed opened first earlier same binary loaded
    | read missing =>
      rw [binary_closed opened]
      refine iff_of_true (.error ⟨rfl,rfl,rfl⟩) ⟨fun content found => ?_,fun _ => missing⟩
      rw [opened] at found
      cases found

/-- The answers of a store to requests in a row. -/
def answers (files : FileSystem Id) (requests : List Path) (store : BinaryStore) : List (Result Binary) :=
  ((requests.mapM (load files)).run store).run.1

theorem answers_cons {after : BinaryStore}
    (ran : (load (files.lift : FileSystem Id) path).run store = pure (answer,after)) (requests : List Path) :
    answers files (path :: requests) store = answer :: answers files requests after := by
  change (load files path).run store = _ at ran
  rw [answers,List.mapM_cons,StateT.run_bind,ran]
  rfl

theorem answers_mapped (requests : List Path) :
    answers files requests { keeps := false } = requests.map files.mappedBinary := by
  induction requests with
  | nil => rfl
  | cons path requests ih => rw [answers_cons (load_mapped (n := Id) path),ih,List.map_cons]

/-- Answers are alike as long as no request makes a difference. -/
theorem answers_alike_iff (byFile : files.ByFile) (remembers : Remembers files asked store) (requests : List Path) :
    List.Forall₂ Result.Alike (answers files requests store) (answers files requests { keeps := false }) ↔
      ∀ before path after, requests = before ++ path :: after → files.Indifferent (asked ++ before) path := by
  rw [answers_mapped]
  -- The requests that are left are answered by a store that has been asked for one path more.
  induction requests generalizing asked store with
  | nil => exact iff_of_true .nil fun before path after split => by simp at split
  | cons path requests ih =>
    obtain ⟨answer,after,ran,recalls,still⟩ := load_remembers (n := Id) remembers path
    rw [answers_cons ran,List.map_cons,List.forall₂_cons,recalls.alike_iff byFile,ih still]
    constructor
    · rintro ⟨first,rest⟩ before other later split
      rcases List.cons_eq_append_iff.mp split with ⟨rfl,same⟩ | ⟨middle,rfl,same⟩
      · cases same
        rwa [List.append_nil]
      · have further := rest middle other later same
        rwa [List.append_assoc] at further
    · intro whole
      refine ⟨?_,fun before other later split => ?_⟩
      · have first := whole [] path requests rfl
        rwa [List.append_nil] at first
      · have further := whole (path :: before) other later (by rw [split,List.cons_append])
        rwa [List.append_assoc]

end BinaryStore
end LoadMap
