import LoadMap.Proofs.BinaryStore

/-! A store of binaries over a disk whose files are written and removed between the requests. What was loaded once is
answered from then on, whatever happens to its file; what could not be loaded is looked for anew. -/
namespace LoadMap

inductive Event
  | write (path : Path) (content : ByteArray)
  | remove (path : Path)
  | load (path : Path)

def Event.change : Event → Disk → Disk
  | .write path content => (·.write path content)
  | .remove path => (·.remove path)
  | .load _ => id

/-- A disk at some moment, and what has been kept up to then. -/
structure Scene where
  disk : Disk
  store : BinaryStore

namespace Scene

variable {scene : Scene} {events : List Event} {event : Event} {path other : Path} {binary : Binary}

def answer (scene : Scene) (path : Path) : Result Binary :=
  ((BinaryStore.load scene.disk.fileSystem path).run scene.store).run.1

def step (scene : Scene) (event : Event) : Scene where
  disk := event.change scene.disk
  store := match event with
    | .load path => ((BinaryStore.load scene.disk.fileSystem path).run scene.store).run.2
    | _ => scene.store

def after (scene : Scene) (events : List Event) : Scene := events.foldl step scene

/-- A disk, and a store that keeps binaries and has none yet. -/
def fresh (disk : Disk) : Scene := ⟨disk,{ keeps := true }⟩

/-- One of the events is a request that was answered with a binary. -/
def Loaded (scene : Scene) (events : List Event) (path : Path) (binary : Binary) : Prop :=
  ∃ before first later, events = before ++ .load first :: later ∧ first.components = path.components ∧
    (scene.after before).answer first = .ok binary

section Request

theorem answer_kept (known : scene.store.find? path = some binary) :
    scene.answer path = .ok binary ∧ scene.step (.load path) = scene := by
  have ran := BinaryStore.load_kept (n := Id) scene.disk.fileSystem known
  change (BinaryStore.load scene.disk.fileSystem path).run scene.store = _ at ran
  rw [answer,step,ran]
  exact ⟨rfl,rfl⟩

theorem answer_new (keeps : scene.store.keeps = true) (unknown : scene.store.find? path = none) :
    scene.answer path = scene.disk.fileSystem.binary path ∧
      scene.step (.load path) = { scene with
        store := (scene.answer path).toOption.elim scene.store (scene.store.insert path) } := by
  have ran := BinaryStore.load_new (n := Id) scene.disk.fileSystem keeps unknown
  change (BinaryStore.load scene.disk.fileSystem path).run scene.store = _ at ran
  rw [answer,step,ran]
  exact ⟨rfl,rfl⟩

end Request

section Step

variable (keeps : scene.store.keeps = true)
include keeps

/-- An event leaves the store as it is, or adds the binary of a path that had none. -/
theorem step_store (event : Event) : (scene.step event).store = scene.store ∨
    ∃ path binary, event = .load path ∧ scene.store.find? path = none ∧ scene.answer path = .ok binary ∧
      (scene.step event).store = scene.store.insert path binary := by
  cases event with
  | write path content => exact .inl rfl
  | remove path => exact .inl rfl
  | load path =>
    cases known : scene.store.find? path with
    | some binary => exact .inl (congrArg Scene.store (answer_kept known).2)
    | none =>
      obtain ⟨-,stepped⟩ := answer_new keeps known
      cases loading : scene.answer path with
      | error failure =>
        rw [loading] at stepped
        exact .inl (congrArg Scene.store stepped)
      | ok binary =>
        rw [loading] at stepped
        exact .inr ⟨path,binary,rfl,known,loading,congrArg Scene.store stepped⟩

theorem step_keeps (event : Event) : (scene.step event).store.keeps = true := by
  rcases step_store keeps event with same | ⟨path,binary,-,-,-,added⟩
  · rwa [same]
  · rwa [added]

theorem step_known (known : scene.store.find? path = some binary) (event : Event) :
    (scene.step event).store.find? path = some binary := by
  rcases step_store keeps event with same | ⟨first,new,-,unknown,-,added⟩
  · rwa [same]
  · rw [added,BinaryStore.find?_insert keeps]
    split
    -- The new entry is for a path that had none.
    · rename_i spelled
      rw [BinaryStore.find?_congr spelled,unknown] at known
      cases known
    · exact known

theorem step_origin (known : (scene.step event).store.find? path = some binary) :
    scene.store.find? path = some binary ∨ ∃ first, event = .load first ∧ first.components = path.components ∧
      scene.answer first = .ok binary := by
  rcases step_store keeps event with same | ⟨first,new,rfl,-,loaded,added⟩
  · exact .inl (same ▸ known)
  · rw [added,BinaryStore.find?_insert keeps] at known
    split at known
    · rename_i spelled
      cases known
      exact .inr ⟨first,rfl,spelled.symm,loaded⟩
    · exact .inl known

theorem step_kept (distinct : (scene.store.kept.map Prod.fst).Nodup) (event : Event) :
    scene.store.kept <:+ (scene.step event).store.kept ∧ ((scene.step event).store.kept.map Prod.fst).Nodup := by
  rcases step_store keeps event with same | ⟨first,new,-,unknown,-,added⟩
  · rw [same]
    exact ⟨List.suffix_rfl,distinct⟩
  · rw [added]
    refine ⟨List.suffix_cons _ _,?_⟩
    rw [BinaryStore.find?,if_pos keeps,List.lookup_eq_none_iff] at unknown
    simp only [BinaryStore.insert,List.map_cons,List.nodup_cons]
    refine ⟨fun member => ?_,distinct⟩
    obtain ⟨entry,listed,same⟩ := List.mem_map.mp member
    simpa [same] using unknown entry listed

end Step

section Run

variable (keeps : scene.store.keeps = true)
include keeps

theorem after_keeps (events : List Event) : (scene.after events).store.keeps = true := by
  induction events generalizing scene with
  | nil => exact keeps
  | cons event events ih => exact ih (step_keeps keeps event)

theorem after_known (known : scene.store.find? path = some binary) (events : List Event) :
    (scene.after events).store.find? path = some binary := by
  induction events generalizing scene with
  | nil => exact known
  | cons event events ih => exact ih (step_keeps keeps event) (step_known keeps known event)

theorem after_origin (known : (scene.after events).store.find? path = some binary) :
    scene.store.find? path = some binary ∨ scene.Loaded events path binary := by
  induction events generalizing scene with
  | nil => exact .inl known
  | cons event events ih =>
    rcases ih (step_keeps keeps event) known with already | ⟨before,first,later,rfl,same,loaded⟩
    · refine (step_origin keeps already).imp_right ?_
      rintro ⟨first,rfl,same,loaded⟩
      exact ⟨[],first,events,rfl,same,loaded⟩
    · exact .inr ⟨event :: before,first,later,rfl,same,loaded⟩

theorem after_kept (distinct : (scene.store.kept.map Prod.fst).Nodup) (events : List Event) :
    scene.store.kept <:+ (scene.after events).store.kept ∧
      ((scene.after events).store.kept.map Prod.fst).Nodup := by
  induction events generalizing scene with
  | nil => exact ⟨List.suffix_rfl,distinct⟩
  | cons event events ih =>
    obtain ⟨more,still⟩ := step_kept keeps distinct event
    obtain ⟨further,last⟩ := ih (step_keeps keeps event) still
    exact ⟨more.trans further,last⟩

/-- A request that is answered with a binary leaves it in the store. -/
theorem step_loaded (loaded : scene.answer path = .ok binary) :
    (scene.step (.load path)).store.find? path = some binary := by
  cases known : scene.store.find? path with
  | some other =>
    obtain ⟨same,stays⟩ := answer_kept known
    rw [stays,known]
    exact congrArg some (Except.ok.inj (same.symm.trans loaded))
  | none =>
    obtain ⟨-,stepped⟩ := answer_new keeps known
    rw [stepped,loaded]
    exact (BinaryStore.find?_insert keeps path path binary).trans (if_pos rfl)

end Run

theorem after_append (scene : Scene) (before later : List Event) :
    scene.after (before ++ later) = (scene.after before).after later := List.foldl_append

theorem after_disk (scene : Scene) (events : List Event) :
    (scene.after events).disk = events.foldl (fun disk event => event.change disk) scene.disk := by
  induction events generalizing scene with
  | nil => rfl
  | cons event events ih => exact ih (scene.step event)

/-- As long as no request for a path was answered with a binary, the file is read as it has become by now, and a
request that fails changes nothing. From the first binary on every request for the path, in any spelling, is answered
with this one: it comes out of the store, where no entry ever takes the place of another. -/
theorem loads_memoised (disk : Disk) (before : List Event) (path : Path) :
    let now := (fresh disk).after before
    now.disk = before.foldl (fun disk event => event.change disk) disk ∧
    ((∀ binary, ¬ (fresh disk).Loaded before path binary) →
      now.answer path = now.disk.fileSystem.binary path) ∧
    (∀ failure, now.answer path = .error failure → now.step (.load path) = now) ∧
    ∀ binary, now.answer path = .ok binary → ∀ later other, other.components = path.components →
      let afterwards := (fresh disk).after (before ++ .load path :: later)
      afterwards.answer other = .ok binary ∧ afterwards.step (.load other) = afterwards ∧
        (now.step (.load path)).store.kept <:+ afterwards.store.kept ∧
        (afterwards.store.kept.map Prod.fst).Nodup := by
  intro now
  have empty : (fresh disk).store.keeps = true := rfl
  have keeps : now.store.keeps = true := after_keeps empty before
  have distinct : (now.store.kept.map Prod.fst).Nodup :=
    (after_kept empty List.nodup_nil before).2
  refine ⟨after_disk _ _,fun never => ?_,fun failure failed => ?_,fun binary loaded later other same => ?_⟩
  · cases known : now.store.find? path with
    | some binary =>
      rcases after_origin empty known with already | loaded
      · cases already
      · exact absurd loaded (never binary)
    | none => exact (answer_new keeps known).1
  · cases known : now.store.find? path with
    | some binary =>
      rw [(answer_kept known).1] at failed
      cases failed
    | none =>
      have stepped := (answer_new keeps known).2
      rwa [failed] at stepped
  · intro afterwards
    have split : afterwards = (now.step (.load path)).after later := after_append _ _ _
    have still := step_keeps keeps (.load path)
    have kept : afterwards.store.find? other = some binary := by
      rw [split,BinaryStore.find?_congr same]
      exact after_known still (step_loaded keeps loaded) later
    obtain ⟨answered,stays⟩ := answer_kept kept
    rw [split] at answered stays ⊢
    exact ⟨answered,stays,after_kept still (step_kept keeps distinct (.load path)).2 later⟩

/-- A library that is broken at first. -/
def patched : Disk where
  workingFolder := ["app"]
  entries := [(["app"],.folder),(["app","a.dll"],.file "MZ".toUTF8)]

theorem loads_memoised_patched :
    let path : Path := ⟨"/app/./a.dll"⟩
    let broken : List Event := [.load ⟨"a.dll"⟩]
    let mended : List Event := [.load ⟨"a.dll"⟩,.load path,.write ⟨"a.dll"⟩ "text".toUTF8]
    let lost : List Event := [.write path "MZ".toUTF8,.load ⟨"gone.dll"⟩,.load ⟨"/app/a.dll"⟩,.remove ⟨"a.dll"⟩]
    let afterwards := (fresh patched).after (mended ++ .load path :: lost)
    (∃ failure, ((fresh patched).after broken).answer path = .error failure ∧
      ((fresh patched).after broken).step (.load path) = (fresh patched).after broken) ∧
    (∀ binary, ¬ (fresh patched).Loaded mended path binary) ∧
    ((fresh patched).after mended).answer path =
      (mended.foldl (fun disk event => event.change disk) patched).fileSystem.binary path ∧
    afterwards.disk.content? path = none ∧
    ∃ binary, ((fresh patched).after mended).answer path = .ok binary ∧
      afterwards.answer ⟨"/app//a.dll"⟩ = .ok binary := by
  intro path broken mended lost afterwards
  have fails : (((fresh patched).after broken).answer path).toOption.isSome = false := by decide +kernel
  have loads : (((fresh patched).after mended).answer path).toOption.isSome = true := by decide +kernel
  obtain ⟨-,-,unchanged,-⟩ := loads_memoised patched broken path
  obtain ⟨now,reads,-,remains⟩ := loads_memoised patched mended path
  have never : ∀ binary, ¬ (fresh patched).Loaded mended path binary := by
    rintro binary ⟨before,first,later,split,same,loaded⟩
    rcases List.cons_eq_append_iff.mp split with ⟨rfl,here⟩ | ⟨before,rfl,rest⟩
    · simp only [List.cons.injEq,Event.load.injEq] at here
      obtain ⟨rfl,-⟩ := here
      exact absurd same (by decide +kernel)
    rcases List.cons_eq_append_iff.mp rest with ⟨rfl,here⟩ | ⟨before,rfl,last⟩
    · simp only [List.cons.injEq,Event.load.injEq] at here
      obtain ⟨rfl,-⟩ := here
      rw [loaded] at fails
      cases fails
    · simp [List.cons_eq_append_iff] at last
  refine ⟨?_,never,?_,by decide +kernel,?_⟩
  · cases answered : ((fresh patched).after broken).answer path with
    | ok binary =>
      rw [answered] at fails
      cases fails
    | error failure => exact ⟨failure,rfl,unchanged failure answered⟩
  · rw [← now]
    exact reads never
  · cases answered : ((fresh patched).after mended).answer path with
    | ok binary =>
      exact ⟨binary,rfl,(remains binary answered lost ⟨"/app//a.dll"⟩ (by decide +kernel)).1⟩
    | error failure =>
      rw [answered] at loads
      cases loads

end Scene
end LoadMap
