import LoadMap.Proofs.Bytes
import Mathlib.Data.List.Forall2

/-! Tables are read entry by entry, and whole: a fault of one entry is a fault of the table. -/
namespace LoadMap.Bytes

variable {ε α : Type} {read : Nat → Except ε (Option α)} {limit : Nat}

/-- What the reading of a table comes to: all entries up to the end mark or the limit, or the fault of
the first entry that has one. -/
def Whole (read : Nat → Except ε (Option α)) (limit : Nat) : Except ε (List α) → Prop
  | .ok entries => entries.length ≤ limit ∧
      (∀ index entry, entries[index]? = some entry → read index = .ok (some entry)) ∧
      (entries.length < limit → read entries.length = .ok none)
  | .error fault => ∃ index < limit, read index = .error fault ∧
      ∀ earlier < index, ∃ entry, read earlier = .ok (some entry)

theorem collect_done (count index : Nat) (done : Array α) :
    collect read count index done = (collect read count index #[]).map (done.toList ++ ·) := by
  induction count generalizing index done with
  | zero => simp [collect,Except.map]
  | succ count ih =>
    rw [collect,collect]
    cases read index with
    | error fault => rfl
    | ok entry? =>
      cases entry? with
      | none => simp [Except.map]
      | some entry =>
        dsimp only
        rw [ih _ (done.push entry),ih _ (Array.push #[] entry)]
        cases collect read count (index + 1) #[] <;> simp [Except.map]

theorem Whole.cons {outcome : Except ε (List α)} {first : α} (here : read 0 = .ok (some first))
    (whole : Whole (fun index => read (index + 1)) limit outcome) :
    Whole read (limit + 1) (outcome.map (first :: ·)) := by
  cases outcome with
  | ok entries =>
    obtain ⟨short,listed,ended⟩ := whole
    refine ⟨Nat.succ_le_succ short,?_,fun less => ended (Nat.lt_of_succ_lt_succ less)⟩
    rintro (_ | index) entry found
    · rw [here,← found]
      rfl
    · exact listed index entry found
  | error fault =>
    obtain ⟨index,less,failed,before⟩ := whole
    refine ⟨index + 1,Nat.succ_lt_succ less,failed,?_⟩
    rintro (_ | earlier) sooner
    · exact ⟨first,here⟩
    · exact before earlier (Nat.lt_of_succ_lt_succ sooner)

theorem collect_from_whole (read : Nat → Except ε (Option α)) (limit start : Nat) :
    Whole (fun index => read (start + index)) limit (collect read limit start #[]) := by
  induction limit generalizing start with
  | zero => exact ⟨Nat.le_refl 0,nofun,nofun⟩
  | succ limit ih =>
    rw [collect]
    cases here : read start with
    | error fault => exact ⟨0,Nat.succ_pos limit,here,nofun⟩
    | ok entry? =>
      cases entry? with
      | none => exact ⟨Nat.zero_le _,nofun,fun _ => here⟩
      | some entry =>
        dsimp only
        rw [collect_done]
        have rest := ih (start + 1)
        simp only [Nat.add_assoc,Nat.add_comm 1] at rest
        exact Whole.cons here rest

theorem collect_whole (read : Nat → Except ε (Option α)) (limit : Nat) :
    Whole read limit (collect read limit 0 #[]) := by
  simpa only [Nat.zero_add] using collect_from_whole read limit 0

theorem map_some_eq_ok_iff {outcome : Except ε α} {value : α} :
    some <$> outcome = .ok (some value) ↔ outcome = .ok value := by
  cases outcome <;> simp [Functor.map,Except.map]

theorem map_some_ne_none (outcome : Except ε α) : some <$> outcome ≠ .ok none := by
  cases outcome <;> simp [Functor.map,Except.map]

/-- The entries of a table that has no end mark, none of them left out. -/
structure Full (read : Nat → Except ε α) (count : Nat) (entries : List α) : Prop where
  count : entries.length = count
  listed : ∀ index entry, entries[index]? = some entry → read index = .ok entry

theorem collect_some_eq_ok_iff {read : Nat → Except ε α} {entries : List α} :
    collect (fun index => some <$> read index) limit 0 #[] = .ok entries ↔ Full read limit entries := by
  have whole := collect_whole (fun index => some <$> read index) limit
  constructor
  · intro made
    rw [made] at whole
    obtain ⟨short,listed,ended⟩ := whole
    refine ⟨short.antisymm (Nat.le_of_not_lt fun less => map_some_ne_none _ (ended less)),?_⟩
    exact fun index entry found => map_some_eq_ok_iff.mp (listed index entry found)
  · rintro ⟨rfl,listed⟩
    cases made : collect (fun index => some <$> read index) entries.length 0 #[] with
    | error fault =>
      rw [made] at whole
      obtain ⟨index,less,failed,-⟩ := whole
      simp only [listed index _ (List.getElem?_eq_getElem less)] at failed
      cases failed
    | ok others =>
      rw [made] at whole
      obtain ⟨short,found,ended⟩ := whole
      have long : others.length = entries.length :=
        short.antisymm (Nat.le_of_not_lt fun less => map_some_ne_none _ (ended less))
      refine congrArg Except.ok (List.ext_getElem long fun index here there => ?_)
      have first := map_some_eq_ok_iff.mp (found index _ (List.getElem?_eq_getElem here))
      rw [listed index _ (List.getElem?_eq_getElem there)] at first
      exact (Except.ok.inj first).symm

theorem collect_some_succeeds_iff {read : Nat → Except ε α} :
    (∃ entries, collect (fun index => some <$> read index) limit 0 #[] = .ok entries) ↔
      ∀ index < limit, ∃ entry, read index = .ok entry := by
  have whole := collect_whole (fun index => some <$> read index) limit
  constructor
  · rintro ⟨entries,made⟩ index less
    obtain ⟨rfl,listed⟩ := collect_some_eq_ok_iff.mp made
    exact ⟨entries[index],listed index _ (List.getElem?_eq_getElem less)⟩
  · intro all
    cases made : collect (fun index => some <$> read index) limit 0 #[] with
    | ok entries => exact ⟨entries,rfl⟩
    | error fault =>
      rw [made] at whole
      obtain ⟨index,less,failed,-⟩ := whole
      obtain ⟨entry,found⟩ := all index less
      simp only [found] at failed
      cases failed

theorem mapM_eq_ok_iff {β : Type} {read : β → Except ε α} {places : List β} {entries : List α} :
    places.mapM read = .ok entries ↔ List.Forall₂ (fun place entry => read place = .ok entry) places entries := by
  induction places generalizing entries with
  | nil => simp [pure,Except.pure,eq_comm]
  | cons place places ih =>
    simp only [List.mapM_cons,bind_eq_ok_iff,ih]
    constructor
    · rintro ⟨first,here,rest,there,made⟩
      obtain rfl := Except.ok.inj made
      exact .cons here there
    · rintro (_ | @⟨_,first,_,rest,here,there⟩)
      exact ⟨first,here,rest,there,rfl⟩

theorem mapM_eq_ok_map_iff {β : Type} {read : β → Except ε α} {places : List β} {view : β → α} :
    places.mapM read = .ok (places.map view) ↔ ∀ place ∈ places, read place = .ok (view place) := by
  rw [mapM_eq_ok_iff,List.forall₂_map_right_iff,List.forall₂_same]

/-- When it is known what each entry needs and comes to, so it is for the table. -/
theorem mapM_eq_ok_iff_of_each {β : Type} {read : β → Except ε α} {places : List β} {entries : List α}
    (fine : β → Prop) (value : β → α)
    (each : ∀ place entry, read place = .ok entry ↔ fine place ∧ entry = value place) :
    places.mapM read = .ok entries ↔ (∀ place ∈ places, fine place) ∧ entries = places.map value := by
  constructor
  · intro made
    have all := mapM_eq_ok_iff.mp made
    simp only [each,List.forall₂_and_left] at all
    refine ⟨all.1,?_⟩
    rw [← List.forall₂_eq_eq_eq,List.forall₂_map_right_iff]
    exact all.2.flip
  · rintro ⟨all,rfl⟩
    exact mapM_eq_ok_map_iff.mpr fun place listed => (each place _).mpr ⟨all place listed,rfl⟩

/-- A table whose entries are known is read like a list of them, up to the limit. -/
theorem collect_from_eq_mapM {β : Type} {read : Nat → Except ε (Option α)} {each : β → Except ε α} {entries : List β}
    {start : Nat}
    (listed : ∀ index (less : index < entries.length), index < limit →
      read (start + index) = some <$> each entries[index])
    (ended : entries.length < limit → read (start + entries.length) = .ok none) :
    collect read limit start #[] = (entries.take limit).mapM each := by
  induction limit generalizing entries start with
  | zero => rfl
  | succ limit ih =>
    rw [collect]
    cases entries with
    | nil =>
      rw [show read start = .ok none from ended (Nat.succ_pos limit)]
      rfl
    | cons first rest =>
      have here : read start = some <$> each first := listed 0 (Nat.succ_pos _) (Nat.succ_pos _)
      have others : collect read limit (start + 1) #[] = (rest.take limit).mapM each := by
        refine ih (fun index less more => ?_) fun less => ?_
        · rw [Nat.add_assoc,Nat.add_comm 1]
          exact listed (index + 1) (Nat.succ_lt_succ less) (Nat.succ_lt_succ more)
        · rw [Nat.add_assoc,Nat.add_comm 1]
          exact ended (Nat.succ_lt_succ less)
      rw [List.take_succ_cons,List.mapM_cons,here]
      cases each first with
      | error fault => rfl
      | ok value =>
        show collect read limit (start + 1) (Array.push #[] value) = _
        rw [collect_done,others]
        cases (rest.take limit).mapM each <;> rfl

theorem collect_eq_mapM {β : Type} {read : Nat → Except ε (Option α)} {each : β → Except ε α} {entries : List β}
    (listed : ∀ index (less : index < entries.length), index < limit → read index = some <$> each entries[index])
    (ended : entries.length < limit → read entries.length = .ok none) :
    collect read limit 0 #[] = (entries.take limit).mapM each :=
  collect_from_eq_mapM (fun index less more => (Nat.zero_add index).symm ▸ listed index less more)
    (fun less => (Nat.zero_add _).symm ▸ ended less)

theorem mapM_range_eq_ok_iff {read : Nat → Except ε α} {entries : List α} :
    (List.range limit).mapM read = .ok entries ↔ Full read limit entries := by
  rw [mapM_eq_ok_iff,List.forall₂_iff_get]
  constructor
  · rintro ⟨same,each⟩
    have count : limit = entries.length := by rwa [List.length_range] at same
    refine ⟨count.symm,fun index entry found => ?_⟩
    obtain ⟨less,rfl⟩ := List.getElem?_eq_some_iff.mp found
    simpa using each index (same ▸ less) less
  · rintro ⟨count,listed⟩
    refine ⟨by rw [List.length_range,count],fun index _ less => ?_⟩
    simpa using listed index _ (List.getElem?_eq_getElem less)

end LoadMap.Bytes
