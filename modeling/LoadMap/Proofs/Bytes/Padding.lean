import LoadMap.Proofs.Bytes.Range

/-! A file with zeros behind it. What can be read in the file reads the same in the longer one. -/
namespace LoadMap

section Persists

variable {ε α β γ δ : Type} {related : α → β → Prop} {short : Except ε α} {long : Except ε β}

/-- If the first succeeds then so does the second, with a value that is related. -/
def Persists (related : α → β → Prop) (short : Except ε α) (long : Except ε β) : Prop :=
  ∀ value, short = .ok value → ∃ other, long = .ok other ∧ related value other

theorem persists_ok {value : α} {other : β} (here : related value other) :
    Persists related (.ok value : Except ε α) (.ok other) := by
  rintro _ ⟨⟩
  exact ⟨other,rfl,here⟩

theorem persists_error (failure : ε) : Persists related (.error failure) long := nofun

theorem persists_self (outcome : Except ε α) : Persists Eq outcome outcome :=
  fun value made => ⟨value,made,rfl⟩

theorem persists_eq_iff {other : Except ε α} :
    Persists Eq short other ↔ ∀ value, short = .ok value → other = .ok value := by
  refine ⟨fun persists value made => ?_,fun persists value made => ⟨value,persists value made,rfl⟩⟩
  obtain ⟨_,again,rfl⟩ := persists value made
  exact again

theorem Persists.eq_ok {other : Except ε α} (persists : Persists Eq short other) {value : α}
    (made : short = .ok value) : other = .ok value := by
  obtain ⟨_,again,rfl⟩ := persists value made
  exact again

theorem Persists.bind {further : γ → δ → Prop} {more : α → Except ε γ} {next : β → Except ε δ}
    (first : Persists related short long)
    (rest : ∀ value other, related value other → Persists further (more value) (next other)) :
    Persists further (short >>= more) (long >>= next) := by
  intro value made
  obtain ⟨begun,here,there⟩ := Bytes.bind_eq_ok_iff.mp made
  obtain ⟨other,again,same⟩ := first begun here
  rw [again]
  exact rest begun other same value there

theorem Persists.withOk {known : α → Prop} (persists : Persists related short long)
    (holds : ∀ value, short = .ok value → known value) :
    Persists (fun value other => related value other ∧ known value) short long := by
  intro value made
  obtain ⟨other,again,same⟩ := persists value made
  exact ⟨other,again,same,holds value made⟩

theorem Persists.next {again : Except ε α} {further : γ → δ → Prop} {more : α → Except ε γ} {next : α → Except ε δ}
    (first : Persists Eq short again) (rest : ∀ value, Persists further (more value) (next value)) :
    Persists further (short >>= more) (again >>= next) :=
  first.bind fun value _ same => same ▸ rest value

theorem Persists.discard {again : Except ε α} (persists : Persists Eq short again) :
    Persists Eq (Functor.discard short) (Functor.discard again) := by
  rw [persists_eq_iff]
  intro value made
  cases outcome : short with
  | error failure =>
    rw [outcome] at made
    cases made
  | ok given =>
    rw [persists.eq_ok outcome]
    rfl

/-- A check that the first passes and the second passes then as well. -/
theorem persists_if {here there : Prop} [Decidable here] [Decidable there] {failure : ε} {other : Except ε β}
    (passes : here → there) (rest : here → Persists related short long) :
    Persists related (if here then short else .error failure) (if there then long else other) := by
  by_cases passed : here
  · rw [if_pos passed,if_pos (passes passed)]
    exact rest passed
  · rw [if_neg passed]
    exact persists_error failure

theorem persists_unless {here there : Prop} [Decidable here] [Decidable there] {failure : ε} {other : Except ε β}
    (passes : ¬ here → ¬ there) (rest : ¬ here → Persists related short long) :
    Persists related (if here then .error failure else short) (if there then other else long) := by
  by_cases stopped : here
  · rw [if_pos stopped]
    exact persists_error failure
  · rw [if_neg stopped,if_neg (passes stopped)]
    exact rest stopped

theorem persists_mapM {read : γ → Except ε α} {again : γ → Except ε β} {places : List γ}
    (each : ∀ place ∈ places, Persists related (read place) (again place)) :
    Persists (List.Forall₂ related) (places.mapM read) (places.mapM again) := by
  induction places with
  | nil => exact persists_ok .nil
  | cons place places ih =>
    obtain ⟨here,there⟩ := List.forall_mem_cons.mp each
    rw [List.mapM_cons,List.mapM_cons]
    refine here.bind fun first other same => (ih there).bind fun rest others alike => ?_
    exact persists_ok (.cons same alike)

theorem persists_mapM_same {read again : γ → Except ε α} {places : List γ}
    (each : ∀ place ∈ places, Persists Eq (read place) (again place)) :
    Persists Eq (places.mapM read) (places.mapM again) := by
  have whole := persists_mapM each
  rwa [List.forall₂_eq_eq_eq] at whole

end Persists

namespace Bytes

variable {ε α : Type} {short long : ByteArray} {offset start stop count : Nat}

/-- The longer one is the shorter one with zeros behind it. -/
def Padded (short long : ByteArray) : Prop :=
  ∃ count, long.data.toList = short.data.toList ++ List.replicate count 0

theorem padded_padTo (unit : Nat) (bytes : ByteArray) : Padded bytes (padTo unit bytes) := by
  refine ⟨(unit - bytes.size % unit) % unit,?_⟩
  rw [padTo,ByteArray.data_append,Array.toList_append,List.data_toByteArray]

theorem startsWith_iff {bytes : ByteArray} {first : List UInt8} :
    startsWith bytes first = true ↔ first <+: bytes.data.toList := by
  rw [startsWith,beq_iff_eq,toList_eq,ByteArray.data_extract,Array.toList_extract,List.extract_eq_take_drop,
    List.drop_zero,Nat.sub_zero,List.prefix_iff_eq_take]
  exact eq_comm

theorem block?_bounds {bytes part : ByteArray} (found : block? bytes start stop = some part) : stop ≤ bytes.size := by
  rw [block?] at found
  split at found
  · rename_i inside
    exact inside.2
  · cases found

section Padded

variable (padded : Padded short long)
include padded

theorem Padded.size_le : short.size ≤ long.size := by
  obtain ⟨count,same⟩ := padded
  rw [← length_toList,← length_toList,same,List.length_append]
  exact Nat.le_add_right _ _

theorem Padded.eq_of_size (same : long.size ≤ short.size) : long = short := by
  obtain ⟨count,longer⟩ := padded
  rw [← length_toList,← length_toList,longer,List.length_append,List.length_replicate] at same
  obtain rfl : count = 0 := by omega
  rw [List.replicate_zero,List.append_nil] at longer
  exact ByteArray.ext (Array.toList_inj.mp longer)

theorem Padded.getElem? (inside : offset < short.size) : long[offset]? = short[offset]? := by
  obtain ⟨count,same⟩ := padded
  rw [← length_toList] at inside
  rw [getElem?_eq,getElem?_eq,same,List.getElem?_append_left inside]

/-- Behind the end of the file there are zeros. -/
theorem Padded.getElem?_behind (beyond : short.size ≤ offset) (inside : offset < long.size) :
    long[offset]? = some 0 := by
  obtain ⟨count,same⟩ := padded
  rw [← length_toList] at beyond
  rw [← length_toList,same,List.length_append,List.length_replicate] at inside
  rw [getElem?_eq,same,List.getElem?_append_right beyond,List.getElem?_replicate,if_pos (by omega)]

theorem Padded.getD (offset : Nat) : long[offset]?.getD 0 = short[offset]?.getD 0 := by
  by_cases inside : offset < short.size
  · rw [padded.getElem? inside]
  · rw [getElem?_neg short offset inside]
    by_cases within : offset < long.size
    · rw [padded.getElem?_behind (Nat.le_of_not_lt inside) within]
      rfl
    · rw [getElem?_neg long offset within]

theorem Padded.littleEndian (offset count : Nat) : littleEndian long offset count = littleEndian short offset count := by
  induction count generalizing offset with
  | zero => rfl
  | succ count ih => rw [Bytes.littleEndian,Bytes.littleEndian,padded.getD,ih]

theorem Padded.extract (inside : stop ≤ short.size) : long.extract start stop = short.extract start stop := by
  obtain ⟨count,same⟩ := padded
  rw [← length_toList] at inside
  apply ByteArray.ext
  rw [ByteArray.data_extract,ByteArray.data_extract,← Array.toList_inj,Array.toList_extract,Array.toList_extract,
    List.extract_eq_take_drop,List.extract_eq_take_drop,same]
  by_cases order : start ≤ stop
  · rw [List.drop_append_of_le_length (by omega),List.take_append_of_le_length]
    rw [List.length_drop]
    omega
  · rw [Nat.sub_eq_zero_of_le (by omega),List.take_zero,List.take_zero]

theorem Padded.block? {part : ByteArray} (found : block? short start stop = some part) :
    block? long start stop = some part := by
  rw [Bytes.block?] at found ⊢
  split at found
  · rename_i inside
    rw [if_pos ⟨inside.1,inside.2.trans padded.size_le⟩,padded.extract inside.2,found]
  · cases found

theorem Padded.block?_eq (inside : stop ≤ short.size) : Bytes.block? long start stop = Bytes.block? short start stop := by
  rw [Bytes.block?,Bytes.block?,padded.extract inside]
  by_cases order : start ≤ stop
  · rw [if_pos ⟨order,inside.trans padded.size_le⟩,if_pos ⟨order,inside⟩]
  · rw [if_neg (fun both => order both.1),if_neg (fun both => order both.1)]

theorem Padded.number (what : String) (count offset : Nat) :
    Persists Eq (number what count short offset) (number what count long offset) := by
  intro value read
  obtain ⟨inside,rfl⟩ := number_eq_ok_iff.mp read
  exact ⟨_,number_eq_ok_iff.mpr ⟨inside.trans padded.size_le,padded.littleEndian offset count⟩,rfl⟩

theorem Padded.get (inside : offset < short.size) (within : offset < long.size) : long[offset] = short[offset] := by
  have there := padded.getElem? inside
  rw [getElem?_pos long offset within,getElem?_pos short offset inside] at there
  exact Option.some.inj there

theorem Padded.zero? (found : zero? short offset = some stop) : zero? long offset = some stop := by
  fun_induction Bytes.zero? short offset with
  | case1 offset inside zero =>
    have within := Nat.lt_of_lt_of_le inside padded.size_le
    rw [Bytes.zero?,dif_pos within,padded.get inside within,if_pos zero,found]
  | case2 offset inside other ih =>
    have within := Nat.lt_of_lt_of_le inside padded.size_le
    rw [Bytes.zero?,dif_pos within,padded.get inside within,if_neg other]
    exact ih found
  | case3 => cases found

/-- A text that goes on to the end of the file is ended by the first zero behind it. -/
theorem Padded.zero?_behind (endless : Bytes.zero? short offset = none) (begins : offset ≤ short.size) :
    (Bytes.zero? long offset).getD long.size = short.size := by
  fun_induction Bytes.zero? short offset with
  | case1 => cases endless
  | case2 offset inside other ih =>
    have within := Nat.lt_of_lt_of_le inside padded.size_le
    rw [Bytes.zero?,dif_pos within,padded.get inside within,if_neg other]
    exact ih endless inside
  | case3 offset beyond =>
    obtain rfl : offset = short.size := by omega
    by_cases within : short.size < long.size
    · have zero : long[short.size] = 0 := by
        have there := padded.getElem?_behind (Nat.le_refl _) within
        rw [getElem?_pos long _ within] at there
        exact Option.some.inj there
      rw [Bytes.zero?,dif_pos within,if_pos zero]
      rfl
    · rw [Bytes.zero?,dif_neg within]
      exact (Nat.le_of_not_lt within).antisymm padded.size_le

theorem Padded.cString (offset : Nat) : Persists Eq (cString short offset) (cString long offset) := by
  intro text read
  rw [Bytes.cString] at read
  split at read
  · rename_i inside
    split at read
    · rename_i stop found
      have within := (zero?_bounds found).2.1
      rw [Bytes.cString,if_pos (inside.trans padded.size_le),padded.zero? found]
      dsimp only
      rw [padded.extract within.le]
      exact ⟨text,read,rfl⟩
    · cases read
  · cases read

/-- No zero behind the file can be taken for a beginning without zeros. -/
theorem Padded.startsWith {first : List UInt8} (nonzero : 0 ∉ first) :
    startsWith long first = startsWith short first := by
  obtain ⟨count,same⟩ := padded
  rw [Bool.eq_iff_iff,startsWith_iff,startsWith_iff,same]
  refine ⟨fun begins => ?_,fun begins => begins.trans (List.prefix_append _ _)⟩
  rcases Nat.le_total first.length short.data.toList.length with fits | longer
  · exact List.prefix_of_prefix_length_le begins (List.prefix_append _ _) fits
  · obtain ⟨rest,rfl⟩ := List.prefix_of_prefix_length_le (List.prefix_append _ _) begins longer
    have zeros := (List.prefix_append_right_inj _).mp begins
    cases rest with
    | nil => simp
    | cons byte rest =>
      have zero := List.eq_of_mem_replicate (zeros.subset List.mem_cons_self)
      subst zero
      exact absurd (List.mem_append_right _ List.mem_cons_self) nonzero

end Padded

/-- The limit of a table may be higher in the longer file, if the table ends before the lower one. -/
theorem persists_collect {read again : Nat → Except ε (Option α)} {more index : Nat} {done : Array α}
    (each : ∀ index, Persists Eq (read index) (again index)) (room : count ≤ more)
    (ends : count = more ∨ ∃ last < index + count, index ≤ last ∧ ∀ entry, read last ≠ .ok (some entry)) :
    Persists Eq (collect read count index done) (collect again more index done) := by
  induction count generalizing more index done with
  | zero =>
    rcases ends with rfl | ⟨last,_,_,_⟩
    · exact persists_self _
    · omega
  | succ count ih =>
    obtain ⟨more,rfl⟩ := Nat.exists_eq_add_of_le' (Nat.le_trans (Nat.succ_le_succ (Nat.zero_le count)) room)
    intro entries made
    rw [collect] at made ⊢
    cases here : read index with
    | error failure =>
      rw [here] at made
      cases made
    | ok entry? =>
      rw [(each index).eq_ok here]
      rw [here] at made
      cases entry? with
      | none => exact ⟨entries,made,rfl⟩
      | some entry =>
        refine ih (Nat.le_of_succ_le_succ room) ?_ entries made
        rcases ends with same | ⟨last,before,after,stops⟩
        · exact .inl (Nat.succ.inj same)
        · have apart : last ≠ index := by
            rintro rfl
            exact stops entry here
          exact .inr ⟨last,by omega,by omega,stops⟩

end Bytes
end LoadMap
