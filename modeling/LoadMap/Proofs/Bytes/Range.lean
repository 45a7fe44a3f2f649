import LoadMap.Proofs.Bytes.Table
import LoadMap.Proofs.Text.Utf8

/-! Which failures an action can end with, and that offsets within a file stay within the 64-bit words they are
computed in. -/
namespace LoadMap

open LoadMap.Image (Fault)

section FailsOnly

variable {ε α β : Type} {kind : ε → Prop}

/-- An action that fails, if it does, with a failure of a certain kind. -/
def FailsOnly (kind : ε → Prop) (outcome : Except ε α) : Prop :=
  ∀ failure, outcome = .error failure → kind failure

theorem failsOnly_ok (value : α) : FailsOnly kind (.ok value) := nofun

theorem failsOnly_error {failure : ε} (known : kind failure) : FailsOnly kind (.error failure : Except ε α) := by
  rintro _ ⟨⟩
  exact known

theorem FailsOnly.bind {outcome : Except ε α} {more : α → Except ε β} (first : FailsOnly kind outcome)
    (rest : ∀ value, outcome = .ok value → FailsOnly kind (more value)) : FailsOnly kind (outcome >>= more) := by
  cases outcome with
  | error failure => exact failsOnly_error (first failure rfl)
  | ok value => exact rest value rfl

theorem FailsOnly.map {outcome : Except ε α} (fails : FailsOnly kind outcome) (view : α → β) :
    FailsOnly kind (view <$> outcome) := by
  cases outcome with
  | error failure => exact failsOnly_error (fails failure rfl)
  | ok value => exact failsOnly_ok (view value)

theorem failsOnly_collect {read : Nat → Except ε (Option α)} {limit : Nat}
    (each : ∀ index < limit, FailsOnly kind (read index)) : FailsOnly kind (Bytes.collect read limit 0 #[]) := by
  intro failure failed
  have whole := Bytes.collect_whole read limit
  rw [failed] at whole
  obtain ⟨index,less,here,-⟩ := whole
  exact each index less failure here

theorem failsOnly_mapM {read : α → Except ε β} {places : List α}
    (each : ∀ place ∈ places, FailsOnly kind (read place)) : FailsOnly kind (places.mapM read) := by
  induction places with
  | nil => exact failsOnly_ok []
  | cons place places ih =>
    obtain ⟨here,there⟩ := List.forall_mem_cons.mp each
    rw [List.mapM_cons]
    exact here.bind fun first _ => (ih there).bind fun rest _ => failsOnly_ok (first :: rest)

end FailsOnly

namespace Bytes

variable {α : Type} {bytes : ByteArray} {offset left right table size index count value : Nat}

/-- No offset on the way was too large for a 64-bit word. -/
def InRange (outcome : Except Fault α) : Prop := FailsOnly (· ≠ .offsetOverflow) outcome

theorem inRange_number {what : String} : InRange (number what count bytes offset) := by
  rw [number]
  split
  · exact failsOnly_ok _
  · exact failsOnly_error (by simp)

theorem inRange_cString : InRange (cString bytes offset) := by
  rw [cString]
  split
  · split
    · exact failsOnly_ok _
    · exact failsOnly_error (by simp)
  · exact failsOnly_error (by simp)

theorem inRange_sum (small : left + right < Word.limit 64) : InRange (sum left right) := by
  rw [sum,if_pos small]
  exact failsOnly_ok _

theorem inRange_entry (small : table + size * index < Word.limit 64) : InRange (entry table size index) := by
  rw [entry,if_pos small]
  exact failsOnly_ok _

theorem number_bounds {what : String} (read : number what count bytes offset = .ok value) :
    offset + count ≤ bytes.size ∧ value < 256 ^ count := by
  obtain ⟨inside,rfl⟩ := number_eq_ok_iff.mp read
  exact ⟨inside,littleEndian_lt bytes offset count⟩

/-- A string ends at the first zero, inside the file. -/
theorem zero?_bounds {stop : Nat} (found : zero? bytes offset = some stop) :
    offset ≤ stop ∧ stop < bytes.size ∧ bytes[stop]? = some 0 ∧ ∀ before, offset ≤ before → before < stop →
      bytes[before]? ≠ some 0 := by
  fun_induction zero? bytes offset with
  | case1 offset inside zero =>
    obtain rfl := Option.some.inj found
    refine ⟨Nat.le_refl _,inside,getElem?_eq_some_iff.mpr ⟨inside,zero⟩,?_⟩
    intro before low high
    omega
  | case2 offset inside other ih =>
    obtain ⟨low,high,zero,first⟩ := ih found
    refine ⟨by omega,high,zero,fun before above below => ?_⟩
    rcases Nat.eq_or_lt_of_le above with rfl | later
    · intro same
      exact other (getElem?_eq_some_iff.mp same).2
    · exact first before later below
  | case3 => cases found

/-- A text is not longer than the bytes before its final zero allow. -/
theorem cString_bounds {text : String} (read : cString bytes offset = .ok text) :
    ∃ length, offset + length < bytes.size ∧ text.utf8ByteSize ≤ 4 * length := by
  rw [cString] at read
  split at read
  · split at read
    · rename_i stop found
      obtain ⟨low,high,-⟩ := zero?_bounds found
      obtain rfl := Except.ok.inj read
      have short := Text.Utf8.utf8ByteSize_decodeLossy_le (bytes.extract offset stop).toList
      rw [toList_eq,length_toList,ByteArray.size_extract,← toList_eq] at short
      exact ⟨stop - offset,by omega,by omega⟩
    · cases read
  · cases read

/-- A file that a machine with 64-bit words can hold, together with each text read from it. -/
structure Addressable (bytes : ByteArray) : Prop where
  file : bytes.size < Word.limit 63
  texts : ∀ offset text, cString bytes offset = .ok text → text.utf8ByteSize < Word.limit 63

theorem addressable_of_small (small : bytes.size < Word.limit 61) : Addressable bytes := by
  have limit : Word.limit 63 = 4 * Word.limit 61 := rfl
  refine ⟨by omega,fun offset text read => ?_⟩
  obtain ⟨length,inside,short⟩ := cString_bounds read
  omega

end Bytes
end LoadMap
