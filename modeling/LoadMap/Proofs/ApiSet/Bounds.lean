import LoadMap.Proofs.ApiSet.Schema
import LoadMap.Proofs.Bytes.Range

/-! Whatever bytes a schema is read from: offsets stay within 64-bit words, and no contract or host that cannot
be read is passed over. -/
namespace LoadMap.ApiSet

open Bytes (InRange Full)
open Word (limit_32 limit_64)

/-- What a schema can be refused for. -/
def Refusal (failure : Failure) : Prop :=
  (∃ fault, failure = .malformedImage fault ∧ fault ≠ .offsetOverflow) ∨ ∃ fault, failure = .schema fault

variable {schema : ByteArray} {table index left right : Nat}

theorem refusal_ofFault {α : Type} {outcome : Except Image.Fault α} (inRange : InRange outcome) :
    FailsOnly Refusal (Result.ofFault outcome) := by
  cases outcome with
  | error fault => exact failsOnly_error (.inl ⟨fault,rfl,inRange fault rfl⟩)
  | ok value => exact failsOnly_ok value

theorem word_refusal (schema : ByteArray) (offset : Nat) : FailsOnly Refusal (word schema offset) :=
  refusal_ofFault Bytes.inRange_number

theorem place_refusal (small : left + right < Word.limit 64) : FailsOnly Refusal (place left right) :=
  refusal_ofFault (Bytes.inRange_sum small)

theorem stringAt_refusal {record : Nat} (small : record + 4 < Word.limit 64) :
    FailsOnly Refusal (stringAt schema record) := by
  have limit := limit_64
  rw [stringAt]
  refine (word_refusal schema record).bind fun start first => ?_
  refine (place_refusal small).bind fun place _ => (word_refusal schema place).bind fun length second => ?_
  obtain ⟨-,rfl⟩ := word_eq_ok_iff.mp first
  obtain ⟨-,rfl⟩ := word_eq_ok_iff.mp second
  have low := wordAt_lt schema record
  have short := wordAt_lt schema place
  refine (place_refusal (by omega)).bind fun stop _ => ?_
  split
  · exact failsOnly_ok _
  · exact failsOnly_error (.inr ⟨_,rfl⟩)

theorem hostAt_refusal (small : table + 20 * index + 16 < Word.limit 64) :
    FailsOnly Refusal (hostAt schema table index) := by
  rw [hostAt]
  refine (refusal_ofFault (Bytes.inRange_entry (by omega))).bind fun record made => ?_
  obtain ⟨-,rfl⟩ := Bytes.entry_eq_ok_iff.mp (ofFault_eq_ok_iff.mp made)
  refine (place_refusal (by omega)).bind fun first made => ?_
  obtain ⟨-,rfl⟩ := place_eq_ok_iff.mp made
  refine (stringAt_refusal (by omega)).bind fun importer _ => (place_refusal (by omega)).bind fun second made => ?_
  obtain ⟨-,rfl⟩ := place_eq_ok_iff.mp made
  exact (stringAt_refusal (by omega)).bind fun host _ => failsOnly_ok _

theorem entryAt_refusal (small : table + 24 * index + 20 < Word.limit 64) :
    FailsOnly Refusal (entryAt schema table index) := by
  have limit := limit_64
  rw [entryAt]
  refine (refusal_ofFault (Bytes.inRange_entry (by omega))).bind fun record made => ?_
  obtain ⟨-,rfl⟩ := Bytes.entry_eq_ok_iff.mp (ofFault_eq_ok_iff.mp made)
  refine (place_refusal (by omega)).bind fun first made => ?_
  obtain ⟨-,rfl⟩ := place_eq_ok_iff.mp made
  refine (stringAt_refusal (by omega)).bind fun name _ => (place_refusal (by omega)).bind fun second _ => ?_
  refine (word_refusal schema second).bind fun hostTable start => ?_
  refine (place_refusal small).bind fun third _ => (word_refusal schema third).bind fun hostCount count => ?_
  obtain ⟨-,rfl⟩ := word_eq_ok_iff.mp start
  obtain ⟨-,rfl⟩ := word_eq_ok_iff.mp count
  have low := wordAt_lt schema second
  have few := wordAt_lt schema third
  exact FailsOnly.bind (failsOnly_collect fun host less => (hostAt_refusal (by omega)).map some) fun hosts _ =>
    failsOnly_ok _

theorem ofSchema_refusal (schema : ByteArray) : FailsOnly Refusal (ApiSetMap.ofSchema schema) := by
  have limit := limit_64
  rw [ApiSetMap.ofSchema]
  refine (word_refusal schema 0).bind fun version _ => ?_
  split
  · refine (word_refusal schema 12).bind fun count first => (word_refusal schema 16).bind fun table second => ?_
    obtain ⟨-,rfl⟩ := word_eq_ok_iff.mp first
    obtain ⟨-,rfl⟩ := word_eq_ok_iff.mp second
    have few := wordAt_lt schema 12
    have low := wordAt_lt schema 16
    exact FailsOnly.bind (failsOnly_collect fun index less => (entryAt_refusal (by omega)).map some)
      fun entries _ => failsOnly_ok _
  · exact failsOnly_error (.inr ⟨_,rfl⟩)

/-- How a schema is read: no offset is too large for its word, neither a contract nor a host is left out, and each
part that was to be read lies inside. -/
structure InBounds (schema : ByteArray) : Prop where
  offsets : FailsOnly Refusal (ApiSetMap.ofSchema schema)
  inside : ∀ map, ApiSetMap.ofSchema schema = .ok map → ∀ part ∈ schemaReads schema, Inside schema part
  contracts : ∀ map, ApiSetMap.ofSchema schema = .ok map → ∃ entries,
    Full (entryAt schema (wordAt schema 16)) (wordAt schema 12) entries ∧ map = ApiSetMap.ofEntries entries
  hosts : ∀ table < Word.limit 32, ∀ index < Word.limit 32, ∀ entry, entryAt schema table index = .ok entry →
    Full (hostAt schema (wordAt schema (table + 24 * index + 16))) (wordAt schema (table + 24 * index + 20))
      entry.hosts

theorem inBounds (schema : ByteArray) : InBounds schema where
  offsets := ofSchema_refusal schema
  inside := by
    intro map read
    obtain ⟨-,head,entries,all,-⟩ := ofSchema_eq_ok_iff.mp read
    exact schemaReads_inside_iff.mpr ⟨head,entries,all⟩
  contracts := by
    intro map read
    obtain ⟨-,-,entries,all,made⟩ := ofSchema_eq_ok_iff.mp read
    exact ⟨entries,Bytes.collect_some_eq_ok_iff.mp all,made.symm⟩
  hosts := by
    intro table low index few entry read
    have limit := limit_64
    rw [limit_32] at low few
    obtain ⟨name,hosts,-,-,-,all,rfl⟩ := (entryAt_eq_ok_iff (by omega)).mp read
    exact Bytes.collect_some_eq_ok_iff.mp all

end LoadMap.ApiSet
