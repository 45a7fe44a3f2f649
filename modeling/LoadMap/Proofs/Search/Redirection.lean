import LoadMap.ApiSet.Schema
import LoadMap.KnownDlls
import LoadMap.Proofs.Bytes
import LoadMap.Proofs.Text.Lowercase
import Mathlib.Data.List.Nodup

/-! The tables that redirect a search, each with one entry for a name: the modules that the system
knows and the contracts of its schema. However such a table is made, a question for a name comes to
the entry that has it. -/
namespace LoadMap

theorem lookup_iff_mem {α β : Type} [BEq α] [LawfulBEq α] {entries : List (α × β)} {key : α} {value : β}
    (distinct : (entries.map Prod.fst).Nodup) :
    entries.lookup key = some value ↔ (key,value) ∈ entries := by
  rw [List.lookup_eq_some_iff]
  constructor
  · rintro ⟨before,after,rfl,-⟩
    exact List.mem_append_cons_self
  · intro member
    obtain ⟨before,after,rfl⟩ := List.append_of_mem member
    refine ⟨before,after,rfl,fun other earlier => ?_⟩
    rw [List.map_append,List.map_cons,List.nodup_middle,List.nodup_cons] at distinct
    rw [bne_iff_ne]
    intro same
    apply distinct.1
    exact List.mem_append_left _ (List.mem_map.mpr ⟨other,earlier,same.symm⟩)

theorem nodup_insert {α β : Type} [DecidableEq β] {key : α → β} {entries : List α}
    (distinct : (entries.map key).Nodup) (entry : α) :
    ((entries.filter (key · ≠ key entry) ++ [entry]).map key).Nodup := by
  rw [List.map_append,List.map_singleton,List.nodup_append]
  refine ⟨distinct.sublist (List.filter_sublist.map key),List.nodup_singleton _,?_⟩
  rintro _ member _ new same
  obtain ⟨kept,filtered,rfl⟩ := List.mem_map.mp member
  have apart := List.of_mem_filter filtered
  rw [same,List.mem_singleton.mp new] at apart
  simp at apart

theorem Text.Ascii.equalIgnoringCase_iff {left right : String} :
    equalIgnoringCase left right ↔ lower left = lower right :=
  beq_iff_eq

namespace KnownDlls

variable {known : KnownDlls} {name : String} {path : Path}

/-- A list with an entry for each name, written in small letters. -/
structure Keyed (known : KnownDlls) : Prop where
  distinct : (known.entries.map Prod.fst).Nodup
  small : ∀ entry ∈ known.entries, Text.Ascii.lower entry.1 = entry.1

/-- A list has a name, whatever the case of its ASCII letters. -/
def Has (known : KnownDlls) (name : String) (path : Path) : Prop :=
  ∃ key, (key,path) ∈ known.entries ∧ Text.Ascii.equalIgnoringCase key name

theorem Keyed.find?_eq_some_iff (keyed : known.Keyed) : known.find? name = some path ↔ known.Has name path := by
  rw [find?,lookup_iff_mem keyed.distinct]
  constructor
  · intro member
    refine ⟨_,member,?_⟩
    rw [Text.Ascii.equalIgnoringCase_iff,Text.Ascii.lower_lower]
  · rintro ⟨key,member,same⟩
    have small := keyed.small _ member
    rw [Text.Ascii.equalIgnoringCase_iff] at same
    rwa [← same,small]

theorem Keyed.insert (keyed : known.Keyed) (name : String) (path : Path) : (known.insert name path).Keyed := by
  constructor
  · exact nodup_insert keyed.distinct (Text.Ascii.lower name,path)
  · intro entry member
    rcases List.mem_append.mp member with kept | new
    · exact keyed.small entry (List.mem_of_mem_filter kept)
    · obtain rfl := List.mem_singleton.mp new
      exact Text.Ascii.lower_lower name

theorem keyed_empty : Keyed {} := ⟨List.nodup_nil,fun _ member => nomatch member⟩

theorem keyed_ofNames (names : List String) (folder : Path) : (ofNames names folder).Keyed := by
  rw [ofNames]
  generalize (names.map Text.trim).filter (· ≠ "") = names
  have from_keyed : ∀ known : KnownDlls, known.Keyed →
      (names.foldl (fun known name => known.insert name (folder.join name)) known).Keyed := by
    induction names with
    | nil => exact fun _ keyed => keyed
    | cons name rest ih => exact fun known keyed => ih _ (keyed.insert name _)
  exact from_keyed {} keyed_empty

end KnownDlls

namespace ApiSetMap

open ApiSet

variable {map : ApiSetMap} {name : String} {entry : Entry}

def Keyed (map : ApiSetMap) : Prop := (map.entries.map (hashedName ·.name)).Nodup

theorem Keyed.lookup?_eq_some_iff (keyed : map.Keyed) :
    map.lookup? name = some entry ↔ entry ∈ map.entries ∧ hashedName entry.name = hashedName name := by
  constructor
  · intro found
    exact ⟨List.mem_of_find?_eq_some found,by simpa using List.find?_some found⟩
  · rintro ⟨member,same⟩
    cases found : map.lookup? name with
    | none =>
      rw [lookup?,List.find?_eq_none] at found
      exact absurd (decide_eq_true same) (found entry member)
    | some other =>
      have listed := List.mem_of_find?_eq_some found
      have named : hashedName other.name = hashedName name := by simpa using List.find?_some found
      rw [List.inj_on_of_nodup_map keyed listed member (named.trans same.symm)]

theorem Keyed.insert (keyed : map.Keyed) (entry : Entry) : (map.insert entry).Keyed :=
  nodup_insert keyed entry

theorem keyed_ofEntries (entries : List Entry) : (ofEntries entries).Keyed := by
  have from_keyed : ∀ map : ApiSetMap, map.Keyed → (entries.foldl ApiSetMap.insert map).Keyed := by
    induction entries with
    | nil => exact fun _ keyed => keyed
    | cons entry rest ih => exact fun map keyed => ih _ (keyed.insert entry)
  exact from_keyed {} List.nodup_nil

theorem keyed_ofSchema {schema : ByteArray} {map : ApiSetMap} (read : ofSchema schema = .ok map) :
    map.Keyed := by
  rw [ofSchema] at read
  obtain ⟨version,-,read⟩ := Bytes.bind_eq_ok_iff.mp read
  by_cases supported : version = schemaVersion
  · simp only [supported,if_true] at read
    obtain ⟨count,-,read⟩ := Bytes.bind_eq_ok_iff.mp read
    obtain ⟨table,-,read⟩ := Bytes.bind_eq_ok_iff.mp read
    obtain ⟨entries,-,read⟩ := Bytes.bind_eq_ok_iff.mp read
    cases read
    exact keyed_ofEntries entries
  · simp only [supported,if_false] at read
    obtain ⟨nothing,thrown,-⟩ := Bytes.bind_eq_ok_iff.mp read
    cases thrown

theorem keyed_ofImage {content : ByteArray} (read : ofImage? content = .ok (some map)) : map.Keyed := by
  obtain ⟨view,-,read⟩ := Bytes.bind_eq_ok_iff.mp read
  split at read
  · cases read
  · obtain ⟨schema,-,read⟩ := Bytes.bind_eq_ok_iff.mp read
    obtain ⟨other,made,read⟩ := Bytes.bind_eq_ok_iff.mp read
    cases read
    exact keyed_ofSchema made

end ApiSetMap
end LoadMap
