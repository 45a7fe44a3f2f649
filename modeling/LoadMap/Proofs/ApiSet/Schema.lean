import LoadMap.ApiSet.Schema
import LoadMap.Proofs.ApiSet.Contract
import LoadMap.Proofs.Bytes.Table
import LoadMap.Proofs.Search.Redirection
import LoadMap.Proofs.Text.Utf16
import Mathlib.Data.List.Dedup
import Mathlib.Data.List.Induction

/-! What a schema says, wherever in its section the strings and the tables of hosts lie: its contracts
are read in order, and of those with one key the last is found. A schema with a part outside the
section is not read at all. -/
namespace LoadMap.ApiSet

open Bytes (Holds digits)
open Word (limit_32 limit_64)

/-- A host as a schema writes it; an empty importer stands for none. -/
structure HostText where
  importer : String
  host : String
  deriving DecidableEq

structure Contract where
  name : String
  hosts : List HostText
  deriving DecidableEq

def HostText.value (text : HostText) : Host :=
  { importer? := if text.importer = "" then none else some text.importer, host := text.host }

def Contract.entry (contract : Contract) : Entry :=
  { name := Text.lowercase contract.name, hosts := contract.hosts.map HostText.value }

section Holds

variable (schema : ByteArray)

def HoldsWord (offset value : Nat) : Prop :=
  value < Word.limit 32 ∧ Holds schema offset (digits 4 value)

instance (offset value : Nat) : Decidable (HoldsWord schema offset value) :=
  inferInstanceAs (Decidable (_ ∧ _))

/-- A record names a place and a length in bytes, and a text stands there. -/
def HoldsText (record : Nat) (text : String) : Prop :=
  ∃ start, HoldsWord schema record start ∧ HoldsWord schema (record + 4) (Text.Utf16.encode text).length ∧
    Holds schema start (Text.Utf16.encode text)

def HoldsHost (record : Nat) (host : HostText) : Prop :=
  HoldsText schema (record + 4) host.importer ∧ HoldsText schema (record + 12) host.host

def HoldsContract (record : Nat) (contract : Contract) : Prop :=
  HoldsText schema (record + 4) contract.name ∧
    ∃ table, HoldsWord schema (record + 16) table ∧ HoldsWord schema (record + 20) contract.hosts.length ∧
      ∀ index host, contract.hosts[index]? = some host → HoldsHost schema (table + 20 * index) host

/-- A section holds a schema of the given contracts. Its strings and tables may lie anywhere in it, in
any order, and share their bytes. -/
def HoldsSchema (contracts : List Contract) : Prop :=
  HoldsWord schema 0 schemaVersion ∧
    ∃ table, HoldsWord schema 12 contracts.length ∧ HoldsWord schema 16 table ∧
      ∀ index contract, contracts[index]? = some contract → HoldsContract schema (table + 24 * index) contract

end Holds

section Reads

variable (schema : ByteArray)

def wordAt (offset : Nat) : Nat := Bytes.littleEndian schema offset 4

/-- A part of a section, given by its offset and its length. -/
def Inside (part : Nat × Nat) : Prop := part.1 + part.2 ≤ schema.size

/-- The parts of a section that are read for a text: two numbers, and what they point to. -/
def textReads (record : Nat) : List (Nat × Nat) :=
  [(record,4),(record + 4,4),(wordAt schema record,wordAt schema (record + 4))]

def hostReads (record : Nat) : List (Nat × Nat) :=
  textReads schema (record + 4) ++ textReads schema (record + 12)

def entryReads (record : Nat) : List (Nat × Nat) :=
  textReads schema (record + 4) ++ [(record + 16,4),(record + 20,4)] ++
    (List.range (wordAt schema (record + 20))).flatMap fun index =>
      hostReads schema (wordAt schema (record + 16) + 20 * index)

/-- Every part of a section that is read for its schema. -/
def schemaReads : List (Nat × Nat) :=
  [(0,4),(12,4),(16,4)] ++
    (List.range (wordAt schema 12)).flatMap fun index => entryReads schema (wordAt schema 16 + 24 * index)

end Reads

variable {schema : ByteArray} {record offset value table index left right : Nat} {text : String}

theorem ofFault_eq_ok_iff {α : Type} {outcome : Except Image.Fault α} {value : α} :
    Result.ofFault outcome = .ok value ↔ outcome = .ok value := by
  cases outcome <;> simp [Result.ofFault]

theorem word_eq_ok_iff : word schema offset = .ok value ↔
    Inside schema (offset,4) ∧ wordAt schema offset = value := by
  rw [word,ofFault_eq_ok_iff,Bytes.u32,Bytes.number_eq_ok_iff]
  rfl

theorem place_eq_ok_iff : place left right = .ok value ↔
    left + right < Word.limit 64 ∧ left + right = value := by
  rw [place,ofFault_eq_ok_iff,Bytes.sum_eq_ok_iff]

theorem wordAt_lt (schema : ByteArray) (offset : Nat) : wordAt schema offset < 4294967296 :=
  Bytes.littleEndian_lt schema offset 4

theorem stringAt_eq_ok_iff (small : record + 4 < Word.limit 64) : stringAt schema record = .ok text ↔
    (∀ part ∈ textReads schema record, Inside schema part) ∧
      Text.Utf16.decodeLossy (schema.extract (wordAt schema record)
        (wordAt schema record + wordAt schema (record + 4))).toList = text := by
  have start := wordAt_lt schema record
  have length := wordAt_lt schema (record + 4)
  have short : wordAt schema record + wordAt schema (record + 4) < Word.limit 64 := by
    rw [limit_64]
    omega
  simp only [stringAt,Bytes.bind_eq_ok_iff,word_eq_ok_iff,place_eq_ok_iff,textReads,List.forall_mem_cons,
    Bytes.block?]
  constructor
  · rintro ⟨_,⟨first,rfl⟩,_,⟨-,rfl⟩,_,⟨second,rfl⟩,_,⟨-,rfl⟩,ended⟩
    split at ended
    · rename_i block cut
      obtain ⟨⟨-,within⟩,same⟩ := Option.ite_none_right_eq_some.mp cut
      obtain rfl := Option.some.inj same
      exact ⟨⟨first,second,within,List.forall_mem_nil _⟩,Except.ok.inj ended⟩
    · cases ended
  · rintro ⟨⟨first,second,within,-⟩,rfl⟩
    refine ⟨_,⟨first,rfl⟩,_,⟨small,rfl⟩,_,⟨second,rfl⟩,_,⟨short,rfl⟩,?_⟩
    rw [if_pos ⟨Nat.le_add_right _ _,within⟩]
    rfl

theorem hostAt_eq_ok_iff {host : Host} (small : table + 20 * index + 12 < Word.limit 64) :
    hostAt schema table index = .ok host ↔ ∃ text : HostText,
      stringAt schema (table + 20 * index + 4) = .ok text.importer ∧
        stringAt schema (table + 20 * index + 12) = .ok text.host ∧ text.value = host := by
  simp only [hostAt,Bytes.bind_eq_ok_iff,ofFault_eq_ok_iff,Bytes.entry_eq_ok_iff,place_eq_ok_iff]
  constructor
  · rintro ⟨_,⟨-,rfl⟩,_,⟨-,rfl⟩,importer,first,_,⟨-,rfl⟩,name,second,made⟩
    exact ⟨⟨importer,name⟩,first,second,Except.ok.inj made⟩
  · rintro ⟨text,first,second,rfl⟩
    exact ⟨_,⟨by omega,rfl⟩,_,⟨by omega,rfl⟩,_,first,_,⟨by omega,rfl⟩,_,second,rfl⟩

theorem entryAt_eq_ok_iff {entry : Entry} (small : table + 24 * index + 20 < Word.limit 64) :
    entryAt schema table index = .ok entry ↔ ∃ name hosts,
      stringAt schema (table + 24 * index + 4) = .ok name ∧
        Inside schema (table + 24 * index + 16,4) ∧ Inside schema (table + 24 * index + 20,4) ∧
        Bytes.collect (fun host => some <$> hostAt schema (wordAt schema (table + 24 * index + 16)) host)
          (wordAt schema (table + 24 * index + 20)) 0 #[] = .ok hosts ∧
        { name := Text.lowercase name, hosts } = entry := by
  simp only [entryAt,Bytes.bind_eq_ok_iff,ofFault_eq_ok_iff,Bytes.entry_eq_ok_iff,place_eq_ok_iff,word_eq_ok_iff]
  constructor
  · rintro ⟨_,⟨-,rfl⟩,_,⟨-,rfl⟩,name,first,_,⟨-,rfl⟩,_,⟨second,rfl⟩,_,⟨-,rfl⟩,_,⟨third,rfl⟩,hosts,read,made⟩
    exact ⟨name,hosts,first,second,third,read,Except.ok.inj made⟩
  · rintro ⟨name,hosts,first,second,third,read,rfl⟩
    exact ⟨_,⟨by omega,rfl⟩,_,⟨by omega,rfl⟩,name,first,_,⟨by omega,rfl⟩,_,⟨second,rfl⟩,_,⟨small,rfl⟩,_,
      ⟨third,rfl⟩,hosts,read,rfl⟩

theorem ofSchema_eq_ok_iff {map : ApiSetMap} : ApiSetMap.ofSchema schema = .ok map ↔
    wordAt schema 0 = schemaVersion ∧ (∀ part ∈ [(0,4),(12,4),(16,4)], Inside schema part) ∧ ∃ entries,
      Bytes.collect (fun index => some <$> entryAt schema (wordAt schema 16) index) (wordAt schema 12) 0 #[] =
        .ok entries ∧ ApiSetMap.ofEntries entries = map := by
  rw [ApiSetMap.ofSchema,Bytes.bind_eq_ok_iff]
  constructor
  · rintro ⟨_,known,rest⟩
    obtain ⟨first,rfl⟩ := word_eq_ok_iff.mp known
    by_cases supported : wordAt schema 0 = schemaVersion
    · simp only [supported,if_true,Bytes.bind_eq_ok_iff,word_eq_ok_iff] at rest
      obtain ⟨_,⟨second,rfl⟩,_,⟨third,rfl⟩,entries,read,made⟩ := rest
      exact ⟨supported,by simp [first,second,third],entries,read,Except.ok.inj made⟩
    · simp only [supported,if_false] at rest
      obtain ⟨_,thrown,-⟩ := Bytes.bind_eq_ok_iff.mp rest
      cases thrown
  · rintro ⟨supported,inside,entries,read,rfl⟩
    simp only [List.forall_mem_cons] at inside
    obtain ⟨first,second,third,-⟩ := inside
    refine ⟨_,word_eq_ok_iff.mpr ⟨first,rfl⟩,?_⟩
    simp only [supported,if_true,Bytes.bind_eq_ok_iff,word_eq_ok_iff]
    exact ⟨_,⟨second,rfl⟩,_,⟨third,rfl⟩,entries,read,rfl⟩

theorem HoldsWord.inside (holds : HoldsWord schema offset value) : Inside schema (offset,4) :=
  Bytes.length_digits 4 value ▸ holds.2.inside

theorem HoldsWord.wordAt (holds : HoldsWord schema offset value) : wordAt schema offset = value :=
  holds.2.littleEndian holds.1

theorem HoldsText.stringAt (holds : HoldsText schema record text) (small : record + 4 < Word.limit 64) :
    stringAt schema record = .ok text := by
  obtain ⟨start,first,second,stands⟩ := holds
  have block := stands.block?
  rw [Bytes.block?,if_pos ⟨Nat.le_add_right _ _,stands.inside⟩,Option.some.injEq] at block
  rw [stringAt_eq_ok_iff small,textReads,first.wordAt,second.wordAt,block,Bytes.toList_eq,
    List.data_toByteArray,Text.Utf16.decodeLossy_encode]
  simp only [List.forall_mem_cons,and_true]
  exact ⟨first.inside,second.inside,stands.inside,List.forall_mem_nil _⟩

theorem HoldsHost.hostAt {host : HostText} (holds : HoldsHost schema (table + 20 * index) host)
    (small : table + 20 * index + 16 < Word.limit 64) : hostAt schema table index = .ok host.value :=
  (hostAt_eq_ok_iff (by omega)).mpr ⟨host,holds.1.stringAt (by omega),holds.2.stringAt (by omega),rfl⟩

theorem HoldsContract.entryAt {contract : Contract} (holds : HoldsContract schema (table + 24 * index) contract)
    (small : table + 24 * index + 20 < Word.limit 64) : entryAt schema table index = .ok contract.entry := by
  obtain ⟨name,start,first,second,hosts⟩ := holds
  refine (entryAt_eq_ok_iff small).mpr
    ⟨contract.name,_,name.stringAt (by omega),first.inside,second.inside,?_,rfl⟩
  rw [first.wordAt,second.wordAt,Bytes.collect_some_eq_ok_iff]
  refine ⟨List.length_map _,fun index host found => ?_⟩
  rw [List.getElem?_map,Option.map_eq_some_iff] at found
  obtain ⟨text,listed,rfl⟩ := found
  have low := limit_32 ▸ first.1
  have short := limit_32 ▸ second.1
  obtain ⟨less,-⟩ := List.getElem?_eq_some_iff.mp listed
  exact (hosts index text listed).hostAt (by rw [limit_64]; omega)

theorem stringAt_succeeds_iff (small : record + 4 < Word.limit 64) :
    (∃ text, stringAt schema record = .ok text) ↔ ∀ part ∈ textReads schema record, Inside schema part := by
  simp only [stringAt_eq_ok_iff small,exists_and_left,exists_eq',and_true]

theorem hostAt_succeeds_iff (small : table + 20 * index + 16 < Word.limit 64) :
    (∃ host, hostAt schema table index = .ok host) ↔
      ∀ part ∈ hostReads schema (table + 20 * index), Inside schema part := by
  rw [hostReads,List.forall_mem_append,← stringAt_succeeds_iff (by omega),← stringAt_succeeds_iff (by omega)]
  constructor
  · rintro ⟨host,read⟩
    obtain ⟨text,first,second,-⟩ := (hostAt_eq_ok_iff (by omega)).mp read
    exact ⟨⟨text.importer,first⟩,⟨text.host,second⟩⟩
  · rintro ⟨⟨importer,first⟩,⟨host,second⟩⟩
    exact ⟨_,(hostAt_eq_ok_iff (by omega)).mpr ⟨⟨importer,host⟩,first,second,rfl⟩⟩

theorem entryAt_succeeds_iff (small : table + 24 * index + 20 < Word.limit 64) :
    (∃ entry, entryAt schema table index = .ok entry) ↔
      ∀ part ∈ entryReads schema (table + 24 * index), Inside schema part := by
  have start := wordAt_lt schema (table + 24 * index + 16)
  have count := wordAt_lt schema (table + 24 * index + 20)
  have hosts : (∃ hosts, Bytes.collect
        (fun host => some <$> hostAt schema (wordAt schema (table + 24 * index + 16)) host)
        (wordAt schema (table + 24 * index + 20)) 0 #[] = .ok hosts) ↔
      ∀ host < wordAt schema (table + 24 * index + 20),
        ∀ part ∈ hostReads schema (wordAt schema (table + 24 * index + 16) + 20 * host),
          Inside schema part := by
    rw [Bytes.collect_some_succeeds_iff]
    exact forall₂_congr fun host less => hostAt_succeeds_iff (by rw [limit_64]; omega)
  simp only [entryReads,List.forall_mem_append,List.forall_mem_cons,List.forall_mem_flatMap,List.mem_range,
    ← hosts,← stringAt_succeeds_iff (show table + 24 * index + 4 + 4 < Word.limit 64 by omega)]
  constructor
  · rintro ⟨entry,read⟩
    obtain ⟨name,hosts,first,second,third,read,-⟩ := (entryAt_eq_ok_iff small).mp read
    exact ⟨⟨⟨name,first⟩,second,third,List.forall_mem_nil _⟩,hosts,read⟩
  · rintro ⟨⟨⟨name,first⟩,second,third,-⟩,hosts,read⟩
    exact ⟨_,(entryAt_eq_ok_iff small).mpr ⟨name,hosts,first,second,third,read,rfl⟩⟩

theorem schemaReads_inside_iff : (∀ part ∈ schemaReads schema, Inside schema part) ↔
    (∀ part ∈ [(0,4),(12,4),(16,4)], Inside schema part) ∧ ∃ entries,
      Bytes.collect (fun index => some <$> entryAt schema (wordAt schema 16) index) (wordAt schema 12) 0 #[] =
        .ok entries := by
  have start := wordAt_lt schema 16
  have count := wordAt_lt schema 12
  rw [schemaReads,List.forall_mem_append,List.forall_mem_flatMap,Bytes.collect_some_succeeds_iff]
  refine and_congr_right fun _ => forall_congr' fun index => ?_
  rw [List.mem_range]
  exact forall_congr' fun less => (entryAt_succeeds_iff (by rw [limit_64]; omega)).symm

end LoadMap.ApiSet

namespace LoadMap

section Insert

variable {α β : Type} [DecidableEq β] (key : α → β) (entries : List α) (entry : α)

theorem find?_insert (wanted : β) :
    (entries.filter (key · ≠ key entry) ++ [entry]).find? (key · = wanted) =
      if key entry = wanted then some entry else entries.find? (key · = wanted) := by
  rw [List.find?_append,List.find?_filter]
  by_cases same : key entry = wanted
  · rw [if_pos same,List.find?_eq_none.mpr]
    · simp [same]
    · intro other _ kept
      simp [same] at kept
  · rw [if_neg same,List.find?_singleton]
    simp only [same,decide_false,Bool.false_eq_true,if_false,Option.or_none]
    congr 1
    funext other
    by_cases named : key other = wanted
    · simp [named,Ne.symm same]
    · simp [named]

theorem mem_keys_insert (wanted : β) :
    wanted ∈ (entries.filter (key · ≠ key entry) ++ [entry]).map key ↔
      wanted ∈ entries.map key ∨ wanted = key entry := by
  simp only [List.map_append,List.map_singleton,List.mem_append,List.mem_singleton,List.mem_map,List.mem_filter,
    decide_eq_true_eq]
  constructor
  · rintro (⟨other,⟨listed,-⟩,rfl⟩ | same)
    · exact .inl ⟨other,listed,rfl⟩
    · exact .inr same
  · rintro (⟨other,listed,rfl⟩ | same)
    · exact or_iff_not_imp_right.mpr fun apart => ⟨other,⟨listed,apart⟩,rfl⟩
    · exact .inr same

end Insert

namespace ApiSetMap

open ApiSet
open Bytes (digits)
open Word (limit_32 limit_64)

variable (entries : List Entry)

theorem ofEntries_concat (entry : Entry) : ofEntries (entries ++ [entry]) = (ofEntries entries).insert entry := by
  rw [ofEntries,List.foldl_append]
  rfl

theorem lookup?_insert (map : ApiSetMap) (entry : Entry) (name : String) : (map.insert entry).lookup? name =
    if hashedName entry.name = hashedName name then some entry else map.lookup? name :=
  find?_insert (fun entry : Entry => hashedName entry.name) map.entries entry (hashedName name)

/-- Of the entries with one key the last is found. -/
theorem lookup?_ofEntries (name : String) :
    (ofEntries entries).lookup? name = entries.reverse.find? (hashedName ·.name = hashedName name) := by
  induction entries using List.reverseRecOn with
  | nil => rfl
  | append_singleton entries entry ih =>
    rw [ofEntries_concat,lookup?_insert,ih,List.reverse_concat,List.find?_cons]
    by_cases same : hashedName entry.name = hashedName name
    · rw [if_pos same,decide_eq_true same]
    · rw [if_neg same,decide_eq_false same]

theorem mem_keys_ofEntries (key : String) :
    key ∈ (ofEntries entries).entries.map (hashedName ·.name) ↔ key ∈ entries.map (hashedName ·.name) := by
  induction entries using List.reverseRecOn with
  | nil => rfl
  | append_singleton entries entry ih =>
    rw [ofEntries_concat,List.map_append,List.mem_append,← ih,List.map_singleton,List.mem_singleton]
    exact mem_keys_insert (fun entry : Entry => hashedName entry.name) (ofEntries entries).entries entry key

theorem size_ofEntries : (ofEntries entries).size = (entries.map (hashedName ·.name)).dedup.length := by
  have same := (List.perm_ext_iff_of_nodup (keyed_ofEntries entries) (List.nodup_dedup _)).mpr fun key =>
    (mem_keys_ofEntries entries key).trans List.mem_dedup.symm
  rw [size,← same.length_eq,List.length_map]

/-- A section with a schema is read: a name leads to the last of the contracts that have its key, and there are
as many entries as keys. A section is refused exactly when its version is another one or a part to be read
leaves it. -/
theorem ofSchema_decodes (schema : ByteArray) :
    (∀ contracts, HoldsSchema schema contracts → ∃ map, ofSchema schema = .ok map ∧
      (∀ name, map.lookup? name = (contracts.reverse.find? fun contract =>
        hashedName contract.name = hashedName name).map Contract.entry) ∧
      map.size = (contracts.map (hashedName ·.name)).dedup.length) ∧
    ((∃ failure, ofSchema schema = .error failure) ↔
      wordAt schema 0 ≠ schemaVersion ∨ ∃ part ∈ schemaReads schema, ¬ Inside schema part) := by
  constructor
  · rintro contracts ⟨version,table,first,second,stands⟩
    have read : ofSchema schema = .ok (ofEntries (contracts.map Contract.entry)) := by
      refine ofSchema_eq_ok_iff.mpr ⟨version.wordAt,?_,_,?_,rfl⟩
      · simp only [List.forall_mem_cons]
        exact ⟨version.inside,first.inside,second.inside,List.forall_mem_nil _⟩
      rw [first.wordAt,second.wordAt,Bytes.collect_some_eq_ok_iff]
      refine ⟨List.length_map _,fun index entry found => ?_⟩
      rw [List.getElem?_map,Option.map_eq_some_iff] at found
      obtain ⟨contract,listed,rfl⟩ := found
      have count := limit_32 ▸ first.1
      have start := limit_32 ▸ second.1
      obtain ⟨less,-⟩ := List.getElem?_eq_some_iff.mp listed
      exact (stands index contract listed).entryAt (by rw [limit_64]; omega)
    refine ⟨_,read,fun name => ?_,?_⟩
    · rw [lookup?_ofEntries,← List.map_reverse,List.find?_map]
      simp only [Function.comp_def,Contract.entry,hashedName_lowercase]
    · rw [size_ofEntries,List.map_map]
      simp only [Function.comp_def,Contract.entry,hashedName_lowercase]
  · rw [← not_iff_not]
    push Not
    rw [schemaReads_inside_iff]
    constructor
    · intro succeeds
      cases read : ofSchema schema with
      | error failure => exact absurd read (succeeds failure)
      | ok map =>
        obtain ⟨version,inside,entries,all,-⟩ := ofSchema_eq_ok_iff.mp read
        exact ⟨version,inside,entries,all⟩
    · rintro ⟨version,inside,entries,all⟩ failure failed
      rw [ofSchema_eq_ok_iff.mpr ⟨version,inside,entries,all,rfl⟩] at failed
      cases failed

/-- Two contracts with one key. They share a host, whose name begins with the importer of the other host. -/
def sharedContracts : List Contract :=
  [⟨"Api-1-0",[⟨"","a😀"⟩]⟩,⟨"API-1-2",[⟨"","a😀"⟩,⟨"a","😀"⟩]⟩]

/-- Records of numbers, then the strings, then the table of hosts. -/
def sharedSchema : ByteArray :=
  let words := fun numbers : List Nat => numbers.flatMap (digits 4)
  ⟨(words [6,0,0,2,20] ++ words [0,68,14,0,102,1] ++ words [0,82,14,0,102,2] ++ Text.Utf16.encode "Api-1-0" ++
    Text.Utf16.encode "API-1-2" ++ Text.Utf16.encode "a😀" ++ words [0,96,0,96,6] ++
    words [0,96,2,98,4]).toArray⟩

theorem ofSchema_decodes_shared : HoldsSchema sharedSchema sharedContracts ∧
    (∃ map, ofSchema sharedSchema = .ok map ∧
      map.lookup? "api-1-7.Dll" = some ⟨"api-1-2",[⟨none,"a😀"⟩,⟨some "a","😀"⟩]⟩ ∧
      map.lookup? "api-2-0" = none ∧ map.size = 1) ∧
    ∃ failure, ofSchema (sharedSchema.extract 0 141) = .error failure := by
  have word : ∀ stands ∈ [(0,6),(12,2),(16,20),(24,68),(28,14),(36,102),(40,1),(48,82),(52,14),(60,102),(64,2),
      (106,96),(110,0),(114,96),(118,6),(126,96),(130,2),(134,98),(138,4)],
      HoldsWord sharedSchema stands.1 stands.2 := by decide +kernel
  have first : HoldsHost sharedSchema 102 ⟨"","a😀"⟩ :=
    ⟨⟨96,word (106,96) (by decide),word (110,0) (by decide),by decide +kernel⟩,
      ⟨96,word (114,96) (by decide),word (118,6) (by decide),by decide +kernel⟩⟩
  have second : HoldsHost sharedSchema 122 ⟨"a","😀"⟩ :=
    ⟨⟨96,word (126,96) (by decide),word (130,2) (by decide),by decide +kernel⟩,
      ⟨98,word (134,98) (by decide),word (138,4) (by decide),by decide +kernel⟩⟩
  have holds : HoldsSchema sharedSchema sharedContracts := by
    refine ⟨word (0,6) (by decide),20,word (12,2) (by decide),word (16,20) (by decide),?_⟩
    rintro (_ | _ | index) contract found
    · obtain rfl := Option.some.inj found
      refine ⟨⟨68,word (24,68) (by decide),word (28,14) (by decide),by decide +kernel⟩,
        102,word (36,102) (by decide),word (40,1) (by decide),?_⟩
      rintro (_ | index) host found
      · obtain rfl := Option.some.inj found
        exact first
      · cases found
    · obtain rfl := Option.some.inj found
      refine ⟨⟨82,word (48,82) (by decide),word (52,14) (by decide),by decide +kernel⟩,
        102,word (60,102) (by decide),word (64,2) (by decide),?_⟩
      rintro (_ | _ | index) host found
      · obtain rfl := Option.some.inj found
        exact first
      · obtain rfl := Option.some.inj found
        exact second
      · cases found
    · cases found
  refine ⟨holds,?_,?_⟩
  · obtain ⟨map,read,found,size⟩ := (ofSchema_decodes sharedSchema).1 sharedContracts holds
    refine ⟨map,read,?_,?_,?_⟩
    · rw [found]
      decide +kernel
    · rw [found]
      decide +kernel
    · rw [size]
      decide +kernel
  · refine (ofSchema_decodes _).2.mpr (.inr ⟨(138,4),by decide +kernel,by rw [Inside]; decide +kernel⟩)

end ApiSetMap
end LoadMap
