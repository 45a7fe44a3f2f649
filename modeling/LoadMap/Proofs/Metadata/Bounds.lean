import LoadMap.Metadata.References
import LoadMap.Proofs.Metadata.Directory
import LoadMap.Proofs.Metadata.Layout
import Mathlib.Algebra.Order.BigOperators.Group.List

/-! Whatever bytes metadata is read from: offsets stay within 64-bit words, indices within the arrays, and a
stream, a row count or a row that cannot be read is not passed over. -/
namespace LoadMap.Metadata

open Bytes (InRange Full Addressable inRange_number inRange_sum inRange_entry inRange_cString bind_eq_ok_iff
  sum_value number_bounds cString_bounds)
open Word (limit_64)

variable {root stream : ByteArray}

section Streams

theorem scanStreams_inRange (addressable : Addressable root) (count header : Nat) (found : Found) :
    InRange (scanStreams root count header found) := by
  have limit := limit_64
  have half : Word.limit 63 = 9223372036854775808 := rfl
  have file := addressable.file
  induction count generalizing header found with
  | zero => exact failsOnly_ok found
  | succ count ih =>
    rw [scanStreams]
    refine inRange_number.bind fun offset first => ?_
    have here := number_bounds first
    refine (inRange_sum (by omega)).bind fun place _ => inRange_number.bind fun size second => ?_
    have there := number_bounds second
    refine (inRange_sum (by omega)).bind fun nameOffset made => ?_
    obtain rfl := sum_value made
    refine inRange_cString.bind fun name read => ?_
    obtain ⟨length,inside,short⟩ := cString_bounds read
    have text := addressable.texts _ name read
    refine (inRange_sum (by omega)).bind fun stop _ => ?_
    split
    · exact failsOnly_error (by simp)
    · -- The next header lies behind the padded name. A text of one byte is short, and any other leaves at
      -- least two bytes of the file behind it.
      refine (inRange_sum ?_).bind fun next _ => ih next _
      rw [paddedLength]
      omega

theorem streams_inRange (addressable : Addressable root) : InRange (streams root) := by
  have limit := limit_64
  rw [streams]
  refine inRange_number.bind fun signature _ => ?_
  split
  · refine inRange_number.bind fun versionLength read => ?_
    have short := (number_bounds read).2
    refine (inRange_sum (by omega)).bind fun directory made => ?_
    obtain rfl := sum_value made
    refine (inRange_sum (by omega)).bind fun place _ => inRange_number.bind fun count _ => ?_
    refine (inRange_sum (by omega)).bind fun header _ => ?_
    refine (scanStreams_inRange addressable count header {}).bind fun found _ => ?_
    split
    · exact failsOnly_ok _
    · exact failsOnly_error (by simp)
  · exact failsOnly_error (by simp)

/-- Streams as their headers stand one after the other: a place, a length, and a name, behind which the next header
begins. -/
inductive StreamsAt (root : ByteArray) : (header : Nat) → List (String × ByteArray) → Prop
  | nil {header : Nat} : StreamsAt root header []
  | cons {header offset size : Nat} {name : String} {rest : List (String × ByteArray)}
      (place : Bytes.u32 root header = .ok offset) (length : Bytes.u32 root (header + 4) = .ok size)
      (text : Bytes.cString root (header + 8) = .ok name) (inside : offset + size ≤ root.size)
      (others : StreamsAt root (header + 8 + paddedLength name) rest) :
      StreamsAt root header ((name,root.extract offset (offset + size)) :: rest)

theorem scanStreams_ok {count header : Nat} {found result : Found}
    (read : scanStreams root count header found = .ok result) :
    ∃ listed, StreamsAt root header listed ∧ listed.length = count ∧
      result = listed.foldl (fun found stream => found.note stream.1 stream.2) found := by
  induction count generalizing header found with
  | zero =>
    obtain rfl := Except.ok.inj read
    exact ⟨[],.nil,rfl,rfl⟩
  | succ count ih =>
    rw [scanStreams] at read
    obtain ⟨offset,place,read⟩ := bind_eq_ok_iff.mp read
    obtain ⟨sizePlace,made,read⟩ := bind_eq_ok_iff.mp read
    obtain rfl := sum_value made
    obtain ⟨size,length,read⟩ := bind_eq_ok_iff.mp read
    obtain ⟨nameOffset,made,read⟩ := bind_eq_ok_iff.mp read
    obtain rfl := sum_value made
    obtain ⟨name,text,read⟩ := bind_eq_ok_iff.mp read
    obtain ⟨stop,made,read⟩ := bind_eq_ok_iff.mp read
    obtain rfl := sum_value made
    split at read
    · cases read
    · rename_i content cut
      obtain ⟨⟨-,inside⟩,same⟩ := Option.ite_none_right_eq_some.mp cut
      obtain rfl := Option.some.inj same
      obtain ⟨next,made,read⟩ := bind_eq_ok_iff.mp read
      obtain rfl := sum_value made
      obtain ⟨listed,stand,count,made⟩ := ih read
      exact ⟨_ :: listed,.cons place length text inside stand,by rw [List.length_cons,count],made⟩

theorem tables?_listed (found : Found) (stream : String × ByteArray) :
    (found.note stream.1 stream.2).tables? =
      if (decide (stream.1 = "#~" ∨ stream.1 = "#-") : Bool) then some stream.2 else found.tables? := by
  simp only [tables?_note,decide_eq_true_eq]

theorem strings?_listed (found : Found) (stream : String × ByteArray) :
    (found.note stream.1 stream.2).strings? =
      if (decide (stream.1 = "#Strings") : Bool) then some stream.2 else found.strings? := by
  simp only [strings?_note,decide_eq_true_eq]

/-- The streams of a root: all that its directory announces, of which the last stream of tables and the last of
strings are taken. -/
structure DirectoryRead (root : ByteArray) (streams : Streams) (listed : List (String × ByteArray)) : Prop where
  signature : Bytes.u32 root 0 = .ok 0x424A5342
  all : ∃ version, Bytes.u32 root 12 = .ok version ∧ Bytes.u16 root (16 + version + 2) = .ok listed.length ∧
    StreamsAt root (16 + version + 4) listed
  tables : (listed.filter fun stream => stream.1 = "#~" ∨ stream.1 = "#-").getLast?.map (·.2) = some streams.tables
  strings : (listed.filter fun stream => stream.1 = "#Strings").getLast?.map (·.2) = some streams.strings

theorem streams_ok {streams : Streams} (read : Metadata.streams root = .ok streams) :
    ∃ listed, DirectoryRead root streams listed := by
  rw [Metadata.streams] at read
  obtain ⟨signature,signatureRead,read⟩ := bind_eq_ok_iff.mp read
  split at read
  · rename_i known
    obtain ⟨version,versionRead,read⟩ := bind_eq_ok_iff.mp read
    obtain ⟨directory,made,read⟩ := bind_eq_ok_iff.mp read
    obtain rfl := sum_value made
    obtain ⟨place,made,read⟩ := bind_eq_ok_iff.mp read
    obtain rfl := sum_value made
    obtain ⟨count,countRead,read⟩ := bind_eq_ok_iff.mp read
    obtain ⟨header,made,read⟩ := bind_eq_ok_iff.mp read
    obtain rfl := sum_value made
    obtain ⟨found,scanned,read⟩ := bind_eq_ok_iff.mp read
    obtain ⟨listed,stand,length,made⟩ := scanStreams_ok scanned
    have tables := foldl_note Found.tables? tables?_listed listed {}
    have strings := foldl_note Found.strings? strings?_listed listed {}
    rw [← made,Option.or_none] at tables strings
    split at read
    · cases read
      rw [known] at signatureRead
      exact ⟨listed,signatureRead,⟨version,versionRead,length ▸ countRead,stand⟩,tables.symm,strings.symm⟩
    · cases read
  · obtain ⟨_,thrown,-⟩ := bind_eq_ok_iff.mp read
    cases thrown

end Streams

section Tables

theorem readCounts_inRange {valid : Nat} (remaining table cursor : Nat)
    (small : cursor + 4 * remaining < Word.limit 64) : InRange (readCounts stream valid remaining table cursor) := by
  induction remaining generalizing table cursor with
  | zero => exact failsOnly_ok _
  | succ remaining ih =>
    rw [readCounts]
    split
    · refine inRange_number.bind fun count _ => (inRange_sum (by omega)).bind fun next made => ?_
      obtain rfl := sum_value made
      exact FailsOnly.bind (ih (table + 1) (cursor + 4) (by omega)) fun parts _ => failsOnly_ok _
    · exact FailsOnly.bind (ih (table + 1) cursor (by omega)) fun parts _ => failsOnly_ok _

/-- Row counts as they are stored: a word for each table whose bit is set, one behind the other, and none for the
other tables. -/
inductive CountsAt (stream : ByteArray) (valid : Nat) : (table cursor : Nat) → List Nat → (stop : Nat) → Prop
  | nil {table cursor : Nat} : CountsAt stream valid table cursor [] cursor
  | present {table cursor count stop : Nat} {rest : List Nat} (bit : valid.testBit table = true)
      (stored : Bytes.u32 stream cursor = .ok count)
      (others : CountsAt stream valid (table + 1) (cursor + 4) rest stop) :
      CountsAt stream valid table cursor (count :: rest) stop
  | absent {table cursor stop : Nat} {rest : List Nat} (bit : valid.testBit table = false)
      (others : CountsAt stream valid (table + 1) cursor rest stop) :
      CountsAt stream valid table cursor (0 :: rest) stop

theorem readCounts_ok {valid remaining table cursor stop : Nat} {counts : List Nat}
    (read : readCounts stream valid remaining table cursor = .ok (counts,stop)) :
    counts.length = remaining ∧ CountsAt stream valid table cursor counts stop := by
  induction remaining generalizing table cursor stop counts with
  | zero =>
    cases read
    exact ⟨rfl,.nil⟩
  | succ remaining ih =>
    rw [readCounts] at read
    split at read
    · rename_i bit
      obtain ⟨count,stored,read⟩ := bind_eq_ok_iff.mp read
      obtain ⟨next,made,read⟩ := bind_eq_ok_iff.mp read
      obtain rfl := sum_value made
      obtain ⟨⟨others,last⟩,rest,read⟩ := bind_eq_ok_iff.mp read
      cases read
      obtain ⟨length,stand⟩ := ih rest
      exact ⟨by rw [List.length_cons,length],.present bit stored stand⟩
    · rename_i bit
      obtain ⟨⟨others,last⟩,rest,read⟩ := bind_eq_ok_iff.mp read
      cases read
      obtain ⟨length,stand⟩ := ih rest
      exact ⟨by rw [List.length_cons,length],.absent (Bool.eq_false_iff.mpr bit) stand⟩

theorem CountsAt.bounds {valid table cursor stop : Nat} {counts : List Nat}
    (stand : CountsAt stream valid table cursor counts stop) :
    (∀ count ∈ counts, count < 2 ^ 32) ∧ stop ≤ cursor + 4 * counts.length := by
  induction stand with
  | nil => exact ⟨List.forall_mem_nil _,Nat.le_refl _⟩
  | present bit stored others ih =>
    obtain ⟨words,near⟩ := ih
    exact ⟨List.forall_mem_cons.mpr ⟨(number_bounds stored).2,words⟩,by rw [List.length_cons]; omega⟩
  | absent bit others ih =>
    obtain ⟨words,near⟩ := ih
    exact ⟨List.forall_mem_cons.mpr ⟨by decide,words⟩,by rw [List.length_cons]; omega⟩

/-- What a column can refer to: every table has a row count, and a tag leaves bits for the row. -/
def Column.Proper : Column → Prop
  | .fixed width => width ≤ 8
  | .row table => table < 64
  | .tagged tagBits tables => tagBits < 16 ∧ ∀ table ∈ tables, table < 64
  | .string => True
  | .guid => True
  | .blob => True

instance : DecidablePred Column.Proper
  | .fixed width => inferInstanceAs (Decidable (width ≤ 8))
  | .row table => inferInstanceAs (Decidable (table < 64))
  | .tagged tagBits tables => inferInstanceAs (Decidable (tagBits < 16 ∧ ∀ table ∈ tables, table < 64))
  | .string => isTrue trivial
  | .guid => isTrue trivial
  | .blob => isTrue trivial

theorem columns_proper : ∀ row ∈ columns, ∀ column ∈ row, column.Proper := by decide +kernel

/-- Heap indices take two bytes or four, and no table has more rows than a 32-bit word can count. -/
structure Layout.Proper (layout : Layout) : Prop where
  rows : layout.rows.length = 64
  counts : ∀ table, layout.rowCount table < 2 ^ 32
  string : layout.string ≤ 4
  guid : layout.guid ≤ 4
  blob : layout.blob ≤ 4

def Column.widest : Column → Nat
  | .fixed width => width
  | _ => 4

theorem Layout.Proper.width_le {layout : Layout} (proper : layout.Proper) (column : Column) :
    layout.width column ≤ column.widest := by
  have index (tagBits : Nat) (tables : List Nat) : layout.indexWidth tagBits tables ≤ 4 := by
    rw [Layout.indexWidth]
    split <;> omega
  cases column with
  | fixed width => exact Nat.le_refl width
  | string => exact proper.string
  | guid => exact proper.guid
  | blob => exact proper.blob
  | row table => exact index 0 [table]
  | tagged tagBits tables => exact index tagBits tables

theorem Layout.Proper.rowSize_le {layout : Layout} (proper : layout.Proper) (table : Nat) :
    layout.rowSize table ≤ 28 := by
  have widest : ∀ row ∈ columns, (row.map Column.widest).sum ≤ 28 := by decide +kernel
  rw [rowSize_eq_sum]
  cases known : columns[table]? with
  | none => exact Nat.zero_le 28
  | some row =>
    calc (row.map layout.width).sum ≤ (row.map Column.widest).sum :=
          List.sum_le_sum fun column _ => proper.width_le column
      _ ≤ 28 := widest row (List.mem_of_getElem? known)

/-- The rows of some tables take less than a 64-bit word can count. -/
theorem Layout.Proper.sum_le {layout : Layout} (proper : layout.Proper) (tables : List Nat) :
    (tables.map fun table => layout.rowSize table * layout.rowCount table).sum ≤ tables.length * (28 * 2 ^ 32) := by
  induction tables with
  | nil => exact Nat.le_refl 0
  | cons table tables ih =>
    have product : layout.rowSize table * layout.rowCount table ≤ 28 * 2 ^ 32 :=
      Nat.mul_le_mul (proper.rowSize_le table) (proper.counts table).le
    rw [List.map_cons,List.sum_cons,List.length_cons,Nat.succ_mul]
    omega

theorem tableStarts_inRange {layout : Layout} (proper : layout.Proper) (tables : List Nat) (cursor : Nat)
    (small : cursor + tables.length * (28 * 2 ^ 32) < Word.limit 64) :
    InRange (tableStarts layout tables cursor) := by
  induction tables generalizing cursor with
  | nil => exact failsOnly_ok []
  | cons table tables ih =>
    rw [List.length_cons,Nat.succ_mul] at small
    have product : layout.rowSize table * layout.rowCount table ≤ 28 * 2 ^ 32 :=
      Nat.mul_le_mul (proper.rowSize_le table) (proper.counts table).le
    refine (inRange_entry (by omega)).bind fun next made => ?_
    obtain rfl := (Bytes.entry_eq_ok_iff.mp made).2
    exact FailsOnly.bind (ih _ (by omega)) fun starts _ => failsOnly_ok _

theorem tableStarts_ok {layout : Layout} {tables starts : List Nat} {cursor : Nat}
    (made : tableStarts layout tables cursor = .ok starts) :
    starts.length = tables.length ∧ ∀ (place : Nat) start, starts[place]? = some start →
      start = cursor + ((tables.take place).map fun table => layout.rowSize table * layout.rowCount table).sum := by
  induction tables generalizing cursor starts with
  | nil =>
    obtain rfl := Except.ok.inj made
    exact ⟨rfl,nofun⟩
  | cons table tables ih =>
    obtain ⟨next,here,made⟩ := bind_eq_ok_iff.mp made
    obtain rfl := (Bytes.entry_eq_ok_iff.mp here).2
    obtain ⟨others,rest,made⟩ := bind_eq_ok_iff.mp made
    obtain rfl := Except.ok.inj made
    obtain ⟨length,placed⟩ := ih rest
    refine ⟨by rw [List.length_cons,length,List.length_cons],?_⟩
    rintro (_ | place) start found
    · exact (Option.some.inj found).symm
    · rw [placed place start found,List.take_succ_cons,List.map_cons,List.sum_cons,Nat.add_assoc]

theorem proper_layout {counts : List Nat} (flags : Nat) (length : counts.length = 64)
    (words : ∀ count ∈ counts, count < 2 ^ 32) :
    Layout.Proper ⟨counts,heapWidth flags 0,heapWidth flags 1,heapWidth flags 2⟩ := by
  have narrow (bit : Nat) : heapWidth flags bit ≤ 4 := by
    rw [heapWidth]
    split <;> omega
  refine ⟨length,fun table => ?_,narrow 0,narrow 1,narrow 2⟩
  rw [Layout.rowCount]
  cases known : counts[table]? with
  | none => decide
  | some count => exact words count (List.mem_of_getElem? known)

theorem readTables_inRange (stream : ByteArray) : InRange (readTables stream) := by
  have limit := limit_64
  rw [readTables]
  split
  · rename_i flagByte _
    refine inRange_number.bind fun low _ => inRange_number.bind fun high _ => ?_
    refine FailsOnly.bind (readCounts_inRange 64 0 24 (by omega)) fun parts read => ?_
    obtain ⟨counts,stop⟩ := parts
    obtain ⟨length,stand⟩ := readCounts_ok read
    obtain ⟨words,near⟩ := stand.bounds
    rw [length] at near
    have proper := proper_layout flagByte.toNat length words
    have starts (first : Nat) (close : first ≤ 24 + 4 * 64 + 4) :=
      tableStarts_inRange proper (List.range columns.length) first (by
        rw [List.length_range]
        have width : columns.length = 36 := rfl
        omega)
    dsimp only
    split
    · refine (inRange_sum (by omega)).bind fun first made => ?_
      obtain rfl := sum_value made
      exact (starts _ (by omega)).bind fun found _ => failsOnly_ok _
    · exact (starts _ (by omega)).bind fun found _ => failsOnly_ok _
  · exact failsOnly_error (by simp)

/-- A stream of tables taken apart: by its flags the indices into the heaps are narrow or wide, behind its head
stand the row counts, and behind these the tables one after the other. -/
structure TablesRead (stream : ByteArray) (tables : Tables) : Prop where
  rows : tables.layout.rows.length = 64
  starts : tables.starts.length = 36
  head : ∃ flags low high stop, stream[6]? = some flags ∧ Bytes.u32 stream 8 = .ok low ∧
    Bytes.u32 stream 12 = .ok high ∧ CountsAt stream (low + 2 ^ 32 * high) 0 24 tables.layout.rows stop ∧
    tables.layout.string = heapWidth flags.toNat 0 ∧ tables.layout.guid = heapWidth flags.toNat 1 ∧
    tables.layout.blob = heapWidth flags.toNat 2 ∧
    ∀ (table : Nat) start, tables.starts[table]? = some start →
      start = stop + (if flags.toNat.testBit 6 then 4 else 0) +
        ((List.range table).map fun earlier => tables.layout.rowSize earlier * tables.layout.rowCount earlier).sum

theorem readTables_ok {tables : Tables} (read : readTables stream = .ok tables) : TablesRead stream tables := by
  rw [readTables] at read
  split at read
  · rename_i flagByte flagged
    obtain ⟨low,lowStored,read⟩ := bind_eq_ok_iff.mp read
    obtain ⟨high,highStored,read⟩ := bind_eq_ok_iff.mp read
    obtain ⟨⟨counts,stop⟩,countsRead,read⟩ := bind_eq_ok_iff.mp read
    obtain ⟨length,stand⟩ := readCounts_ok countsRead
    obtain ⟨starts,made,rfl⟩ : ∃ starts, tableStarts _ (List.range columns.length)
        (stop + if flagByte.toNat.testBit 6 then 4 else 0) = .ok starts ∧ tables = ⟨⟨counts,_,_,_⟩,starts⟩ := by
      dsimp only at read
      split at read
      · rename_i more
        obtain ⟨first,begins,read⟩ := bind_eq_ok_iff.mp read
        obtain rfl := sum_value begins
        obtain ⟨starts,made,read⟩ := bind_eq_ok_iff.mp read
        exact ⟨starts,by rwa [if_pos more],(Except.ok.inj read).symm⟩
      · rename_i bare
        obtain ⟨first,begins,read⟩ := bind_eq_ok_iff.mp read
        obtain rfl := Except.ok.inj begins
        obtain ⟨starts,made,read⟩ := bind_eq_ok_iff.mp read
        exact ⟨starts,by rwa [if_neg bare],(Except.ok.inj read).symm⟩
    obtain ⟨same,placed⟩ := tableStarts_ok made
    have width : columns.length = 36 := rfl
    rw [List.length_range,width] at same
    refine ⟨length,same,flagByte,low,high,stop,flagged,lowStored,highStored,stand,rfl,rfl,rfl,?_⟩
    intro table start found
    have less : table < starts.length := (List.getElem?_eq_some_iff.mp found).1
    have known := placed table start found
    rwa [List.take_range,min_eq_left (by omega)] at known
  · cases read

/-- Tables whose every row has an offset that fits in a 64-bit word. -/
structure Tables.Proper (tables : Tables) : Prop where
  layout : tables.layout.Proper
  starts : tables.starts.length = 36
  near : ∀ start ∈ tables.starts, start < 2 ^ 48

theorem TablesRead.proper {tables : Tables} (read : TablesRead stream tables) : tables.Proper := by
  obtain ⟨length,count,flags,low,high,stop,-,-,-,stand,string,guid,blob,placed⟩ := read
  obtain ⟨words,near⟩ := stand.bounds
  have layout : tables.layout.Proper := by
    have made := proper_layout flags.toNat length words
    rwa [← string,← guid,← blob] at made
  refine ⟨layout,count,fun start listed => ?_⟩
  obtain ⟨table,found⟩ := List.getElem?_of_mem listed
  have less : table < tables.starts.length := (List.getElem?_eq_some_iff.mp found).1
  have short := layout.sum_le (List.range table)
  rw [List.length_range] at short
  have few : table * (28 * 2 ^ 32) ≤ 36 * (28 * 2 ^ 32) := Nat.mul_le_mul_right _ (by omega)
  have gap : (if flags.toNat.testBit 6 then 4 else 0) ≤ 4 := by split <;> omega
  rw [placed table start found]
  omega

end Tables

section Rows

variable {streams : Streams} {tables : Tables}

theorem Tables.Proper.rowOffset_lt (proper : tables.Proper) (table : Nat) {index : Nat} (less : index < 2 ^ 32) :
    tables.starts[table]?.getD 0 + tables.layout.rowSize table * index < 2 ^ 56 := by
  have start : tables.starts[table]?.getD 0 < 2 ^ 48 := by
    cases known : tables.starts[table]? with
    | none => decide
    | some start => exact proper.near start (List.mem_of_getElem? known)
  have product : tables.layout.rowSize table * index ≤ 28 * 2 ^ 32 :=
    Nat.mul_le_mul (proper.layout.rowSize_le table) less.le
  omega

theorem stringAt_inRange (streams : Streams) (tables : Tables) (offset : Nat) :
    InRange (tables.stringAt streams offset) := by
  rw [Tables.stringAt]
  split
  · exact inRange_number.bind fun index _ => inRange_cString
  · exact inRange_number.bind fun index _ => inRange_cString

theorem moduleName_inRange (proper : tables.Proper) {row : Nat} (less : row < 2 ^ 32) :
    InRange (moduleName streams tables row) := by
  have limit := limit_64
  have low := proper.rowOffset_lt TableId.moduleRef less
  exact (inRange_entry (by omega)).bind fun offset _ => stringAt_inRange streams tables offset

theorem versionAt_inRange {offset : Nat} (small : offset + 6 < Word.limit 64) : InRange (versionAt stream offset) := by
  refine FailsOnly.bind (failsOnly_mapM fun place listed => ?_) fun parts _ => failsOnly_ok _
  have near : ∀ place ∈ [0,2,4,6], place ≤ 6 := by decide
  have less := near place listed
  exact (inRange_sum (by omega)).bind fun _ _ => inRange_number

theorem assemblyReference_inRange (proper : tables.Proper) {row : Nat} (less : row < 2 ^ 32) :
    InRange (assemblyReference streams tables row) := by
  have limit := limit_64
  have low := proper.rowOffset_lt TableId.assemblyRef less
  have narrow := proper.layout.blob
  refine (inRange_entry (by omega)).bind fun offset made => ?_
  obtain rfl := (Bytes.entry_eq_ok_iff.mp made).2
  refine (versionAt_inRange (by omega)).bind fun version _ => ?_
  refine (inRange_sum (by omega)).bind fun place _ => ?_
  exact (stringAt_inRange streams tables place).bind fun name _ => failsOnly_ok _

theorem references_inRange (addressable : Addressable root) : InRange (references root) := by
  refine (streams_inRange addressable).bind fun streams _ => ?_
  refine (readTables_inRange streams.tables).bind fun tables read => ?_
  have proper := (readTables_ok read).proper
  have count (table : Nat) : tables.rowCount table < 2 ^ 32 := proper.layout.counts table
  refine FailsOnly.bind (failsOnly_collect fun row less =>
    (moduleName_inRange proper (less.trans (count _))).map some) fun names _ => ?_
  exact FailsOnly.bind (failsOnly_collect fun row less =>
    (assemblyReference_inRange proper (less.trans (count _))).map some) fun assemblies _ => failsOnly_ok _

/-- Where a row of a table lies. -/
def Tables.place (tables : Tables) (table row : Nat) : Nat :=
  tables.starts[table]?.getD 0 + tables.layout.rowSize table * row

/-- A string of the heap, by the index that is stored somewhere. -/
def StringAt (streams : Streams) (tables : Tables) (place : Nat) (text : String) : Prop :=
  ∃ index, Bytes.cString streams.strings index = .ok text ∧
    if tables.layout.string = 2 then Bytes.u16 streams.tables place = .ok index
    else Bytes.u32 streams.tables place = .ok index

/-- A row of the table of assemblies: four numbers, and behind eight further bytes and an index the name. -/
structure AssemblyAt (streams : Streams) (tables : Tables) (place : Nat) (assembly : AssemblyReference) : Prop where
  version : ∃ major minor build revision, Bytes.u16 streams.tables place = .ok major ∧
    Bytes.u16 streams.tables (place + 2) = .ok minor ∧ Bytes.u16 streams.tables (place + 4) = .ok build ∧
    Bytes.u16 streams.tables (place + 6) = .ok revision ∧
    assembly.version = ".".intercalate [toString major,toString minor,toString build,toString revision]
  name : StringAt streams tables (place + 12 + tables.layout.blob) assembly.name

theorem stringAt_ok {place : Nat} {text : String} (read : tables.stringAt streams place = .ok text) :
    StringAt streams tables place text := by
  rw [Tables.stringAt] at read
  split at read
  · rename_i narrow
    obtain ⟨index,stored,read⟩ := bind_eq_ok_iff.mp read
    exact ⟨index,read,by rwa [if_pos narrow]⟩
  · rename_i wide
    obtain ⟨index,stored,read⟩ := bind_eq_ok_iff.mp read
    exact ⟨index,read,by rwa [if_neg wide]⟩

theorem moduleName_ok {row : Nat} {name : String} (read : moduleName streams tables row = .ok name) :
    StringAt streams tables (tables.place TableId.moduleRef row) name := by
  obtain ⟨place,made,read⟩ := bind_eq_ok_iff.mp read
  obtain rfl := (Bytes.entry_eq_ok_iff.mp made).2
  exact stringAt_ok read

theorem assemblyReference_ok {row : Nat} {assembly : AssemblyReference}
    (read : assemblyReference streams tables row = .ok assembly) :
    AssemblyAt streams tables (tables.place TableId.assemblyRef row) assembly := by
  obtain ⟨place,made,read⟩ := bind_eq_ok_iff.mp read
  obtain rfl := (Bytes.entry_eq_ok_iff.mp made).2
  obtain ⟨version,versionRead,read⟩ := bind_eq_ok_iff.mp read
  obtain ⟨namePlace,made,read⟩ := bind_eq_ok_iff.mp read
  obtain rfl := sum_value made
  obtain ⟨name,nameRead,read⟩ := bind_eq_ok_iff.mp read
  obtain rfl := Except.ok.inj read
  obtain ⟨numbers,partsRead,joined⟩ := bind_eq_ok_iff.mp versionRead
  obtain rfl := Except.ok.inj joined
  have stored {displacement number : Nat} {offset : Nat}
      (read : (Bytes.sum offset displacement >>= Bytes.u16 streams.tables) = .ok number) :
      Bytes.u16 streams.tables (offset + displacement) = .ok number := by
    obtain ⟨place,made,read⟩ := bind_eq_ok_iff.mp read
    obtain rfl := sum_value made
    exact read
  obtain _ | ⟨first,_ | ⟨second,_ | ⟨third,_ | ⟨fourth,⟨⟩⟩⟩⟩⟩ := Bytes.mapM_eq_ok_iff.mp partsRead
  refine ⟨⟨_,_,_,_,stored first,stored second,stored third,stored fourth,rfl⟩,?_⟩
  have name := stringAt_ok nameRead
  rwa [← Nat.add_assoc] at name

/-- The references are those of all rows of the two tables. -/
def Complete (root : ByteArray) (found : ManagedReferences) : Prop :=
  ∃ streams listed tables, ∃ names : List String, DirectoryRead root streams listed ∧ TablesRead streams.tables tables ∧
    names.length = tables.rowCount TableId.moduleRef ∧
    (∀ (row : Nat) name, names[row]? = some name →
      StringAt streams tables (tables.place TableId.moduleRef row) name) ∧
    found.modules = names.filter (· ≠ "") ∧
    found.assemblies.length = tables.rowCount TableId.assemblyRef ∧
    ∀ (row : Nat) assembly, found.assemblies[row]? = some assembly →
      AssemblyAt streams tables (tables.place TableId.assemblyRef row) assembly

theorem references_complete {found : ManagedReferences} (read : references root = .ok found) :
    Complete root found := by
  obtain ⟨streams,streamsRead,read⟩ := bind_eq_ok_iff.mp read
  obtain ⟨tables,tablesRead,read⟩ := bind_eq_ok_iff.mp read
  obtain ⟨names,namesRead,read⟩ := bind_eq_ok_iff.mp read
  obtain ⟨assemblies,assembliesRead,read⟩ := bind_eq_ok_iff.mp read
  obtain rfl := Except.ok.inj read
  obtain ⟨listed,directory⟩ := streams_ok streamsRead
  have allNames := Bytes.collect_some_eq_ok_iff.mp namesRead
  have allAssemblies := Bytes.collect_some_eq_ok_iff.mp assembliesRead
  exact ⟨streams,listed,tables,names,directory,readTables_ok tablesRead,allNames.count,
    fun row name found => moduleName_ok (allNames.listed row name found),rfl,allAssemblies.count,
    fun row assembly found => assemblyReference_ok (allAssemblies.listed row assembly found)⟩

/-- How metadata is read: no offset is too large for its word, no row count is missing or out of place, and
neither a stream nor a row is left out. -/
structure InBounds (root : ByteArray) : Prop where
  offsets : Addressable root → InRange (references root)
  headers : ∀ count header found result, scanStreams root count header found = .ok result →
    ∃ listed, StreamsAt root header listed ∧ listed.length = count ∧
      result = listed.foldl (fun found stream => found.note stream.1 stream.2) found
  streams : ∀ streams, Metadata.streams root = .ok streams → ∃ listed, DirectoryRead root streams listed
  columns : ∀ row ∈ columns, ∀ column ∈ row, column.Proper
  tables : ∀ stream tables, readTables stream = .ok tables →
    TablesRead stream tables ∧ tables.Proper ∧ ∀ table, tables.layout.rowSize table ≤ 28
  rows : ∀ found, references root = .ok found → Complete root found

theorem inBounds (root : ByteArray) : InBounds root where
  offsets := references_inRange
  headers := fun _ _ _ _ => scanStreams_ok
  streams := fun _ => streams_ok
  columns := columns_proper
  tables := fun _ _ read =>
    have stored := readTables_ok read
    ⟨stored,stored.proper,stored.proper.layout.rowSize_le⟩
  rows := fun _ => references_complete

end Rows
end LoadMap.Metadata
