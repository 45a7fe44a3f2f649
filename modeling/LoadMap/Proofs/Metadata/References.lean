import LoadMap.Proofs.Bytes.Table
import LoadMap.Proofs.Metadata.Streams
import LoadMap.Proofs.Metadata.Tables

/-! The references of a managed image are those that its metadata was written with: any root of the standard
yields the names in its rows, in row order. -/
namespace LoadMap.Metadata

open Bytes (Holds digits holds_append)
open Standard (Cell Sizes TableStream Stream Root HoldsRoot Names NamesModule NamesAssembly rowWidth rowBytes)

/-- The tables are laid out for these sizes, and the rows of each of them stand where the reader looks. -/
structure Tables.Stand (tables : Tables) (stream : ByteArray) (written : TableStream) : Prop where
  small : stream.size < Word.limit 64
  proper : written.Proper
  fits : tables.layout.Fits written.sizes
  placed : ∀ (table : Nat) cells, Standard.columns[table]? = some cells → ∃ start,
    tables.starts[table]? = some start ∧
      Holds stream start ((written.rows table).flatMap (rowBytes written.sizes cells))

variable {tables : Tables} {stream : ByteArray} {written : TableStream} {heap : List UInt8}

theorem Tables.Stand.row (stand : tables.Stand stream written) (table : Nat) {index : Nat} {cells : List Cell}
    {row : List Nat} (known : Standard.columns[table]? = some cells) (listed : (written.rows table)[index]? = some row) :
    ∃ offset, tables.rowOffset table index = .ok offset ∧ Holds stream offset (rowBytes written.sizes cells row) ∧
      List.Forall₂ (fun cell value => value < 256 ^ cell.width written.sizes) cells row := by
  obtain ⟨start,found,rows⟩ := stand.placed table cells known
  have here := rows.entry (length_rows stand.proper known) listed
  have inside := here.inside
  have small := stand.small
  refine ⟨_,?_,here,stand.proper.rows table cells known row (List.mem_of_getElem? listed)⟩
  rw [rowOffset,found,Option.getD_some,stand.fits.rowSize known,Bytes.entry_eq_ok_iff]
  exact ⟨by omega,rfl⟩

theorem Tables.Stand.rowCount (stand : tables.Stand stream written) {table : Nat} (less : table < 36) :
    tables.rowCount table = (written.rows table).length := by
  rw [Tables.rowCount,stand.fits.rows,rowCount_eq stand.proper less]

theorem Tables.Stand.stringAt (stand : tables.Stand stream written) {offset index : Nat} {text : String}
    (holds : Holds stream offset (digits (Cell.string.width written.sizes) index))
    (small : index < 256 ^ Cell.string.width written.sizes) (names : Names heap index text) :
    tables.stringAt ⟨stream,heap.toByteArray⟩ offset = .ok text := by
  have read := names.2.cString (Text.Utf8.not_mem_encode names.1)
  rw [Text.Utf8.decodeLossy_encode] at read
  rw [Tables.stringAt,stand.fits.string]
  by_cases wide : written.sizes.flags.testBit 0
  · simp only [Cell.width,wide,if_true] at holds small ⊢
    simp only [Bytes.u32,holds.number small,bind,Except.bind,read,Nat.reduceEqDiff,if_false]
  · simp only [Cell.width,wide,Bool.false_eq_true,if_false] at holds small ⊢
    simp only [Bytes.u16,holds.number small,bind,Except.bind,read,if_true]

theorem Tables.Stand.moduleName (stand : tables.Stand stream written) {index : Nat} {row : List Nat} {name : String}
    (listed : (written.rows 0x1A)[index]? = some row) (names : NamesModule heap row name) :
    moduleName ⟨stream,heap.toByteArray⟩ tables index = .ok name := by
  obtain ⟨place,rfl,named⟩ := names
  obtain ⟨offset,made,holds,bounds⟩ := stand.row 0x1A rfl listed
  simp only [rowBytes,List.zip_cons_cons,List.zip_nil_right,List.flatMap_cons,List.flatMap_nil,List.append_nil] at holds
  simp only [List.forall₂_cons] at bounds
  rw [Metadata.moduleName,TableId.moduleRef,made]
  exact stand.stringAt holds bounds.1 named

theorem versionAt_eq (small : stream.size < Word.limit 64) {offset major minor build revision : Nat}
    (holds : Holds stream offset (digits 2 major ++ (digits 2 minor ++ (digits 2 build ++ digits 2 revision))))
    (words : ∀ part ∈ [major,minor,build,revision], part < 256 ^ 2) :
    versionAt stream offset = .ok s!"{major}.{minor}.{build}.{revision}" := by
  have inside := holds.inside
  simp only [List.length_append,Bytes.length_digits] at inside
  simp only [holds_append,Bytes.length_digits] at holds
  simp only [List.forall_mem_cons] at words
  obtain ⟨first,second,third,fourth⟩ := holds
  obtain ⟨majorWord,minorWord,buildWord,revisionWord,-⟩ := words
  have place (part : Nat) (less : part ≤ 6) : Bytes.sum offset part = .ok (offset + part) :=
    Bytes.sum_eq_ok_iff.mpr ⟨by omega,rfl⟩
  simp only [versionAt,List.mapM_cons,List.mapM_nil,place 0 (by decide),place 2 (by decide),place 4 (by decide),
    place 6 (by decide),bind,Except.bind,pure,Except.pure,Bytes.u16,Nat.add_zero,first.number majorWord,
    second.number minorWord,third.number buildWord,fourth.number revisionWord]
  rfl

theorem Tables.Stand.assemblyReference (stand : tables.Stand stream written) {index : Nat} {row : List Nat}
    {reference : AssemblyReference} (listed : (written.rows 0x23)[index]? = some row)
    (names : NamesAssembly heap row reference) :
    assemblyReference ⟨stream,heap.toByteArray⟩ tables index = .ok reference := by
  obtain ⟨major,minor,build,revision,flags,key,name,culture,hash,rfl,named,version⟩ := names
  obtain ⟨offset,made,holds,bounds⟩ := stand.row 0x23 rfl listed
  simp only [List.forall₂_cons,Cell.width_constant] at bounds
  obtain ⟨majorWord,minorWord,buildWord,revisionWord,-,-,nameWord,-⟩ := bounds
  simp only [rowBytes,List.zip_cons_cons,List.zip_nil_right,List.flatMap_cons,List.flatMap_nil,List.append_nil,
    Cell.width_constant,holds_append,Bytes.length_digits] at holds
  obtain ⟨first,second,third,fourth,-,-,nameHolds,-⟩ := holds
  have read : versionAt stream offset = .ok reference.version := by
    rw [version]
    refine versionAt_eq stand.small ?_ ?_
    · simp only [holds_append,Bytes.length_digits]
      exact ⟨first,second,third,fourth⟩
    · simp only [List.forall_mem_cons]
      exact ⟨majorWord,minorWord,buildWord,revisionWord,List.forall_mem_nil _⟩
  have inside := nameHolds.inside
  have small := stand.small
  have place : Bytes.sum offset (12 + tables.layout.blob) =
      .ok (offset + 2 + 2 + 2 + 2 + 4 + Cell.blob.width written.sizes) := by
    rw [stand.fits.blob,Bytes.sum_eq_ok_iff]
    exact ⟨by omega,by omega⟩
  simp only [Metadata.assemblyReference,TableId.assemblyRef,made,read,place,
    stand.stringAt nameHolds nameWord named,bind,Except.bind,pure,Except.pure]

/-- A table is read row by row. -/
theorem allRows_eq {α : Type} {read : Nat → Except Image.Fault α} {rows : List (List Nat)} {entries : List α}
    {stands : List Nat → α → Prop} (all : List.Forall₂ stands rows entries)
    (each : ∀ (index : Nat) row entry, rows[index]? = some row → stands row entry → read index = .ok entry) :
    allRows read rows.length = .ok entries := by
  refine Bytes.collect_some_eq_ok_iff.mpr ⟨all.length_eq.symm,fun index entry found => ?_⟩
  obtain ⟨less,rfl⟩ := List.getElem?_eq_some_iff.mp found
  have there : index < rows.length := all.length_eq ▸ less
  exact each index _ _ (List.getElem?_eq_getElem there) ((List.forall₂_iff_get.mp all).2 index there less)

/-- Whatever else a root holds, and wherever its streams lie, its references are read as they were written. -/
theorem references_decodes {bytes : ByteArray} {root : Root} {tableStream stringStream : Stream}
    {written : TableStream} {modules : List String} {assemblies : List AssemblyReference}
    (stands : HoldsRoot bytes root)
    (one : root.streams.filter (fun stream => stream.name = "#~" ∨ stream.name = "#-") = [tableStream])
    (heap : root.streams.filter (·.name = "#Strings") = [stringStream])
    (proper : written.Proper) (content : tableStream.content = written.bytes)
    (moduleRows : List.Forall₂ (NamesModule stringStream.content) (written.rows 0x1A) modules)
    (assemblyRows : List.Forall₂ (NamesAssembly stringStream.content) (written.rows 0x23) assemblies) :
    references bytes = .ok { modules := modules.filter (· ≠ ""), assemblies } := by
  have listed : tableStream ∈ root.streams :=
    List.mem_of_mem_filter (one ▸ List.mem_singleton.mpr rfl : tableStream ∈ root.streams.filter _)
  obtain ⟨-,-,short,-⟩ := stands.streams tableStream listed
  have small : tableStream.content.toByteArray.size < Word.limit 64 := by
    rw [List.size_toByteArray]
    exact short.trans (by decide)
  have whole : Holds tableStream.content.toByteArray 0 written.bytes :=
    ⟨Nat.zero_le _,by rw [List.data_toByteArray,content]; exact List.prefix_rfl⟩
  obtain ⟨tables,read,fits,placed⟩ := readTables_eq proper small whole
  have stand : tables.Stand tableStream.content.toByteArray written := ⟨small,proper,fits,placed⟩
  have names := allRows_eq moduleRows
    fun index row name listed names => stand.moduleName listed names
  have references := allRows_eq assemblyRows
    fun index row reference listed names => stand.assemblyReference listed names
  rw [← stand.rowCount (by decide)] at names references
  simp only [Metadata.references,streams_eq stands one heap,read,TableId.moduleRef,TableId.assemblyRef,names,references,
    bind,Except.bind,pure,Except.pure]

/-- Tables with wide string indices and an extra word. The rows of table 0x2C are so many that they widen a
column of table 0x0C, which stands before the rows with references. -/
def wideTables : TableStream where
  head := [0,0,0,0,2,0]
  flags := 0x41
  reserved := 1
  sorted := digits 8 0
  extra := digits 4 0
  tables := [some [[0,1,1,0,0]]] ++ List.replicate 11 none ++ [some [[35,3,7]]] ++ List.replicate 13 none ++
    [some [[1],[0]]] ++ List.replicate 8 none ++ [some [[8,0,1,65535,0,0,12,0,0]]]
  others := List.replicate 8 none ++ [some 3000] ++ List.replicate 19 none
  rest := []

def wideHeap : List UInt8 :=
  [0] ++ Text.Utf8.encode "user32.dll" ++ [0] ++ Text.Utf8.encode "Überbau" ++ [0]

def wideRoot : Root where
  head := [1,0,1,0,0,0,0,0]
  version := Text.Utf8.encode "v4.0"
  flags := [0,0]
  streams := [⟨"#Strings",56,wideHeap⟩,⟨"#~",77,wideTables.bytes⟩]

def wideBytes : ByteArray := ⟨(wideRoot.directory ++ wideHeap ++ wideTables.bytes).toArray⟩

theorem wideTables_proper : wideTables.Proper where
  head := rfl
  flags := by decide
  sorted := rfl
  extra := rfl
  tables := rfl
  others := rfl
  counts := by decide +kernel
  rows := by
    have every : ∀ table < 36, ∀ row ∈ wideTables.rows table,
        List.Forall₂ (fun cell value => value < 256 ^ cell.width wideTables.sizes)
          (Standard.columns[table]?.getD []) row := by decide +kernel
    intro table cells known row listed
    have stands := every table (List.getElem?_eq_some_iff.mp known).1 row listed
    rwa [known] at stands

theorem wideBytes_holds : HoldsRoot wideBytes wideRoot where
  size := by decide +kernel
  head := rfl
  version := by decide +kernel
  flags := rfl
  count := by decide
  directory := by decide +kernel
  streams := by decide +kernel

theorem references_decodes_wide : HoldsRoot wideBytes wideRoot ∧ wideTables.Proper ∧
    references wideBytes = .ok { modules := ["user32.dll"], assemblies := [⟨"Überbau","8.0.1.65535"⟩] } := by
  have modules : List.Forall₂ (NamesModule wideHeap) (wideTables.rows 0x1A) ["user32.dll",""] :=
    .cons ⟨1,rfl,by decide,by decide +kernel⟩ (.cons ⟨0,rfl,by decide,by decide +kernel⟩ .nil)
  have assemblies : List.Forall₂ (NamesAssembly wideHeap) (wideTables.rows 0x23) [⟨"Überbau","8.0.1.65535"⟩] :=
    .cons ⟨8,0,1,65535,0,0,12,0,0,rfl,⟨by decide,by decide +kernel⟩,by decide +kernel⟩ .nil
  have tables : wideRoot.streams.filter (fun stream => stream.name = "#~" ∨ stream.name = "#-") =
      [⟨"#~",77,wideTables.bytes⟩] := rfl
  have strings : wideRoot.streams.filter (·.name = "#Strings") = [⟨"#Strings",56,wideHeap⟩] := rfl
  exact ⟨wideBytes_holds,wideTables_proper,
    references_decodes wideBytes_holds tables strings wideTables_proper rfl modules assemblies⟩

end LoadMap.Metadata
