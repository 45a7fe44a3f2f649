import LoadMap.Proofs.Metadata.Layout

/-! A table stream with the bytes of the standard is taken apart as it was written: the reader knows the
layout, and where each table begins. -/
namespace LoadMap.Metadata

open Bytes (Holds digits holds_append holds_cons)
open Standard (Cell Sizes TableStream mask rowWidth rowBytes)

variable {stream : ByteArray}

theorem testBit_mask (bits : List Bool) (place : Nat) : (mask bits).testBit place = bits[place]?.getD false := by
  induction bits generalizing place with
  | nil => simp [mask]
  | cons bit rest ih =>
    cases place with
    | zero => cases bit <;> simp [mask,Nat.testBit_zero,Nat.add_mod]
    | succ place =>
      have low := Bool.toNat_lt bit
      have half : (bit.toNat + 2 * mask rest) / 2 = mask rest := by omega
      rw [mask,Nat.testBit_succ,half,ih,List.getElem?_cons_succ]

theorem mask_lt (bits : List Bool) : mask bits < 2 ^ bits.length := by
  induction bits with
  | nil => exact Nat.one_pos
  | cons bit rest ih =>
    have low := Bool.toNat_lt bit
    rw [mask,List.length_cons,Nat.pow_succ]
    omega

/-- The counts of the tables that are there stand one after the other. -/
theorem readCounts_eq (small : stream.size < Word.limit 64) {valid table cursor : Nat} {counts : List (Option Nat)}
    (bits : ∀ place count?, counts[place]? = some count? → valid.testBit (table + place) = count?.isSome)
    (words : ∀ count ∈ counts.reduceOption, count < 2 ^ 32)
    (holds : Holds stream cursor (counts.reduceOption.flatMap (digits 4))) :
    readCounts stream valid counts.length table cursor =
      .ok (counts.map (·.getD 0),cursor + 4 * counts.reduceOption.length) := by
  induction counts generalizing table cursor with
  | nil => rfl
  | cons count? rest ih =>
    have bit := bits 0 count? rfl
    have others : ∀ place count?, rest[place]? = some count? →
        valid.testBit (table + 1 + place) = count?.isSome := by
      intro place count? found
      rw [Nat.add_assoc,Nat.add_comm 1]
      exact bits (place + 1) count? found
    rw [Nat.add_zero] at bit
    rw [List.length_cons,readCounts,bit]
    cases count? with
    | none =>
      rw [List.reduceOption_cons_of_none] at words holds ⊢
      simp only [Option.isSome_none,Bool.false_eq_true,if_false,ih others words holds]
      rfl
    | some count =>
      rw [List.reduceOption_cons_of_some] at words holds ⊢
      obtain ⟨word,words⟩ := List.forall_mem_cons.mp words
      obtain ⟨here,there⟩ := holds_append.mp (List.flatMap_cons ▸ holds)
      rw [Bytes.length_digits] at there
      have inside := there.inside
      have next : Bytes.sum cursor 4 = .ok (cursor + 4) := Bytes.sum_eq_ok_iff.mpr ⟨by omega,rfl⟩
      simp only [Option.isSome_some,if_true,Bytes.u32,here.number word,next,bind,Except.bind,
        ih others words there,pure,Except.pure,List.map_cons,Option.getD_some,List.length_cons]
      congr 2
      omega

/-- Where tables stand one after the other, each begins where the reader looks for it. -/
theorem tableStarts_holds (small : stream.size < Word.limit 64) {layout : Layout} {tables : List Nat}
    {blocks : List (List UInt8)} {cursor : Nat}
    (sizes : List.Forall₂ (fun table block => block.length = layout.rowSize table * layout.rowCount table)
      tables blocks) (holds : Holds stream cursor blocks.flatten) :
    ∃ starts : List Nat, tableStarts layout tables cursor = .ok starts ∧
      ∀ (place : Nat) block, blocks[place]? = some block →
        ∃ start, starts[place]? = some start ∧ Holds stream start block := by
  induction sizes generalizing cursor with
  | nil => exact ⟨[],rfl,nofun⟩
  | @cons table block tables blocks size _ ih =>
    obtain ⟨here,there⟩ := holds_append.mp (List.flatten_cons ▸ holds)
    have inside := there.inside
    rw [size] at there inside
    have next : Bytes.entry cursor (layout.rowSize table) (layout.rowCount table) =
        .ok (cursor + layout.rowSize table * layout.rowCount table) :=
      Bytes.entry_eq_ok_iff.mpr ⟨by omega,rfl⟩
    obtain ⟨starts,made,placed⟩ := ih there
    refine ⟨cursor :: starts,?_,?_⟩
    · simp only [tableStarts,next,made,bind,Except.bind,pure,Except.pure]
    · rintro (_ | place) other found
      · obtain rfl := Option.some.inj found
        exact ⟨cursor,rfl,here⟩
      · exact placed place other found

section Written

variable {written : TableStream}

theorem length_rowBytes {sizes : Sizes} {cells : List Cell} {row : List Nat} (same : cells.length = row.length) :
    (rowBytes sizes cells row).length = rowWidth sizes cells := by
  have widths : (cells.zip row).map (fun entry => (digits (entry.1.width sizes) entry.2).length) =
      cells.map (·.width sizes) := by
    simp only [Bytes.length_digits]
    rw [← Function.comp_def (fun cell => Cell.width sizes cell) Prod.fst,← List.map_map,List.map_fst_zip same.le]
  rw [rowBytes,List.length_flatMap,widths,rowWidth]

theorem rowCount_eq (proper : written.Proper) {table : Nat} (less : table < 36) :
    written.sizes.rowCount table = (written.rows table).length := by
  have inside : table < (written.tables.map (·.map List.length)).length := by
    rw [List.length_map,proper.tables]
    exact less
  rw [TableStream.sizes,TableStream.counts?,TableStream.rows]
  simp only [List.getElem?_append_left inside,List.getElem?_map]
  rcases written.tables[table]? with _ | _ | rows <;> rfl

theorem length_rows (proper : written.Proper) {table : Nat} {cells : List Cell}
    (known : Standard.columns[table]? = some cells) :
    ∀ row ∈ written.rows table, (rowBytes written.sizes cells row).length = rowWidth written.sizes cells :=
  fun row listed => length_rowBytes (proper.rows table cells known row listed).length_eq

/-- The layout that the reader makes of flags and row counts. -/
def layoutOf (written : TableStream) : Layout where
  rows := written.counts?.map (·.getD 0)
  string := heapWidth written.flags 0
  guid := heapWidth written.flags 1
  blob := heapWidth written.flags 2

theorem fits_layoutOf (written : TableStream) : (layoutOf written).Fits written.sizes := by
  refine ⟨rfl,rfl,rfl,fun table => ?_⟩
  rw [Layout.rowCount,layoutOf,TableStream.sizes]
  simp only [List.getElem?_map]
  rcases written.counts?[table]? with _ | _ | count <;> rfl

theorem length_counts? (proper : written.Proper) : written.counts?.length = 64 := by
  rw [TableStream.counts?,List.length_append,List.length_map,proper.tables,proper.others]

theorem blocks_sizes (proper : written.Proper) : List.Forall₂
    (fun table block => block.length = (layoutOf written).rowSize table * (layoutOf written).rowCount table)
    (List.range columns.length) (List.zipWith written.tableBytes Standard.columns written.tables) := by
  refine List.forall₂_iff_get.mpr ⟨?_,fun table here there => ?_⟩
  · rw [List.length_range,List.length_zipWith,proper.tables]
    rfl
  have less : table < 36 := by rwa [List.length_range] at here
  have known : Standard.columns[table]? = some Standard.columns[table] := List.getElem?_eq_getElem less
  have inside : table < written.tables.length := by rwa [proper.tables]
  have rows : written.rows table = written.tables[table].getD [] := by
    rw [TableStream.rows,List.getElem?_eq_getElem inside]
    rfl
  simp only [List.get_eq_getElem,List.getElem_zipWith,List.getElem_range]
  rw [(fits_layoutOf written).rowSize known,(fits_layoutOf written).rows,rowCount_eq proper less,
    TableStream.tableBytes,← rows]
  exact Bytes.length_flatMap_of_equal (length_rows proper known)

/-- The reader knows the layout of the tables, and where the rows of each table stand. -/
theorem readTables_eq (proper : written.Proper) (small : stream.size < Word.limit 64)
    (holds : Holds stream 0 written.bytes) :
    ∃ tables, readTables stream = .ok tables ∧ tables.layout.Fits written.sizes ∧
      ∀ (table : Nat) cells, Standard.columns[table]? = some cells → ∃ start, tables.starts[table]? = some start ∧
        Holds stream start ((written.rows table).flatMap (rowBytes written.sizes cells)) := by
  obtain ⟨holds,-⟩ := holds_append.mp holds
  obtain ⟨holds,tables⟩ := holds_append.mp holds
  obtain ⟨holds,extra⟩ := holds_append.mp holds
  obtain ⟨holds,counts⟩ := holds_append.mp holds
  obtain ⟨holds,-⟩ := holds_append.mp holds
  obtain ⟨holds,valid⟩ := holds_append.mp holds
  obtain ⟨-,flags⟩ := holds_append.mp holds
  simp only [List.length_append,proper.head,proper.sorted,proper.extra,Bytes.length_digits,List.length_cons,
    List.length_nil,Nat.reduceAdd,Nat.zero_add,
    Bytes.length_flatMap_of_equal (fun count _ => Bytes.length_digits 4 count)] at tables extra counts valid flags
  -- The bit vector of the valid tables is read in two halves.
  have bounded := mask_lt (written.counts?.map Option.isSome)
  rw [List.length_map,length_counts? proper] at bounded
  rw [Bytes.digits_add 4 4] at valid
  obtain ⟨low,high⟩ := holds_append.mp valid
  rw [← Bytes.digits_mod] at low
  rw [Bytes.length_digits] at high
  have lowWord : Bytes.number "u32" 4 stream 8 = .ok _ := low.number (Nat.mod_lt _ (by decide))
  have highWord : Bytes.number "u32" 4 stream 12 = .ok _ := high.number (Nat.div_lt_of_lt_mul bounded)
  have whole := Nat.mod_add_div (mask (written.counts?.map Option.isSome)) (256 ^ 4)
  obtain ⟨flag,-⟩ := holds_cons.mp flags
  have byte : (UInt8.ofNat written.flags).toNat = written.flags := Text.Utf8.toNat_ofNat proper.flags
  have bits : ∀ place count?, written.counts?[place]? = some count? →
      (mask (written.counts?.map Option.isSome)).testBit (0 + place) = count?.isSome := by
    intro place count? found
    rw [Nat.zero_add,testBit_mask,List.getElem?_map,found]
    rfl
  have read := readCounts_eq small bits proper.counts counts
  rw [length_counts? proper] at read
  have inside := tables.inside
  obtain ⟨starts,made,placed⟩ := tableStarts_holds small (blocks_sizes proper) tables
  refine ⟨⟨layoutOf written,starts⟩,?_,fits_layoutOf written,?_⟩
  · have limit : Word.limit 32 = 256 ^ 4 := rfl
    rw [layoutOf] at made
    simp only [readTables,flag,byte,Bytes.u32,lowWord,highWord,limit,whole,read,bind,Except.bind,pure,Except.pure]
    by_cases more : written.flags.testBit 6
    · rw [if_pos more] at made inside
      have next : Bytes.sum (24 + 4 * written.counts?.reduceOption.length) 4 =
          .ok (24 + 4 * written.counts?.reduceOption.length + 4) := Bytes.sum_eq_ok_iff.mpr ⟨by omega,rfl⟩
      simp only [more,if_true,next,made,layoutOf]
    · rw [if_neg more,Nat.add_zero] at made
      simp only [more,Bool.false_eq_true,if_false,made,layoutOf]
  · intro table cells known
    have less : table < 36 := (List.getElem?_eq_some_iff.mp known).1
    obtain ⟨rows?,listed⟩ : ∃ rows?, written.tables[table]? = some rows? :=
      ⟨_,List.getElem?_eq_getElem (by rwa [proper.tables])⟩
    refine placed table _ ?_
    rw [List.getElem?_zipWith,known,listed,TableStream.rows,listed]
    rfl

end Written
end LoadMap.Metadata
