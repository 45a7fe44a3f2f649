import LoadMap.Proofs.Metadata.Standard

/-! The layout of the tables is the one of the standard: each of the 36 tables has rows of the same width,
whatever the row counts and the sizes of the heaps. -/
namespace LoadMap.Metadata

open Standard (Cell Sizes rowWidth)

def Standard.Cell.column : Cell → Column
  | .constant width => .fixed width
  | .string => .string
  | .guid => .guid
  | .blob => .blob
  | .index table => .row table
  | .coded tags => .tagged (Nat.clog 2 tags.length) tags.reduceOption

/-- A layout was made for these row counts and heap sizes. -/
structure Layout.Fits (layout : Layout) (sizes : Sizes) : Prop where
  string : layout.string = Cell.string.width sizes
  guid : layout.guid = Cell.guid.width sizes
  blob : layout.blob = Cell.blob.width sizes
  rows : ∀ table, layout.rowCount table = sizes.rowCount table

/-- What the fixed columns of a row take together, and the other columns. Neighbouring fixed columns may be
counted as one. -/
def parts : List Column → Nat × List Column
  | [] => (0,[])
  | .fixed width :: rest => (width + (parts rest).1,(parts rest).2)
  | column :: rest => ((parts rest).1,column :: (parts rest).2)

/-- The columns of the reader are those of the standard. -/
theorem columns_agree : columns.map parts = Standard.columns.map fun cells => parts (cells.map Cell.column) := by
  decide +kernel

variable {layout : Layout} {sizes : Sizes}

theorem Layout.Fits.width (fits : layout.Fits sizes) (cell : Cell) :
    layout.width cell.column = cell.width sizes := by
  cases cell with
  | constant width => rfl
  | string => exact fits.string
  | guid => exact fits.guid
  | blob => exact fits.blob
  | index table =>
    rw [Cell.column,Layout.width,Layout.indexWidth,Cell.width]
    simp only [List.all_cons,List.all_nil,Bool.and_true,decide_eq_true_eq,fits.rows]
    rfl
  | coded tags =>
    rw [Cell.column,Layout.width,Layout.indexWidth,Cell.width]
    simp only [List.all_eq_true,decide_eq_true_eq,fits.rows,Word.limit,Nat.one_shiftLeft]

theorem sum_width (layout : Layout) (columns : List Column) :
    (columns.map layout.width).sum = (parts columns).1 + ((parts columns).2.map layout.width).sum := by
  induction columns with
  | nil => rfl
  | cons column rest ih =>
    rw [List.map_cons,List.sum_cons,ih]
    cases column <;> simp only [parts,List.map_cons,List.sum_cons,Layout.width] <;> omega

theorem rowSize_eq_sum (layout : Layout) (table : Nat) :
    layout.rowSize table = ((columns[table]?.getD []).map layout.width).sum := by
  rw [Layout.rowSize,List.sum_eq_foldl,List.foldl_map]

theorem Layout.Fits.rowSize (fits : layout.Fits sizes) {table : Nat} {cells : List Cell}
    (known : Standard.columns[table]? = some cells) : layout.rowSize table = rowWidth sizes cells := by
  have agree := congrArg (·[table]?) columns_agree
  simp only [List.getElem?_map,known,Option.map_some,Option.map_eq_some_iff] at agree
  obtain ⟨listed,found,same⟩ := agree
  rw [rowSize_eq_sum,found,Option.getD_some,sum_width,same,← sum_width,List.map_map,rowWidth]
  exact congrArg List.sum (List.map_congr_left fun cell _ => fits.width cell)

end LoadMap.Metadata
