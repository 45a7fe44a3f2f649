import LoadMap.Metadata.References
import LoadMap.Proofs.Bytes
import LoadMap.Proofs.Text.Utf8
import Mathlib.Data.List.Forall2
import Mathlib.Data.List.ReduceOption
import Mathlib.Data.Nat.Log

/-! The physical layout of metadata as ECMA-335 II.22 and II.24 prescribe it, written down apart from the
reader: the bytes of a table stream and of a metadata root, for any content. -/
namespace LoadMap.Metadata.Standard

open Bytes (Holds digits)

/-- What a column holds. A coded index is a row of one of several tables; the place of a table in the list
is its tag, and some tags stand for no table. -/
inductive Cell
  | constant (width : Nat)
  | string
  | guid
  | blob
  | index (table : Nat)
  | coded (tags : List (Option Nat))
  deriving DecidableEq

namespace Cell

def typeDefOrRef : Cell := .coded [some 0x02,some 0x01,some 0x1B]

def hasConstant : Cell := .coded [some 0x04,some 0x08,some 0x17]

def hasCustomAttribute : Cell :=
  .coded [some 0x06,some 0x04,some 0x01,some 0x02,some 0x08,some 0x09,some 0x0A,some 0x00,some 0x0E,some 0x17,
    some 0x14,some 0x11,some 0x1A,some 0x1B,some 0x20,some 0x23,some 0x26,some 0x27,some 0x28,some 0x2A,some 0x2C,
    some 0x2B]

def hasFieldMarshal : Cell := .coded [some 0x04,some 0x08]

def hasDeclSecurity : Cell := .coded [some 0x02,some 0x06,some 0x20]

def memberRefParent : Cell := .coded [some 0x02,some 0x01,some 0x1A,some 0x06,some 0x1B]

def hasSemantics : Cell := .coded [some 0x14,some 0x17]

def methodDefOrRef : Cell := .coded [some 0x06,some 0x0A]

def memberForwarded : Cell := .coded [some 0x04,some 0x06]

def customAttributeType : Cell := .coded [none,none,some 0x06,some 0x0A,none]

def resolutionScope : Cell := .coded [some 0x00,some 0x1A,some 0x23,some 0x01]

end Cell

/-- The columns of the tables from `Module` (0x00) to `AssemblyRef` (0x23). Tables 0x03, 0x05, 0x07, 0x13 and
0x16 point to rows of the table after them; 0x1E and 0x1F belong to edit and continue. -/
def columns : List (List Cell) := [
  [.constant 2,.string,.guid,.guid,.guid],
  [.resolutionScope,.string,.string],
  [.constant 4,.string,.string,.typeDefOrRef,.index 0x04,.index 0x06],
  [.index 0x04],
  [.constant 2,.string,.blob],
  [.index 0x06],
  [.constant 4,.constant 2,.constant 2,.string,.blob,.index 0x08],
  [.index 0x08],
  [.constant 2,.constant 2,.string],
  [.index 0x02,.typeDefOrRef],
  [.memberRefParent,.string,.blob],
  [.constant 1,.constant 1,.hasConstant,.blob],
  [.hasCustomAttribute,.customAttributeType,.blob],
  [.hasFieldMarshal,.blob],
  [.constant 2,.hasDeclSecurity,.blob],
  [.constant 2,.constant 4,.index 0x02],
  [.constant 4,.index 0x04],
  [.blob],
  [.index 0x02,.index 0x14],
  [.index 0x14],
  [.constant 2,.string,.typeDefOrRef],
  [.index 0x02,.index 0x17],
  [.index 0x17],
  [.constant 2,.string,.blob],
  [.constant 2,.index 0x06,.hasSemantics],
  [.index 0x02,.methodDefOrRef,.methodDefOrRef],
  [.string],
  [.blob],
  [.constant 2,.memberForwarded,.string,.index 0x1A],
  [.constant 4,.index 0x04],
  [.constant 4,.constant 4],
  [.constant 4],
  [.constant 4,.constant 2,.constant 2,.constant 2,.constant 2,.constant 4,.blob,.string,.string],
  [.constant 4],
  [.constant 4,.constant 4,.constant 4],
  [.constant 2,.constant 2,.constant 2,.constant 2,.constant 4,.blob,.string,.string,.blob]]

/-- What the width of a column depends on. -/
structure Sizes where
  flags : Nat
  rowCount : Nat → Nat

def Cell.width (sizes : Sizes) : Cell → Nat
  | .constant width => width
  | .string => if sizes.flags.testBit 0 then 4 else 2
  | .guid => if sizes.flags.testBit 1 then 4 else 2
  | .blob => if sizes.flags.testBit 2 then 4 else 2
  | .index table => if sizes.rowCount table < 2 ^ 16 then 2 else 4
  | .coded tags =>
    if ∀ table ∈ tags.reduceOption, sizes.rowCount table < 2 ^ (16 - Nat.clog 2 tags.length) then 2 else 4

theorem Cell.width_constant (sizes : Sizes) (width : Nat) : (Cell.constant width).width sizes = width := rfl

def rowWidth (sizes : Sizes) (cells : List Cell) : Nat := (cells.map (·.width sizes)).sum

/-- The bytes of a row, given by the numbers in its columns. -/
def rowBytes (sizes : Sizes) (cells : List Cell) (row : List Nat) : List UInt8 :=
  (cells.zip row).flatMap fun entry => digits (entry.1.width sizes) entry.2

/-- A number with the given bits, the lowest first. -/
def mask : List Bool → Nat
  | [] => 0
  | bit :: rest => bit.toNat + 2 * mask rest

/-- The content of a stream of tables. -/
structure TableStream where
  /-- Reserved bytes and a version. -/
  head : List UInt8
  flags : Nat
  reserved : UInt8
  sorted : List UInt8
  /-- What follows the row counts when the flags say so. -/
  extra : List UInt8
  /-- The rows of the valid ones among tables 0x00 to 0x23. -/
  tables : List (Option (List (List Nat)))
  /-- The row counts of the valid ones among the tables after them. -/
  others : List (Option Nat)
  rest : List UInt8

namespace TableStream

variable (stream : TableStream)

def counts? : List (Option Nat) := stream.tables.map (·.map List.length) ++ stream.others

def sizes : Sizes where
  flags := stream.flags
  rowCount := fun table => stream.counts?[table]?.join.getD 0

def rows (table : Nat) : List (List Nat) := stream.tables[table]?.join.getD []

def tableBytes (cells : List Cell) (rows? : Option (List (List Nat))) : List UInt8 :=
  (rows?.getD []).flatMap (rowBytes stream.sizes cells)

def bytes : List UInt8 :=
  stream.head ++ [UInt8.ofNat stream.flags,stream.reserved] ++ digits 8 (mask (stream.counts?.map Option.isSome)) ++
    stream.sorted ++ stream.counts?.reduceOption.flatMap (digits 4) ++ stream.extra ++
    (List.zipWith stream.tableBytes columns stream.tables).flatten ++ stream.rest

/-- Everything has the size that its place gives it. -/
structure Proper : Prop where
  head : stream.head.length = 6
  flags : stream.flags < 256
  sorted : stream.sorted.length = 8
  extra : stream.extra.length = if stream.flags.testBit 6 then 4 else 0
  tables : stream.tables.length = 36
  others : stream.others.length = 28
  counts : ∀ count ∈ stream.counts?.reduceOption, count < 2 ^ 32
  rows : ∀ table cells, columns[table]? = some cells → ∀ row ∈ stream.rows table,
    List.Forall₂ (fun cell value => value < 256 ^ cell.width stream.sizes) cells row

end TableStream

/-- A stream of a metadata root. -/
structure Stream where
  name : String
  offset : Nat
  content : List UInt8

/-- The name ends with a zero and is filled up to a multiple of four bytes. -/
def Stream.header (stream : Stream) : List UInt8 :=
  digits 4 stream.offset ++ digits 4 stream.content.length ++ Text.Utf8.encode stream.name ++
    List.replicate (4 - (Text.Utf8.encode stream.name).length % 4) 0

/-- A stream lies in the bytes, and its name ends at its first zero. -/
def Stream.Stands (bytes : ByteArray) (stream : Stream) : Prop :=
  '\x00' ∉ stream.name.toList ∧ stream.offset < 2 ^ 32 ∧ stream.content.length < 2 ^ 32 ∧
    Holds bytes stream.offset stream.content

instance (bytes : ByteArray) (stream : Stream) : Decidable (stream.Stands bytes) :=
  inferInstanceAs (Decidable (_ ∧ _))

/-- A metadata root: what its directory says, and its streams in the order of the directory. -/
structure Root where
  /-- A version and reserved bytes. -/
  head : List UInt8
  version : List UInt8
  flags : List UInt8
  streams : List Stream

def Root.directory (root : Root) : List UInt8 :=
  digits 4 0x424A5342 ++ root.head ++ digits 4 root.version.length ++ root.version ++ root.flags ++
    digits 2 root.streams.length ++ root.streams.flatMap Stream.header

/-- The bytes are those of a metadata root; the streams may lie anywhere in them. -/
structure HoldsRoot (bytes : ByteArray) (root : Root) : Prop where
  size : bytes.size < 2 ^ 64
  head : root.head.length = 8
  version : root.version.length < 2 ^ 32
  flags : root.flags.length = 2
  count : root.streams.length < 2 ^ 16
  directory : Holds bytes 0 root.directory
  streams : ∀ stream ∈ root.streams, stream.Stands bytes

/-- At an index into a heap of strings stands a text with a zero after it. -/
def Names (heap : List UInt8) (index : Nat) (text : String) : Prop :=
  '\x00' ∉ text.toList ∧ Holds heap.toByteArray index (Text.Utf8.encode text ++ [0])

/-- A row of the table `ModuleRef`. -/
def NamesModule (heap : List UInt8) (row : List Nat) (name : String) : Prop :=
  ∃ index, row = [index] ∧ Names heap index name

/-- A row of the table `AssemblyRef`. -/
def NamesAssembly (heap : List UInt8) (row : List Nat) (reference : AssemblyReference) : Prop :=
  ∃ major minor build revision flags key name culture hash,
    row = [major,minor,build,revision,flags,key,name,culture,hash] ∧ Names heap name reference.name ∧
      reference.version = s!"{major}.{minor}.{build}.{revision}"

end LoadMap.Metadata.Standard
