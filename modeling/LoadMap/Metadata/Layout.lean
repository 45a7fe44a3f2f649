import LoadMap.Word

/-! The layout of the metadata tables of managed images: which columns the rows of each table have,
and how wide a column is for given row counts and heap sizes. -/
namespace LoadMap.Metadata

namespace TableId

def module : Nat := 0x00
def typeRef : Nat := 0x01
def typeDef : Nat := 0x02
def field : Nat := 0x04
def methodDef : Nat := 0x06
def param : Nat := 0x08
def interfaceImpl : Nat := 0x09
def memberRef : Nat := 0x0A
def declSecurity : Nat := 0x0E
def standAloneSig : Nat := 0x11
def event : Nat := 0x14
def property : Nat := 0x17
def moduleRef : Nat := 0x1A
def typeSpec : Nat := 0x1B
def assembly : Nat := 0x20
def assemblyRef : Nat := 0x23
def file : Nat := 0x26
def exportedType : Nat := 0x27
def manifestResource : Nat := 0x28
def genericParam : Nat := 0x2A
def methodSpec : Nat := 0x2B
def genericParamConstraint : Nat := 0x2C

end TableId

inductive Column
  | fixed (width : Nat)
  | string
  | guid
  | blob
  | row (table : Nat)
  /-- A row number of one of several tables, told apart by the low `tagBits` bits. -/
  | tagged (tagBits : Nat) (tables : List Nat)
  deriving DecidableEq, Repr

namespace Column

def typeDefOrRef : Column := .tagged 2 [TableId.typeDef,TableId.typeRef,TableId.typeSpec]

def methodDefOrRef : Column := .tagged 1 [TableId.methodDef,TableId.memberRef]

def resolutionScope : Column :=
  .tagged 2 [TableId.module,TableId.moduleRef,TableId.assemblyRef,TableId.typeRef]

def memberParent : Column :=
  .tagged 3 [TableId.typeDef,TableId.typeRef,TableId.moduleRef,TableId.methodDef,
    TableId.typeSpec]

def hasConstant : Column := .tagged 2 [TableId.field,TableId.param,TableId.property]

def hasAttribute : Column :=
  .tagged 5 [TableId.methodDef,TableId.field,TableId.typeRef,TableId.typeDef,TableId.param,
    TableId.interfaceImpl,TableId.memberRef,TableId.module,TableId.declSecurity,
    TableId.property,TableId.event,TableId.standAloneSig,TableId.moduleRef,TableId.typeSpec,
    TableId.assembly,TableId.assemblyRef,TableId.file,TableId.exportedType,
    TableId.manifestResource,TableId.genericParam,TableId.genericParamConstraint,
    TableId.methodSpec]

def attributeType : Column := .tagged 3 [TableId.methodDef,TableId.memberRef]

def hasMarshal : Column := .tagged 1 [TableId.field,TableId.param]

def hasSecurity : Column := .tagged 2 [TableId.typeDef,TableId.methodDef,TableId.assembly]

def hasSemantics : Column := .tagged 1 [TableId.event,TableId.property]

def memberForwarded : Column := .tagged 1 [TableId.field,TableId.methodDef]

end Column

/-- The columns of tables 0x00 to 0x23, in table order. -/
def columns : List (List Column) := [
  [.fixed 2,.string,.guid,.guid,.guid],
  [.resolutionScope,.string,.string],
  [.fixed 4,.string,.string,.typeDefOrRef,.row TableId.field,.row TableId.methodDef],
  [.row TableId.field],
  [.fixed 2,.string,.blob],
  [.row TableId.methodDef],
  [.fixed 4,.fixed 2,.fixed 2,.string,.blob,.row TableId.param],
  [.row TableId.param],
  [.fixed 2,.fixed 2,.string],
  [.row TableId.typeDef,.typeDefOrRef],
  [.memberParent,.string,.blob],
  [.fixed 2,.hasConstant,.blob],
  [.hasAttribute,.attributeType,.blob],
  [.hasMarshal,.blob],
  [.fixed 2,.hasSecurity,.blob],
  [.fixed 2,.fixed 4,.row TableId.typeDef],
  [.fixed 4,.row TableId.field],
  [.blob],
  [.row TableId.typeDef,.row TableId.event],
  [.row TableId.event],
  [.fixed 2,.string,.typeDefOrRef],
  [.row TableId.typeDef,.row TableId.property],
  [.row TableId.property],
  [.fixed 2,.string,.blob],
  [.fixed 2,.row TableId.methodDef,.hasSemantics],
  [.row TableId.typeDef,.methodDefOrRef,.methodDefOrRef],
  [.string],
  [.blob],
  [.fixed 2,.memberForwarded,.string,.row TableId.moduleRef],
  [.fixed 4,.row TableId.field],
  [.fixed 4,.fixed 4],
  [.fixed 4],
  [.fixed 4,.fixed 8,.fixed 4,.blob,.string,.string],
  [.fixed 4],
  [.fixed 4,.fixed 4,.fixed 4],
  [.fixed 8,.fixed 4,.blob,.string,.string,.blob]]

structure Layout where
  rows : List Nat
  string : Nat
  guid : Nat
  blob : Nat
  deriving Repr

namespace Layout

def rowCount (layout : Layout) (table : Nat) : Nat := layout.rows[table]?.getD 0

/-- A row number takes two bytes as long as it fits beside the tag. -/
def indexWidth (layout : Layout) (tagBits : Nat) (tables : List Nat) : Nat :=
  if tables.all fun table => layout.rowCount table < Word.limit (16 - tagBits) then 2 else 4

def width (layout : Layout) : Column → Nat
  | .fixed width => width
  | .string => layout.string
  | .guid => layout.guid
  | .blob => layout.blob
  | .row table => layout.indexWidth 0 [table]
  | .tagged tagBits tables => layout.indexWidth tagBits tables

def rowSize (layout : Layout) (table : Nat) : Nat :=
  (columns[table]?.getD []).foldl (fun size column => size + layout.width column) 0

end Layout
end LoadMap.Metadata
