import LoadMap.Export
import LoadMap.Image.SectionView
import LoadMap.Word

/-! The export table: the addresses of the exported functions by number, and the names that some
of the numbers have. -/
namespace LoadMap.Image.ExportTable

open SectionView (refuse)

def exportDirectory : Nat := 0

structure Contents where
  dllName? : Option String
  base : Nat
  /-- The place of the directory; an address inside it is a forwarder. -/
  address : Nat
  size : Nat
  functions : List Nat
  names : List (Nat × Nat)

def contents (view : SectionView) : Result (Option Contents) :=
  match view.directory? exportDirectory with
  | none => refuse "no export directory"
  | some (0,_) => .ok none
  | some (address,size) =>
    match view.tail? address 40 4 with
    | none => refuse "export directory is not mapped"
    | some header =>
      let word := fun place => Bytes.littleEndian header place 4
      let dllName? := view.cString? (word 12)
      if dllName?.isNone ∧ word 12 ≠ 0 then refuse "module name is not mapped"
      else
        let functions? := view.table? (word 28) 4 (word 20)
        let names? := view.table? (word 32) 4 (word 24)
        let indices? := view.table? (word 36) 2 (word 24)
        match functions?, names?, indices? with
        | some functions, some names, some indices =>
          .ok (some {
            dllName?, base := word 16, address, size, functions, names := names.zip indices })
        | _, _, _ => refuse "export tables are not mapped"

/-- The names of the functions that have one, by index; the first name of an index counts. -/
def readNames (view : SectionView) (contents : Contents) : Result (List (Nat × String)) :=
  (contents.names.filter (·.2 < contents.functions.length)).mapM fun (address,index) =>
    match view.cString? address with
    | some name => .ok (index,name)
    | none => refuse "export name is not mapped"

def forwarder (view : SectionView) (contents : Contents) (address : Nat) :
    Result (Option String) :=
  if contents.address ≤ address ∧ address - contents.address < contents.size then
    match view.cString? address with
    | some text => .ok (some text)
    | none => refuse "forwarder is not mapped"
  else .ok none

/-- Functions without an address are gaps in the numbering. -/
def symbolOf (view : SectionView) (contents : Contents) (names : List (Nat × String))
    (index address : Nat) : Result (Option ExportedSymbol) := do
  if address = 0 then return none
  let forwardedTo? ← forwarder view contents address
  if contents.base + index < Word.limit 32 then
    return some {
      ordinal := contents.base + index, name? := names.lookup index, address, forwardedTo? }
  else throw (.malformedImage (.ordinalOverflow contents.base))

def read (view : SectionView) : Result (Option String × List ExportedSymbol) := do
  match ← contents view with
  | none => return (none,[])
  | some contents =>
    let names ← readNames view contents
    let symbols ← contents.functions.zipIdx.mapM fun (address,index) =>
      symbolOf view contents names index address
    return (contents.dllName?,symbols.filterMap id)

end LoadMap.Image.ExportTable
