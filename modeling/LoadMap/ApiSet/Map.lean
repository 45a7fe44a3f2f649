import LoadMap.ApiSet.Contract

/-! Which modules implement which contracts. -/
namespace LoadMap

structure ApiSet.Host where
  importer? : Option String
  host : String
  deriving DecidableEq, Repr, Inhabited

structure ApiSet.Entry where
  name : String
  hosts : List ApiSet.Host
  deriving DecidableEq, Repr, Inhabited

/-- The host for importers without a host of their own; a nameless host is none. -/
def ApiSet.Entry.defaultHost? (entry : ApiSet.Entry) : Option String :=
  (((entry.hosts.find? (·.importer?.isNone)).or entry.hosts.head?).map (·.host)).filter (· ≠ "")

structure ApiSetMap where
  entries : List ApiSet.Entry := []
  deriving DecidableEq, Repr, Inhabited

namespace ApiSetMap

open ApiSet

def insert (map : ApiSetMap) (entry : Entry) : ApiSetMap :=
  { entries := map.entries.filter (hashedName ·.name ≠ hashedName entry.name) ++ [entry] }

def ofEntries (entries : List Entry) : ApiSetMap :=
  entries.foldl insert {}

def lookup? (map : ApiSetMap) (moduleName : String) : Option Entry :=
  map.entries.find? (hashedName ·.name = hashedName moduleName)

def size (map : ApiSetMap) : Nat := map.entries.length

def sorted (map : ApiSetMap) : List Entry :=
  map.entries.mergeSort (·.name ≤ ·.name)

end ApiSetMap
end LoadMap
