import LoadMap.Word

/-! JSON values. Numbers keep the text they were written with. -/
namespace LoadMap

inductive Json
  | null
  | bool (value : Bool)
  | number (literal : String)
  | string (text : String)
  | array (items : List Json)
  | object (fields : List (String × Json))
  /-- A string, or an object with a key, that stands for no text because a surrogate in it lacks its
  partner. Such a value may be passed over but not be used. -/
  | unreadable
  deriving Repr, Inhabited

namespace Json

def ofNat (value : Nat) : Json := .number (toString value)

def ofOption {α : Type} (write : α → Json) : Option α → Json
  | none => .null
  | some value => write value

def toNat? : Json → Option Nat
  | .number literal =>
    let value := literal.toList.foldl (fun value char => value * 10 + (char.toNat - 48)) 0
    if literal.toList.all Char.isDigit ∧ value < Word.limit 64 then some value else none
  | _ => none

def toText? : Json → Option String
  | .string text => some text
  | _ => none

end Json
end LoadMap
