import LoadMap.Json.Value

/-! Writing JSON, in one line or over several with two spaces for each level. -/
namespace LoadMap.Json

def hexDigit (value : Nat) : Char :=
  Char.ofNat (if value < 10 then 48 + value else 87 + value)

def escape (char : Char) : List Char :=
  match char with
  | '"' => ['\\','"']
  | '\\' => ['\\','\\']
  | '\n' => ['\\','n']
  | '\r' => ['\\','r']
  | '\t' => ['\\','t']
  | char =>
    if char.toNat = 8 then ['\\','b']
    else if char.toNat = 12 then ['\\','f']
    else if char.toNat < 32 then
      ['\\','u','0','0',hexDigit (char.toNat / 16),hexDigit (char.toNat % 16)]
    else [char]

def quote (text : String) : List Char :=
  '"' :: text.toList.flatMap escape ++ ['"']

def commas : List (List Char) → List Char
  | [] => []
  | [part] => part
  | part :: rest => part ++ ',' :: commas rest

mutual
def compactChars : Json → List Char
  | .null | .unreadable => ['n','u','l','l']
  | .bool true => ['t','r','u','e']
  | .bool false => ['f','a','l','s','e']
  | .number literal => literal.toList
  | .string text => quote text
  | .array items => '[' :: commas (compactItems items) ++ [']']
  | .object fields => '\x7b' :: commas (compactFields fields) ++ ['\x7d']

def compactItems : List Json → List (List Char)
  | [] => []
  | item :: rest => compactChars item :: compactItems rest

def compactFields : List (String × Json) → List (List Char)
  | [] => []
  | (key,value) :: rest => (quote key ++ ':' :: compactChars value) :: compactFields rest
end

def newline (level : Nat) : List Char := '\n' :: List.replicate (2 * level) ' '

def block (first last : Char) (level : Nat) : List (List Char) → List Char
  | [] => [first,last]
  | parts =>
    first :: commas (parts.map (newline (level + 1) ++ ·)) ++ newline level ++ [last]

mutual
def prettyChars (level : Nat) : Json → List Char
  | .array items => block '[' ']' level (prettyItems (level + 1) items)
  | .object fields => block '\x7b' '\x7d' level (prettyFields (level + 1) fields)
  | .null => compactChars .null
  | .unreadable => compactChars .unreadable
  | .bool value => compactChars (.bool value)
  | .number literal => literal.toList
  | .string text => quote text

def prettyItems (level : Nat) : List Json → List (List Char)
  | [] => []
  | item :: rest => prettyChars level item :: prettyItems level rest

def prettyFields (level : Nat) : List (String × Json) → List (List Char)
  | [] => []
  | (key,value) :: rest =>
    (quote key ++ ':' :: ' ' :: prettyChars level value) :: prettyFields level rest
end

def compact (value : Json) : String := String.ofList (compactChars value)

def pretty (value : Json) : String := String.ofList (prettyChars 0 value)

end LoadMap.Json
