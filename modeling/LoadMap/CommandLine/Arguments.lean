import LoadMap.Path
import LoadMap.Text.Pieces
import LoadMap.Word

/-! The words of the command line: a command with its file, and options that may stand before or
behind the command. Behind the command, an option outweighs the same option in front of it. -/
namespace LoadMap.CommandLine

inductive FileCommand
  | imports
  | exports
  | manifest
  | sideBySide
  | managedModules
  | assemblies
  | chain
  | modules
  | apiSets
  deriving DecidableEq, Repr

inductive SystemCommand
  | knownDlls
  | apiSets
  deriving DecidableEq, Repr

inductive Command
  | file (command : FileCommand)
  | system (command : SystemCommand)
  deriving DecidableEq, Repr

def Command.ofWord? : String → Option Command
  | "imports" => some (.file .imports)
  | "exports" => some (.file .exports)
  | "manifest" => some (.file .manifest)
  | "sxsentries" => some (.file .sideBySide)
  | "modulerefs" => some (.file .managedModules)
  | "assemblyrefs" => some (.file .assemblies)
  | "chain" => some (.file .chain)
  | "modules" => some (.file .modules)
  | "knowndll" => some (.system .knownDlls)
  | "apisets" => some (.system .apiSets)
  | "apisetsdll" => some (.file .apiSets)
  | _ => none

inductive Switch
  | json
  | cache
  | depth
  | verbose
  | windowsRoot
  | workingFolder
  | userPath
  | knownDlls
  | help
  | version
  deriving DecidableEq, Repr

namespace Switch

def ofName? : String → Option Switch
  | "json" => some json
  | "cache" => some cache
  | "depth" => some depth
  | "verbose" => some verbose
  | "windows-root" => some windowsRoot
  | "workdir" => some workingFolder
  | "userpath" => some userPath
  | "known-dlls" => some knownDlls
  | "help" => some help
  | "version" => some version
  | _ => none

def ofLetter? : Char → Option Switch
  | 'd' => some depth
  | 'v' => some verbose
  | 'w' => some windowsRoot
  | 'k' => some workingFolder
  | 'a' => some userPath
  | 'h' => some help
  | 'V' => some version
  | _ => none

def takesValue : Switch → Bool
  | depth | windowsRoot | workingFolder | userPath | knownDlls => true
  | json | cache | verbose | help | version => false

end Switch

structure Options where
  json : Bool := false
  cache : Bool := false
  depth? : Option Nat := none
  windowsRoot? : Option Path := none
  workingFolder? : Option Path := none
  userPath? : Option String := none
  knownDllList? : Option Path := none

namespace Options

/-- Digits, possibly behind a plus sign, for a number that fits in 64 bits. -/
def number? (text : String) : Option Nat :=
  let digits : List Char := match text.toList with
    | '+' :: rest => rest
    | chars => chars
  let value := digits.foldl (fun value char => value * 10 + (char.toNat - 48)) 0
  if digits ≠ [] ∧ digits.all Char.isDigit ∧ value < Word.limit 64 then some value else none

def path? (text : String) : Option Path := if text = "" then none else some ⟨text⟩

def set? (options : Options) (switch : Switch) (value : String) : Option Options :=
  match switch with
  | .json => some { options with json := true }
  | .cache => some { options with cache := true }
  | .verbose | .help | .version => some options
  | .depth => (number? value).map ({ options with depth? := some · })
  | .windowsRoot => (path? value).map ({ options with windowsRoot? := some · })
  | .workingFolder => (path? value).map ({ options with workingFolder? := some · })
  | .userPath => some { options with userPath? := some value }
  | .knownDlls => (path? value).map ({ options with knownDllList? := some · })

end Options

inductive Interruption
  | misuse
  | help
  | version
  deriving DecidableEq, Repr

structure Side where
  options : Options := {}
  given : List Switch := []
  files : List String := []

def isOption (word : String) : Bool :=
  match word.toList with
  | '-' :: _ :: _ => true
  | _ => false

namespace Side

/-- An option can be given once, and its value has to be acceptable. -/
def add (side : Side) (switch : Switch) (value : String) : Except Interruption Side :=
  if switch ∈ side.given then .error .misuse
  else match side.options.set? switch value with
    | some options => .ok { side with options, given := switch :: side.given }
    | none => .error .misuse

/-- The version can be asked for in front of the command only. -/
def addFlag (side : Side) (inFront : Bool) (switch : Switch) : Except Interruption Side :=
  match switch with
  | .help => .error .help
  | .version => .error (if inFront then .version else .misuse)
  | switch => side.add switch ""

def addNext (side : Side) (switch : Switch) :
    List String → Except Interruption (Side × List String)
  | [] => .error .misuse
  | word :: words =>
    if isOption word then .error .misuse else (side.add switch word).map (·,words)

def addNamed (side : Side) (inFront : Bool) (text : List Char) (words : List String) :
    Except Interruption (Side × List String) :=
  let (name,value) := text.span (· ≠ '=')
  match Switch.ofName? (String.ofList name), value with
  | none, _ => .error .misuse
  | some switch, [] =>
    if switch.takesValue then side.addNext switch words
    else (side.addFlag inFront switch).map (·,words)
  | some switch, _ :: value =>
    if switch.takesValue then (side.add switch (String.ofList value)).map (·,words)
    else .error .misuse

/-- Options given by letters. What follows the letter of an option with a value is the value. -/
def addLetters (inFront : Bool) (words : List String) :
    List Char → Side → Except Interruption (Side × List String)
  | [], side => .ok (side,words)
  | letter :: rest, side =>
    match Switch.ofLetter? letter with
    | none => .error .misuse
    | some switch =>
      if switch.takesValue then
        match rest with
        | [] => side.addNext switch words
        | '=' :: value => (side.add switch (String.ofList value)).map (·,words)
        | value => (side.add switch (String.ofList value)).map (·,words)
      else match side.addFlag inFront switch with
        | .error interruption => .error interruption
        | .ok side => addLetters inFront words rest side

def takeOptions (inFront : Bool) :
    (limit : Nat) → List String → Side → Except Interruption (Side × List String)
  | 0, _, _ => .error .misuse
  | _ + 1, [], side => .ok (side,[])
  | limit + 1, word :: words, side =>
    match word.toList with
    | ['-','-'] => .ok (side,word :: words)
    | '-' :: '-' :: text => do
      let (side,words) ← side.addNamed inFront text words
      takeOptions inFront limit words side
    | '-' :: letter :: letters => do
      let (side,words) ← addLetters inFront words (letter :: letters) side
      takeOptions inFront limit words side
    | _ => .ok (side,word :: words)

def addFile (side : Side) (room : Nat) (file : String) : Except Interruption Side :=
  if file = "" ∨ room ≤ side.files.length then .error .misuse
  else .ok { side with files := side.files ++ [file] }

/-- All words behind the command; behind a double dash, every word is a file. -/
def behind (room : Nat) : (limit : Nat) → List String → Side → Except Interruption Side
  | 0, _, _ => .error .misuse
  | limit + 1, words, side => do
    match ← takeOptions false (words.length + 1) words side with
    | (side,[]) => return side
    | (side,"--" :: files) => files.foldlM (·.addFile room ·) side
    | (side,file :: words) => behind room limit words (← side.addFile room file)

end Side

inductive Action
  | onFile (command : FileCommand) (file : Path)
  | onSystem (command : SystemCommand)
  deriving Repr

structure Request where
  action : Action
  options : Options

def Options.merge (front behind : Options) : Options where
  json := front.json || behind.json
  cache := front.cache || behind.cache
  depth? := behind.depth?.or front.depth?
  windowsRoot? := behind.windowsRoot?.or front.windowsRoot?
  workingFolder? := behind.workingFolder?.or front.workingFolder?
  userPath? := behind.userPath?.or front.userPath?
  knownDllList? := behind.knownDllList?.or front.knownDllList?

def Request.ofSide (command : Command) (options : Options) (files : List String) :
    Except Interruption Request :=
  match command, files with
  | .file command, [file] => .ok { action := .onFile command ⟨file⟩, options }
  | .system command, [] => .ok { action := .onSystem command, options }
  | _, _ => .error .misuse

def Command.room : Command → Nat
  | .file _ => 1
  | .system _ => 0

def isHelpTopic : List String → Bool
  | [] => true
  | [word] => word = "help" || (Command.ofWord? word).isSome
  | _ => false

def Request.ofWords (words : List String) : Except Interruption Request := do
  match ← Side.takeOptions true (words.length + 1) words {} with
  | (_,[]) => throw .misuse
  | (front,word :: words) =>
    if word = "help" then throw (if isHelpTopic words then .help else .misuse)
    match Command.ofWord? word with
    | none => throw .misuse
    | some command =>
      let behind ← Side.behind command.room (words.length + 1) words {}
      Request.ofSide command (front.options.merge behind.options) behind.files

end LoadMap.CommandLine
