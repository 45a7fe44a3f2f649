import LoadMap.Disk
import LoadMap.KnownDlls
import LoadMap.Proofs.ApiSet.Schema
import LoadMap.Proofs.Path.Order
import LoadMap.Proofs.Search.Redirection
import LoadMap.Proofs.Text.Utf8

/-! A list of known modules as its lines say it: each line names a module or none, and of the lines that name the same
module the last counts. -/
namespace LoadMap

namespace Text

/-- Lines end at a line feed, which may have a carriage return before it. Behind the last end there is one more line
only if there is something behind it. -/
def lines : List Char → List (List Char)
  | [] => []
  | '\n' :: rest => [] :: lines rest
  | '\r' :: '\n' :: rest => [] :: lines rest
  | char :: rest =>
    match lines rest with
    | [] => [[char]]
    | line :: more => (char :: line) :: more

section Trim

variable {char : Char}

theorem trim_append_blank (blank : isBlank char = true) (chars : List Char) :
    trim (String.ofList (chars ++ [char])) = trim (String.ofList chars) := by
  rw [trim,trim,String.toList_ofList,String.toList_ofList,List.dropWhile_append]
  cases kept : chars.dropWhile isBlank with
  | nil => simp [dropBlankEnd,blank]
  | cons first rest => simp [dropBlankEnd,blank]

end Trim

/-- A piece between line feeds is a line, or a line with a carriage return behind it. -/
def Closes (piece line : List Char) : Prop := piece = line ∨ piece = line ++ ['\r']

theorem pieces_lines (chars : List Char) : ∃ closed opened, pieces '\n' chars = closed ++ opened ∧
    (opened = [] ∨ opened = [[]]) ∧ List.Forall₂ Closes closed (lines chars) := by
  fun_induction lines chars with
  | case1 => exact ⟨[],[[]],rfl,.inr rfl,.nil⟩
  | case2 rest ih =>
    obtain ⟨closed,opened,cut,ends,close⟩ := ih
    exact ⟨[] :: closed,opened,by simp [pieces,cut],ends,.cons (.inl rfl) close⟩
  | case3 rest ih =>
    obtain ⟨closed,opened,cut,ends,close⟩ := ih
    exact ⟨['\r'] :: closed,opened,by simp [pieces,cut],ends,.cons (.inr rfl) close⟩
  | case4 char rest feed _ none ih =>
    obtain ⟨closed,opened,cut,ends,close⟩ := ih
    rw [none] at close
    cases close
    -- Nothing follows this character: the empty piece that is still open becomes its line.
    rcases ends with rfl | rfl
    · exact absurd cut (pieces_ne_nil '\n' rest)
    · exact ⟨[[char]],[],by rw [Text.pieces,if_neg feed,cut]; rfl,.inl rfl,.cons (.inl rfl) .nil⟩
  | case5 char rest feed _ line more some ih =>
    obtain ⟨closed,opened,cut,ends,close⟩ := ih
    rw [some] at close
    obtain _ | @⟨piece,_,pieces,_,closes,close⟩ := close
    refine ⟨(char :: piece) :: pieces,opened,by rw [Text.pieces,if_neg feed,cut]; rfl,ends,.cons ?_ close⟩
    rcases closes with rfl | rfl
    · exact .inl rfl
    · exact .inr rfl

end Text
namespace KnownDlls

section Lines

/-- The name on a line, a comment and the white space around the name left out. -/
def spelling (line : List Char) : String := Text.trim (beforeComment line)

def Spells (line : List Char) (name : String) : Prop :=
  spelling line ≠ "" ∧ Text.Ascii.equalIgnoringCase (spelling line) name

instance (line : List Char) (name : String) : Decidable (Spells line name) := inferInstanceAs (Decidable (_ ∧ _))

theorem spelling_closes {piece line : List Char} (closes : Text.Closes piece line) :
    spelling piece = spelling line := by
  have blank : Text.isBlank '\r' = true := by decide
  rcases closes with rfl | rfl
  · rfl
  · rw [spelling,spelling,beforeComment,beforeComment,List.takeWhile_append]
    split
    · rename_i whole
      have same : line.takeWhile (· ≠ '#') = line := (List.takeWhile_prefix _).eq_of_length whole
      rw [same,List.takeWhile_cons_of_pos (by decide),List.takeWhile_nil]
      exact Text.trim_append_blank blank line
    · rfl

theorem map_spelling_closes {pieces lines : List (List Char)} (close : List.Forall₂ Text.Closes pieces lines) :
    pieces.map spelling = lines.map spelling := by
  induction close with
  | nil => rfl
  | cons closes _ ih => rw [List.map_cons,List.map_cons,spelling_closes closes,ih]

/-- The names on lines, in their order. -/
def names (lines : List (List Char)) : List String := (lines.map spelling).filter (· ≠ "")

theorem names_append (before after : List (List Char)) : names (before ++ after) = names before ++ names after := by
  rw [names,names,names,List.map_append,List.filter_append]

theorem ofList_eq (text : String) (folder : Path) : ofList text folder =
    (names (Text.lines text.toList)).foldl (fun known name => known.insert name (folder.join name)) {} := by
  have same : names (Text.pieces '\n' text.toList) = names (Text.lines text.toList) := by
    obtain ⟨closed,opened,cut,ends,close⟩ := Text.pieces_lines text.toList
    have empty : names opened = [] := by
      rcases ends with rfl | rfl
      · rfl
      · decide
    rw [cut,names_append,empty,List.append_nil,names,map_spelling_closes close,names]
  rw [ofList,ofNames,← same,names,List.map_map]
  rfl

end Lines

section Last

variable {known : KnownDlls} {name : String} {path : Path}

theorem find?_eq (known : KnownDlls) (name : String) :
    known.find? name = (known.entries.find? (·.1 = Text.Ascii.lower name)).map (·.2) := by
  rw [find?]
  induction known.entries with
  | nil => rfl
  | cons entry entries ih =>
    rw [List.find?_cons,List.lookup_cons]
    by_cases same : entry.1 = Text.Ascii.lower name
    · simp [same]
    · have other : (Text.Ascii.lower name == entry.1) = false := beq_false_of_ne (Ne.symm same)
      simpa [same,other] using ih

theorem find?_insert (known : KnownDlls) (spelled : String) (path : Path) (name : String) :
    (known.insert spelled path).find? name =
      if Text.Ascii.equalIgnoringCase spelled name then some path else known.find? name := by
  rw [find?_eq,find?_eq,insert]
  have inserted := LoadMap.find?_insert (fun entry : String × Path => entry.1) known.entries
    (Text.Ascii.lower spelled,path) (Text.Ascii.lower name)
  rw [inserted,apply_ite (Option.map _)]
  simp [Text.Ascii.equalIgnoringCase_iff]

/-- Of the lines that spell a name the last counts. -/
theorem find?_ofList (text : String) (folder : Path) (name : String) : (ofList text folder).find? name =
    ((Text.lines text.toList).reverse.find? (Spells · name)).map (folder.join <| spelling ·) := by
  rw [ofList_eq]
  -- The last line is entered last and takes the place of what has its name.
  induction Text.lines text.toList using List.reverseRecOn with
  | nil => rfl
  | append_singleton lines line ih =>
    rw [names_append,List.foldl_append,List.reverse_concat,List.find?_cons]
    by_cases empty : spelling line = ""
    · simpa [names,empty,Spells] using ih
    · have single : names [line] = [spelling line] := by simp [names,empty]
      rw [single,List.foldl_cons,List.foldl_nil,find?_insert]
      by_cases same : Text.Ascii.equalIgnoringCase (spelling line) name
      · simp [Spells,empty,same]
      · simpa [Spells,empty,same] using ih

theorem find?_ofList_eq_some_iff {text : String} {folder : Path} : (ofList text folder).find? name = some path ↔
    ∃ before line after, Text.lines text.toList = before ++ line :: after ∧ Spells line name ∧
      (∀ later ∈ after, ¬ Spells later name) ∧ path = folder.join (spelling line) := by
  rw [find?_ofList,Option.map_eq_some_iff]
  constructor
  · rintro ⟨line,found,rfl⟩
    obtain ⟨spells,after,before,split,others⟩ := List.find?_eq_some_iff_append.mp found
    rw [List.reverse_eq_iff,List.reverse_append,List.reverse_cons,List.append_assoc] at split
    refine ⟨before.reverse,line,after.reverse,split,of_decide_eq_true spells,fun later listed => ?_,rfl⟩
    simpa using others later (List.mem_reverse.mp listed)
  · rintro ⟨before,line,after,split,spells,others,made⟩
    refine ⟨line,List.find?_eq_some_iff_append.mpr ⟨decide_eq_true spells,after.reverse,before.reverse,?_,?_⟩,made.symm⟩
    · rw [split,List.reverse_append,List.reverse_cons,List.append_assoc]
      rfl
    · intro later listed
      simpa using others later (List.mem_reverse.mp listed)

theorem find?_ofList_isSome_iff {text : String} {folder : Path} :
    ((ofList text folder).find? name).isSome ↔ ∃ line ∈ Text.lines text.toList, Spells line name := by
  rw [find?_ofList,Option.isSome_map,List.find?_isSome]
  simp

end Last

section Paths

variable {known : KnownDlls}

theorem paths_perm (known : KnownDlls) : known.paths.Perm (known.entries.map (·.2)) := List.mergeSort_perm _ _

theorem paths_sorted (known : KnownDlls) : known.paths.Pairwise (·.upTo ·) := by
  have order : (fun left right : Path => left.compare right != .gt) = Path.upTo := rfl
  rw [paths,order]
  exact Path.pairwise_mergeSort _

theorem Keyed.find?_key (keyed : known.Keyed) {entry : String × Path} (listed : entry ∈ known.entries) :
    known.find? entry.1 = some entry.2 :=
  keyed.find?_eq_some_iff.mpr ⟨entry.1,listed,Text.Ascii.equalIgnoringCase_iff.mpr rfl⟩

theorem Keyed.mem_keys_iff (keyed : known.Keyed) {key : String} :
    key ∈ known.entries.map (·.1) ↔ Text.Ascii.lower key = key ∧ (known.find? key).isSome := by
  constructor
  · intro member
    obtain ⟨entry,listed,rfl⟩ := List.mem_map.mp member
    rw [keyed.find?_key listed]
    exact ⟨keyed.small entry listed,rfl⟩
  · rintro ⟨small,some⟩
    obtain ⟨path,found⟩ := Option.isSome_iff_exists.mp some
    obtain ⟨other,listed,same⟩ := keyed.find?_eq_some_iff.mp found
    rw [Text.Ascii.equalIgnoringCase_iff,keyed.small _ listed,small] at same
    exact List.mem_map.mpr ⟨_,listed,same⟩

/-- The order of the entries does not count. -/
theorem Keyed.perm {other : KnownDlls} (keyed : known.Keyed) (same : known.entries.Perm other.entries) : other.Keyed :=
  ⟨(same.map Prod.fst).nodup_iff.mp keyed.distinct,fun entry listed => keyed.small entry (same.mem_iff.mpr listed)⟩

theorem Keyed.find?_perm {other : KnownDlls} (keyed : known.Keyed) (same : known.entries.Perm other.entries)
    (name : String) : other.find? name = known.find? name := by
  refine Option.ext fun path => ?_
  rw [(keyed.perm same).find?_eq_some_iff,keyed.find?_eq_some_iff,Has,Has]
  simp only [same.mem_iff]

end Paths

/-- What a list of known modules in a folder says. -/
structure Lists (known : KnownDlls) (text : String) (folder : Path) : Prop where
  present : ∀ name, (known.find? name).isSome ↔ ∃ line ∈ Text.lines text.toList, Spells line name
  last : ∀ name path, known.find? name = some path ↔ ∃ before line after,
    Text.lines text.toList = before ++ line :: after ∧ Spells line name ∧ (∀ later ∈ after, ¬ Spells later name) ∧
      path = folder.join (spelling line)
  /-- One path for each name, whatever its letter case. -/
  single : ∃ keys : List String, keys.Nodup ∧
    (∀ key, key ∈ keys ↔ ∃ line ∈ Text.lines text.toList, spelling line ≠ "" ∧ Text.Ascii.lower (spelling line) = key) ∧
    (keys.map known.find?).Perm (known.paths.map some)
  sorted : known.paths.Pairwise (·.compare · ≠ .gt)
  /-- The order of the entries does not count. -/
  settled : ∀ other : KnownDlls, other.entries.Perm known.entries →
    (∀ name, other.find? name = known.find? name) ∧ other.paths.map Path.components = known.paths.map Path.components

theorem lists_ofList (text : String) (folder : Path) : (ofList text folder).Lists text folder := by
  have keyed : (ofList text folder).Keyed := keyed_ofNames _ folder
  refine ⟨fun _ => find?_ofList_isSome_iff,fun _ _ => find?_ofList_eq_some_iff,?_,?_,?_⟩
  · refine ⟨(ofList text folder).entries.map (·.1),keyed.distinct,fun key => ?_,?_⟩
    · rw [keyed.mem_keys_iff,find?_ofList_isSome_iff]
      simp only [Spells,Text.Ascii.equalIgnoringCase_iff]
      constructor
      · rintro ⟨small,line,listed,some,same⟩
        exact ⟨line,listed,some,same.trans small⟩
      · rintro ⟨line,listed,some,rfl⟩
        exact ⟨Text.Ascii.lower_lower _,line,listed,some,(Text.Ascii.lower_lower _).symm⟩
    · rw [List.map_map]
      have found : (ofList text folder).entries.map ((ofList text folder).find? ∘ (·.1)) =
          ((ofList text folder).entries.map (·.2)).map some := by
        rw [List.map_map]
        exact List.map_congr_left fun entry listed => keyed.find?_key listed
      rw [found]
      exact ((paths_perm _).map some).symm
  · exact (paths_sorted _).imp fun upTo => by simpa [Path.upTo] using upTo
  · intro other same
    refine ⟨keyed.find?_perm same.symm,Path.components_of_sorted (paths_sorted _) (paths_sorted _) ?_⟩
    exact (paths_perm _).trans ((same.map _).trans (paths_perm _).symm)

/-- A list of modules that is written in UTF-8 is read as its lines say. -/
theorem ofFile_lists {m : Type → Type} [Monad m] [LawfulMonad m] {files : FileSystem m} {list : Path} {text : String}
    (stored : files.content? list = pure (some (Text.Utf8.encode text).toByteArray)) (folder : Path) :
    ∃ known : KnownDlls, ofFile files list folder = pure (.ok known) ∧ known.Lists text folder := by
  refine ⟨ofList text folder,?_,lists_ofList text folder⟩
  simp only [ofFile,FileSystem.read,stored,pure_bind,Bytes.toList_eq,List.data_toByteArray,Text.Utf8.decode?_encode]

def mixedText : String := "# known\r\nKERNEL32.dll\r\n\n  user32.dll\t# twice\nkernel32.DLL"

def mixedDisk : Disk where
  workingFolder := []
  entries := [(["list"],.file (Text.Utf8.encode mixedText).toByteArray)]

theorem ofFile_lists_mixed :
    mixedDisk.fileSystem.content? ⟨"list"⟩ = pure (some (Text.Utf8.encode mixedText).toByteArray) ∧
      ∃ known : KnownDlls, ofFile mixedDisk.fileSystem ⟨"list"⟩ ⟨"System32"⟩ = pure (.ok known) ∧
        known.Lists mixedText ⟨"System32"⟩ ∧ known.find? "Kernel32.dll" = some ⟨"System32/kernel32.DLL"⟩ := by
  have found : mixedDisk.content? ⟨"list"⟩ = some (Text.Utf8.encode mixedText).toByteArray := by decide +kernel
  have stored : mixedDisk.fileSystem.content? ⟨"list"⟩ = pure (some (Text.Utf8.encode mixedText).toByteArray) := found
  obtain ⟨known,read,lists⟩ := ofFile_lists stored ⟨"System32"⟩
  refine ⟨stored,known,read,lists,(lists.last _ _).mpr ?_⟩
  exact ⟨(Text.lines mixedText.toList).dropLast,"kernel32.DLL".toList,[],by decide +kernel,by decide +kernel,nofun,
    congrArg Path.mk (show "System32/kernel32.DLL" = _ by decide +kernel)⟩

end KnownDlls
end LoadMap
