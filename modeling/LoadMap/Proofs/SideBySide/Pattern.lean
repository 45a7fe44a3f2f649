import LoadMap.Proofs.Path
import LoadMap.Proofs.Text.Lowercase
import LoadMap.SideBySide.Pattern
import Mathlib.Data.List.Forall2
import Mathlib.Data.List.Flatten

/-! Where a pattern leads: along the names that it asks for, one below the other. What was quoted is found as it is
spelled, or, where it has characters that mean something in a pattern, in other letters. -/
namespace LoadMap

open LoadMap.Path (Component isSilent)
open LoadMap.Disk (spoken)

/-- A component is spelled as it is meant; a name with characters that have a meaning in patterns may be spelled with
other capitals. -/
def Path.Component.Spells (spelled meant : Component) : Prop :=
  spelled = meant ∨ ∃ left right, spelled = .name left ∧ meant = .name right ∧
    (SideBySide.Pattern.ofText right).plainText? = none ∧ Text.Ascii.equalIgnoringCase left right

namespace SideBySide.Pattern

variable {pattern left right : Pattern} {chars piece : List Char} {text name : String} {files : FileSystem Id}
  {folder path : Path}

section Names

theorem names_ne_nil (pattern : Pattern) : names pattern ≠ [] := by
  cases pattern with
  | nil => simp [names]
  | cons token rest =>
    rw [names]
    split
    · simp
    · split <;> simp

theorem names_append (left right : Pattern) : names (left ++ .plain '/' :: right) = names left ++ names right := by
  induction left with
  | nil => exact if_pos rfl
  | cons token left ih =>
    rw [List.cons_append,names,names,ih]
    split
    · rfl
    · obtain ⟨first,more,same⟩ := List.exists_cons_of_ne_nil (names_ne_nil left)
      rw [same]
      rfl

theorem names_whole (whole : .plain '/' ∉ pattern) : names pattern = [pattern] := by
  induction pattern with
  | nil => rfl
  | cons token rest ih =>
    rw [List.mem_cons,not_or] at whole
    rw [names,if_neg (Ne.symm whole.1),ih whole.2]

theorem names_end (left : Pattern) (whole : .plain '/' ∉ right) :
    ∃ earlier last, names (left ++ right) = earlier ++ [last ++ right] := by
  induction left with
  | nil => exact ⟨[],[],names_whole whole⟩
  | cons token left ih =>
    obtain ⟨earlier,last,same⟩ := ih
    rw [List.cons_append,names,same]
    split
    · exact ⟨[] :: earlier,last,rfl⟩
    · cases earlier with
      | nil => exact ⟨[],token :: last,rfl⟩
      | cons first earlier => exact ⟨(token :: first) :: earlier,last,rfl⟩

end Names

section Quoting

/-- A character that stands for itself. -/
def token (char : Char) : Token :=
  if char = '?' ∨ char = '*' ∨ char = '[' ∨ char = ']' then .quoted char else .plain char

def quote (chars : List Char) : Pattern := chars.map token

theorem ofText_eq (text : String) : ofText text = quote text.toList := rfl

theorem token_cases (char : Char) : token char = .quoted char ∨ token char = .plain char := by
  rw [token]
  split
  · exact .inl rfl
  · exact .inr rfl

theorem token_slash {char : Char} : token char = .plain '/' ↔ char = '/' := by
  constructor
  · intro same
    rcases token_cases char with quoted | plain
    · rw [quoted] at same
      cases same
    · rw [plain] at same
      cases same
      rfl
  · rintro rfl
    rfl

theorem mem_quote_slash : .plain '/' ∈ quote chars ↔ '/' ∈ chars := by
  simp [quote,token_slash]

theorem names_quote (chars : List Char) : names (quote chars) = (Text.pieces '/' chars).map quote := by
  induction chars with
  | nil => rfl
  | cons char chars ih =>
    obtain ⟨first,more,same⟩ := List.exists_cons_of_ne_nil (Text.pieces_ne_nil '/' chars)
    rw [same,List.map_cons] at ih
    have step : quote (char :: chars) = token char :: quote chars := rfl
    rw [Text.pieces,same,step,names,ih]
    by_cases slash : char = '/'
    · rw [if_pos slash,if_pos (token_slash.mpr slash)]
      rfl
    · rw [if_neg slash,if_neg (token_slash.not.mpr slash)]
      rfl

theorem plainText?_quote {other : List Char} (plain : (quote chars).plainText? = some other) : other = chars := by
  induction chars generalizing other with
  | nil =>
    cases plain
    rfl
  | cons char chars ih =>
    have step : quote (char :: chars) = token char :: quote chars := rfl
    rw [step] at plain
    rcases token_cases char with quoted | same
    · rw [quoted] at plain
      cases plain
    · rw [same] at plain
      obtain ⟨rest,found,rfl⟩ := Option.map_eq_some_iff.mp plain
      rw [ih found]

theorem plainText?_any (member : .any ∈ pattern) : pattern.plainText? = none := by
  induction pattern with
  | nil => cases member
  | cons token rest ih =>
    cases token with
    | plain char =>
      rw [List.mem_cons] at member
      rw [plainText?,ih (member.resolve_left nofun),Option.map_none]
    | quoted char => rfl
    | any => rfl

end Quoting

section Matching

theorem someRest_iff {fits : List Char → Bool} :
    someRest fits chars ↔ ∃ before after, chars = before ++ after ∧ fits after := by
  induction chars with
  | nil => simp [someRest]
  | cons char chars ih =>
    rw [someRest,Bool.or_eq_true,ih]
    constructor
    · rintro (here | ⟨before,after,rfl,later⟩)
      · exact ⟨[],_,rfl,here⟩
      · exact ⟨char :: before,after,rfl,later⟩
    · rintro ⟨before,after,split,fitting⟩
      cases before with
      | nil =>
        cases split
        exact .inl fitting
      | cons first before =>
        cases split
        exact .inr ⟨before,after,rfl,fitting⟩

/-- What two patterns behind each other match falls into what they match. -/
theorem matches?_append (found : (left ++ right).matches? chars) :
    ∃ first second, chars = first ++ second ∧ left.matches? first ∧ right.matches? second := by
  induction left generalizing chars with
  | nil => exact ⟨[],chars,rfl,rfl,found⟩
  | cons token left ih =>
    rw [List.cons_append] at found
    cases token with
    | any =>
      obtain ⟨before,after,rfl,later⟩ := someRest_iff.mp found
      obtain ⟨first,second,rfl,front,back⟩ := ih later
      exact ⟨before ++ first,second,(List.append_assoc _ _ _).symm,someRest_iff.mpr ⟨before,first,rfl,front⟩,back⟩
    | plain other | quoted other =>
      cases chars with
      | nil => simp [matches?] at found
      | cons char chars =>
        rw [matches?,Bool.and_eq_true] at found
        obtain ⟨first,second,rfl,front,back⟩ := ih found.2
        exact ⟨char :: first,second,rfl,by simp [matches?,found.1,front],back⟩

theorem matches?_quote (found : (quote piece).matches? chars) : chars.map Char.toLower = piece.map Char.toLower := by
  induction piece generalizing chars with
  | nil =>
    cases chars with
    | nil => rfl
    | cons char chars => simp [quote,matches?] at found
  | cons char piece ih =>
    have step : quote (char :: piece) = token char :: quote piece := rfl
    rw [step] at found
    cases chars with
    | nil => rcases token_cases char with same | same <;> simp [same,matches?] at found
    | cons first chars =>
      have both : first.toLower = char.toLower ∧ (quote piece).matches? chars := by
        rcases token_cases char with same | same <;> simpa [same,matches?] using found
      rw [List.map_cons,List.map_cons,both.1,ih both.2]

end Matching

section Follow

def onward (files : FileSystem Id) (pattern : Pattern) (folder : Path) : List Path :=
  match pattern.plainText? with
  | some name => (present files folder (String.ofList name)).run
  | none => (matching files pattern folder).run.map (below folder)

theorem follow_cons (pattern : Pattern) (patterns : List Pattern) (folder : Path) :
    (follow files (pattern :: patterns) folder).run =
      (onward files pattern folder).flatMap fun path => (follow files patterns path).run := by
  rw [follow,onward,List.flatMap_def,← List.idRun_mapM]
  cases pattern.plainText? <;> rfl

theorem mem_follow_append {earlier later : List Pattern} : path ∈ (follow files (earlier ++ later) folder).run ↔
    ∃ middle ∈ (follow files earlier folder).run, path ∈ (follow files later middle).run := by
  induction earlier generalizing folder with
  | nil => simp [follow]
  | cons pattern earlier ih =>
    rw [List.cons_append,follow_cons,follow_cons]
    simp only [List.mem_flatMap,ih]
    constructor
    · rintro ⟨next,onward,middle,reached,rest⟩
      exact ⟨middle,⟨next,onward,reached⟩,rest⟩
    · rintro ⟨middle,⟨next,onward,reached⟩,rest⟩
      exact ⟨next,onward,middle,reached,rest⟩

theorem paths_cons (token : Token) (rest : Pattern) : paths files (token :: rest) =
    if token = .plain '/' then follow files (names rest) ⟨"/"⟩ else follow files (names (token :: rest)) start := by
  unfold paths
  split
  · rename_i same
    obtain ⟨rfl,rfl⟩ := List.cons.inj same
    rw [if_pos rfl]
  · rename_i other
    rw [if_neg]
    rintro rfl
    exact other rest rfl

/-- A name that a folder lists. -/
def Lists (files : FileSystem Id) (folder : Path) (name : String) : Prop :=
  name ∈ ((files.names? folder).run.getD []).map Prod.fst

theorem mem_onward (member : path ∈ onward files pattern folder) : ∃ name, path = below folder name ∧
    (pattern.plainText? = some name.toList ∨
      pattern.plainText? = none ∧ Lists files folder name ∧ pattern.matches? name.toList) := by
  rw [onward] at member
  cases plain : pattern.plainText? with
  | some chars =>
    rw [plain] at member
    dsimp only [present] at member
    refine ⟨String.ofList chars,?_,.inl (by rw [String.toList_ofList])⟩
    split at member
    all_goals
      simp at member
      exact member.2
  | none =>
    rw [plain] at member
    obtain ⟨name,listed,rfl⟩ := List.mem_map.mp member
    obtain ⟨kept,fits⟩ := List.mem_filter.mp listed
    exact ⟨name,rfl,.inr ⟨rfl,kept,fits⟩⟩

/-- What ends in a star and some text leads to names that fit the end. -/
theorem paths_end (some : left ≠ []) (whole : .plain '/' ∉ right) (free : .any ∈ right)
    (member : path ∈ (paths files (left ++ right)).run) :
    ∃ folder name first, path = below folder name ∧ (first ++ right).matches? name.toList := by
  have last (left : Pattern) (base : Path) (member : path ∈ (follow files (names (left ++ right)) base).run) :
      ∃ folder name first, path = below folder name ∧ (first ++ right).matches? name.toList := by
    obtain ⟨earlier,first,cut⟩ := names_end left whole
    rw [cut,mem_follow_append] at member
    obtain ⟨folder,-,member⟩ := member
    rw [follow_cons,List.mem_flatMap] at member
    obtain ⟨next,moved,same⟩ := member
    obtain rfl : path = next := List.mem_singleton.mp same
    obtain ⟨name,rfl,plain | ⟨-,-,fits⟩⟩ := mem_onward moved
    · rw [plainText?_any (List.mem_append_right first free)] at plain
      cases plain
    · exact ⟨folder,name,first,rfl,fits⟩
  -- Only the folder that a pattern starts from depends on its first character.
  cases left with
  | nil => exact absurd rfl some
  | cons token rest =>
    rw [List.cons_append,paths_cons] at member
    split at member
    · exact last rest _ member
    · exact last (token :: rest) _ member

theorem steps_below (whole : '/' ∉ name.toList) : (below folder name).steps = folder.steps ++ spoken [name.toList] := by
  have relative := Path.relative_of_whole whole
  rw [below]
  split
  · rename_i start
    have here : folder.steps = [] := by
      rw [Path.steps,beq_iff_eq.mp start]
      rfl
    rw [here,Path.steps_eq,relative,Text.pieces_single whole]
    rfl
  · rw [Path.steps_join relative,Text.pieces_single whole]

end Follow

section Spelling

theorem eq_of_marks {marks : List Char} (low : ∀ mark ∈ marks, mark.toNat < 65)
    (same : marks.map Char.toLower = chars.map Char.toLower) : chars = marks := by
  induction marks generalizing chars with
  | nil => simpa using same.symm
  | cons mark marks ih =>
    obtain ⟨first,rest⟩ := List.forall_mem_cons.mp low
    cases chars with
    | nil => cases same
    | cons char chars =>
      rw [List.map_cons,List.map_cons,List.cons.injEq] at same
      have still : mark.toLower = mark := by
        rcases Text.toLower_cases mark with ⟨capital,-⟩ | ⟨-,stays⟩
        · rw [Text.IsCapital] at capital
          omega
        · exact stays
      rw [still] at same
      rw [Text.toLower_mark (by omega) same.1.symm,ih rest same.2]

theorem slash_of_alike (same : chars.map Char.toLower = piece.map Char.toLower) (slash : '/' ∈ chars) : '/' ∈ piece := by
  have low : '/' ∈ chars.map Char.toLower := List.mem_map.mpr ⟨'/',slash,rfl⟩
  rw [same] at low
  obtain ⟨char,member,lowered⟩ := List.mem_map.mp low
  rwa [Text.toLower_mark (by decide) lowered] at member

theorem spoken_named (loud : isSilent chars = false) (own : chars ≠ ['.','.']) :
    spoken [chars] = [.name (String.ofList chars)] := by
  rw [Path.spoken_loud loud,Component.ofPiece,if_neg own]

theorem spells_of_alike (same : chars.map Char.toLower = piece.map Char.toLower) (odd : (quote piece).plainText? = none) :
    List.Forall₂ Component.Spells (spoken [chars]) (spoken [piece]) := by
  -- Marks have no case, and a quoted text of marks is plain: neither side is a silent piece or leads upwards.
  have apart (marks : List Char) (low : ∀ mark ∈ marks, mark.toNat < 65) (plain : (quote marks).plainText? ≠ none) :
      chars ≠ marks ∧ piece ≠ marks := by
    constructor
    · rintro rfl
      rw [eq_of_marks low same] at odd
      exact plain odd
    · rintro rfl
      exact plain odd
  have silent : isSilent chars = false ∧ isSilent piece = false := by
    have empty := apart [] nofun nofun
    have dot := apart ['.'] (by simp) (by decide)
    simp only [isSilent,Bool.or_eq_false_iff,beq_eq_false_iff_ne]
    exact ⟨⟨empty.1,dot.1⟩,empty.2,dot.2⟩
  have up := apart ['.','.'] (by simp) (by decide)
  rw [spoken_named silent.1 up.1,spoken_named silent.2 up.2]
  refine .cons (.inr ⟨_,_,rfl,rfl,?_,?_⟩) .nil
  · rwa [ofText_eq,String.toList_ofList]
  · simp [Text.Ascii.equalIgnoringCase,Text.Ascii.lower,same]

theorem spells_refl (components : List Component) : List.Forall₂ Component.Spells components components :=
  List.forall₂_same.mpr fun _ _ => .inl rfl

/-- What was quoted is followed along names that spell it. -/
theorem follow_quote {pieces : List (List Char)} (whole : ∀ piece ∈ pieces, '/' ∉ piece)
    (member : path ∈ (follow files (pieces.map quote) folder).run) :
    ∃ reached, path.steps = folder.steps ++ reached ∧ List.Forall₂ Component.Spells reached (spoken pieces) := by
  induction pieces generalizing folder with
  | nil =>
    obtain rfl : path = folder := List.mem_singleton.mp member
    exact ⟨[],(List.append_nil _).symm,.nil⟩
  | cons piece pieces ih =>
    obtain ⟨first,others⟩ := List.forall_mem_cons.mp whole
    rw [List.map_cons,follow_cons,List.mem_flatMap] at member
    obtain ⟨next,moved,rest⟩ := member
    obtain ⟨reached,steps,spells⟩ := ih others rest
    obtain ⟨name,rfl,found⟩ := mem_onward moved
    have here : '/' ∉ name.toList ∧ List.Forall₂ Component.Spells (spoken [name.toList]) (spoken [piece]) := by
      rcases found with plain | ⟨odd,-,fits⟩
      · rw [plainText?_quote plain]
        exact ⟨first,spells_refl _⟩
      · have same := matches?_quote fits
        exact ⟨fun slash => first (slash_of_alike same slash),spells_of_alike same odd⟩
    rw [steps_below here.1,List.append_assoc] at steps
    have cut : spoken (piece :: pieces) = spoken [piece] ++ spoken pieces := Path.spoken_append [piece] pieces
    rw [cut]
    exact ⟨_,steps,List.rel_append here.2 spells⟩

/-- The folders that a quoted path leads to. -/
def holders (files : FileSystem Id) (chars : List Char) : List Path :=
  match chars with
  | '/' :: rest => (follow files ((Text.pieces '/' rest).map quote) ⟨"/"⟩).run
  | chars => (follow files ((Text.pieces '/' chars).map quote) start).run

theorem holders_cons (char : Char) (rest : List Char) : holders files (char :: rest) =
    if char = '/' then (follow files ((Text.pieces '/' rest).map quote) ⟨"/"⟩).run
    else (follow files ((Text.pieces '/' (char :: rest)).map quote) start).run := by
  unfold holders
  split
  · rename_i same
    obtain ⟨rfl,rfl⟩ := List.cons.inj same
    rw [if_pos rfl]
  · rename_i other
    rw [if_neg]
    rintro rfl
    exact other rest rfl

/-- What stands behind a folder in a pattern is looked for in those that the folder leads to. -/
theorem mem_paths (some : chars ≠ []) : path ∈ (paths files (quote chars ++ .plain '/' :: right)).run ↔
    ∃ folder ∈ holders files chars, path ∈ (follow files (names right) folder).run := by
  have follows (rest : List Char) (base : Path) :
      follow files (names (quote rest ++ .plain '/' :: right)) base =
        follow files ((Text.pieces '/' rest).map quote ++ names right) base := by
    rw [names_append,names_quote]
  cases chars with
  | nil => exact absurd rfl some
  | cons char rest =>
    have step : quote (char :: rest) ++ .plain '/' :: right = token char :: (quote rest ++ .plain '/' :: right) := rfl
    rw [step,paths_cons,holders_cons]
    by_cases slash : char = '/'
    · rw [if_pos (token_slash.mpr slash),if_pos slash,follows,mem_follow_append]
    · rw [if_neg (token_slash.not.mpr slash),if_neg slash,← step,follows,mem_follow_append]

/-- A path leads to folders that it spells. -/
theorem holders_spell (member : folder ∈ holders files chars) :
    List.Forall₂ Component.Spells folder.steps (Path.steps ⟨String.ofList chars⟩) := by
  have whole (rest : List Char) : ∀ piece ∈ Text.pieces '/' rest, '/' ∉ piece := fun _ => Text.not_mem_of_pieces
  unfold holders at member
  split at member
  · rename_i rest
    obtain ⟨steps,spelled,spells⟩ := follow_quote (whole rest) member
    rw [spelled,Path.steps_ofList ('/' :: rest),Disk.pieces_slash,Disk.spoken_silent rfl]
    exact .cons (.inl rfl) spells
  · rename_i relative
    obtain ⟨steps,spelled,spells⟩ := follow_quote (whole chars) member
    have first : (chars.head? == some '/') = false := by
      cases chars with
      | nil => rfl
      | cons char rest =>
        have other : char ≠ '/' := by
          rintro rfl
          exact relative rest rfl
        simpa using other
    rw [spelled,Path.steps_ofList chars,first]
    exact spells

end Spelling

end SideBySide.Pattern
end LoadMap
