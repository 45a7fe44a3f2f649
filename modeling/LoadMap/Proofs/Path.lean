import LoadMap.Proofs.Disk

/-! Paths by their components: the folder above a path has all of them but the last, and a name in a folder
comes behind those of the folder. -/
namespace LoadMap

variable {separator : Char} {chars : List Char}

namespace Text

theorem pieces_append (left right : List Char) :
    pieces separator (left ++ separator :: right) = pieces separator left ++ pieces separator right := by
  induction left with
  | nil => exact if_pos rfl
  | cons char left ih =>
    by_cases cut : char = separator
    · subst cut
      rw [List.cons_append,pieces,pieces,if_pos rfl,if_pos rfl,ih,List.cons_append]
    · obtain ⟨piece,more,same⟩ := List.exists_cons_of_ne_nil (pieces_ne_nil separator left)
      rw [same,List.cons_append] at ih
      rw [List.cons_append,pieces,pieces,if_neg cut,if_neg cut,ih,same,List.cons_append]

theorem pieces_single (whole : separator ∉ chars) : pieces separator chars = [chars] := by
  induction chars with
  | nil => rfl
  | cons char chars ih =>
    have other := List.ne_of_not_mem_cons whole
    rw [pieces,if_neg (Ne.symm other),ih (List.not_mem_of_not_mem_cons whole)]

theorem not_mem_of_pieces {piece : List Char} (cut : piece ∈ pieces separator chars) : separator ∉ piece := by
  induction chars generalizing piece with
  | nil =>
    obtain rfl := List.mem_singleton.mp cut
    exact List.not_mem_nil
  | cons char chars ih =>
    rw [pieces] at cut
    by_cases here : char = separator
    · rw [if_pos here] at cut
      rcases List.mem_cons.mp cut with rfl | later
      · exact List.not_mem_nil
      · exact ih later
    · obtain ⟨first,more,same⟩ := List.exists_cons_of_ne_nil (pieces_ne_nil separator chars)
      rw [if_neg here,same] at cut
      rw [same] at ih
      rcases List.mem_cons.mp cut with rfl | later
      · exact List.not_mem_cons_of_ne_of_not_mem (Ne.symm here) (ih List.mem_cons_self)
      · exact ih (List.mem_cons_of_mem _ later)

theorem mem_of_pieces {piece : List Char} {char : Char} (cut : piece ∈ pieces separator chars) (member : char ∈ piece) :
    char ∈ chars := by
  induction chars generalizing piece with
  | nil =>
    obtain rfl := List.mem_singleton.mp cut
    cases member
  | cons next chars ih =>
    rw [pieces] at cut
    by_cases here : next = separator
    · rw [if_pos here] at cut
      rcases List.mem_cons.mp cut with rfl | later
      · cases member
      · exact List.mem_cons_of_mem _ (ih later member)
    · obtain ⟨first,more,same⟩ := List.exists_cons_of_ne_nil (pieces_ne_nil separator chars)
      rw [if_neg here,same] at cut
      rw [same] at ih
      rcases List.mem_cons.mp cut with rfl | later
      · rcases List.mem_cons.mp member with rfl | inner
        · exact List.mem_cons_self
        · exact List.mem_cons_of_mem _ (ih List.mem_cons_self inner)
      · exact List.mem_cons_of_mem _ (ih (List.mem_cons_of_mem _ later) member)

theorem pieces_join {list : List (List Char)} (some : list ≠ [])
    (whole : ∀ piece ∈ list, separator ∉ piece) : pieces separator (join separator list) = list := by
  induction list with
  | nil => exact absurd rfl some
  | cons piece list ih =>
    obtain ⟨first,rest⟩ := List.forall_mem_cons.mp whole
    cases list with
    | nil => exact pieces_single first
    | cons next list =>
      rw [join,pieces_append,pieces_single first,ih (List.cons_ne_nil _ _) rest,List.singleton_append]
      exact List.cons_ne_nil _ _

end Text

namespace Path

open Disk (spoken)

variable {path folder : Path} {start body : List Char} {kept : List (List Char)}

theorem spoken_append (left right : List (List Char)) : spoken (left ++ right) = spoken left ++ spoken right := by
  rw [spoken,List.filter_append,List.map_append,spoken,spoken]

theorem spoken_silence {pieces : List (List Char)} (silent : ∀ piece ∈ pieces, isSilent piece) :
    spoken pieces = [] := by
  rw [spoken,List.filter_eq_nil_iff.mpr,List.map_nil]
  intro piece member
  simp [silent piece member]

theorem spoken_loud {piece : List Char} (loud : isSilent piece = false) : spoken [piece] = [.ofPiece piece] := by
  rw [spoken,List.filter_cons_of_pos (by simp [loud])]
  rfl

theorem components_split (path : Path) (split : splitStart path.text.toList = (start,body)) :
    path.components = Component.ofStart start ++ spoken (Text.pieces '/' body) := by
  rw [components,split]
  rfl

theorem components_ofList (split : splitStart chars = (start,body)) :
    components ⟨String.ofList chars⟩ = Component.ofStart start ++ spoken (Text.pieces '/' body) := by
  rw [← String.toList_ofList (l := chars)] at split
  exact components_split _ split

/-- Some pieces up to the last one that is a component. -/
def upToLoud (pieces : List (List Char)) : List (List Char) := (dropSilentEnd pieces.reverse).reverse

theorem prefix_upToLoud (pieces : List (List Char)) : upToLoud pieces <+: pieces := by
  rw [← List.reverse_suffix,upToLoud,List.reverse_reverse]
  exact List.dropWhile_suffix _

theorem upToLoud_loud {pieces : List (List Char)} {last : List Char}
    (ends : last ∈ (upToLoud pieces).getLast?) : isSilent last = false := by
  have first := List.head?_dropWhile_not isSilent pieces.reverse
  rw [upToLoud,List.getLast?_reverse,dropSilentEnd] at ends
  rwa [Option.mem_def.mp ends] at first

theorem spoken_upToLoud (pieces : List (List Char)) : spoken (upToLoud pieces) = spoken pieces := by
  have ends : upToLoud pieces ++ (pieces.reverse.takeWhile isSilent).reverse = pieces := by
    rw [upToLoud,dropSilentEnd,← List.reverse_append,List.takeWhile_append_dropWhile,List.reverse_reverse]
  have silent : spoken (pieces.reverse.takeWhile isSilent).reverse = [] :=
    spoken_silence fun piece member => List.all_eq_true.mp List.all_takeWhile piece (List.mem_reverse.mp member)
  have whole := congrArg spoken ends
  rwa [spoken_append,silent,List.append_nil] at whole

theorem splitStart_name {char : Char} {chars : List Char} (slash : char ≠ '/')
    (dot : ¬ (char = '.' ∧ (chars = [] ∨ ∃ rest, chars = '/' :: rest))) :
    splitStart (char :: chars) = ([],char :: chars) := by
  unfold splitStart
  split <;> grind

theorem join_cons (char : Char) (piece : List Char) (more : List (List Char)) :
    Text.join '/' ((char :: piece) :: more) = char :: Text.join '/' (piece :: more) := by
  cases more <;> rfl

/-- The beginning of a path is read as before when pieces are cut off at the end. -/
theorem splitStart_kept (split : splitStart chars = (start,body)) (before : kept <+: Text.pieces '/' body)
    (loud : ∀ last ∈ kept.getLast?, isSilent last = false) :
    splitStart (start ++ Text.join '/' kept) = (start,Text.join '/' kept) := by
  unfold splitStart at split
  split at split
  · cases split
    rfl
  · cases split
    cases kept with
    | nil => rfl
    | cons piece more =>
      obtain ⟨rfl,none⟩ := List.cons_prefix_cons.mp before
      obtain rfl := List.prefix_nil.mp none
      cases loud [] rfl
  · cases split
    cases kept with
    | nil => rfl
    | cons piece more =>
      rw [Disk.pieces_slash] at before
      obtain ⟨rfl,-⟩ := List.cons_prefix_cons.mp before
      cases more with
      | nil => cases loud [] rfl
      | cons next more => rfl
  · rename_i absolute here below
    cases split
    cases kept with
    | nil => rfl
    | cons piece more =>
      cases chars with
      | nil =>
        obtain ⟨rfl,none⟩ := List.cons_prefix_cons.mp before
        obtain rfl := List.prefix_nil.mp none
        cases loud [] rfl
      | cons char chars =>
        have slash : char ≠ '/' := by
          rintro rfl
          exact absolute _ rfl
        obtain ⟨first,others,same⟩ := List.exists_cons_of_ne_nil (Text.pieces_ne_nil '/' chars)
        rw [Text.pieces,if_neg slash,same] at before
        obtain ⟨rfl,-⟩ := List.cons_prefix_cons.mp before
        rw [List.nil_append,join_cons]
        apply splitStart_name slash
        rintro ⟨rfl,nothing⟩
        -- The first piece does not end behind the dot, or the path would have begun with a mark.
        cases chars with
        | nil => exact here rfl
        | cons next chars =>
          have further : next ≠ '/' := by
            rintro rfl
            exact below _ rfl
          obtain ⟨second,left,cut⟩ := List.exists_cons_of_ne_nil (Text.pieces_ne_nil '/' chars)
          rw [Text.pieces,if_neg further,cut] at same
          cases same
          rw [join_cons] at nothing
          rcases nothing with none | ⟨rest,more⟩
          · cases none
          · exact further (List.cons.inj more).1

theorem spoken_join (before : kept <+: Text.pieces '/' body) :
    spoken (Text.pieces '/' (Text.join '/' kept)) = spoken kept := by
  cases kept with
  | nil => rfl
  | cons piece more =>
    rw [Text.pieces_join (List.cons_ne_nil _ _)]
    intro other member
    exact Text.not_mem_of_pieces (before.subset member)

theorem components_kept (split : splitStart chars = (start,body)) (before : kept <+: Text.pieces '/' body) :
    components ⟨String.ofList (start ++ Text.join '/' (upToLoud kept))⟩ =
      Component.ofStart start ++ spoken kept := by
  have within := (prefix_upToLoud kept).trans before
  have again := splitStart_kept split within fun last ends => upToLoud_loud ends
  rw [components_ofList again,spoken_join within,spoken_upToLoud]

/-- The folder above a path has the components of the path, but for the last one. -/
theorem parent?_components (above : path.parent? = some folder) :
    folder.components = path.components.dropLast := by
  unfold parent? at above
  cases split : splitStart path.text.toList with
  | mk start body =>
    rw [split] at above
    dsimp only at above
    rw [components_split path split,← spoken_upToLoud]
    have whole := prefix_upToLoud (Text.pieces '/' body)
    cases ends : dropSilentEnd (Text.pieces '/' body).reverse with
    | nil =>
      rw [ends] at above
      rw [upToLoud,ends]
      dsimp only at above
      split at above
      · rename_i dot
        cases above
        rw [dot]
        rfl
      · cases above
    | cons last before =>
      rw [ends] at above
      cases above
      have spelled : upToLoud (Text.pieces '/' body) = before.reverse ++ [last] := by
        rw [upToLoud,ends,List.reverse_cons]
      have loud : isSilent last = false := upToLoud_loud (by rw [spelled,List.getLast?_concat]; rfl)
      rw [spelled] at whole ⊢
      rw [spoken_append,spoken_loud loud,← List.append_assoc,List.dropLast_concat]
      have kept := components_kept split ((List.prefix_append _ _).trans whole)
      rwa [upToLoud,List.reverse_reverse] at kept

section Steps

variable {name text : String}

theorem relative_of_whole (whole : '/' ∉ name.toList) : (Path.mk name).isAbsolute = false := by
  rw [isAbsolute]
  cases spelled : name.toList with
  | nil => rfl
  | cons first rest =>
    rw [spelled] at whole
    simpa using (List.ne_of_not_mem_cons whole).symm

/-- A name in a folder stands behind a slash, which the folder may end with. -/
theorem join_cases (relative : (Path.mk name).isAbsolute = false) (filled : folder.text ≠ "") :
    ∃ before, folder.join name = ⟨String.ofList (before ++ '/' :: name.toList)⟩ ∧
      (folder = ⟨String.ofList (before ++ ['/'])⟩ ∨ before ≠ [] ∧ folder = ⟨String.ofList before⟩) := by
  have some : folder.text.toList ≠ [] := fun empty => filled (String.toList_eq_nil_iff.mp empty)
  obtain ⟨before,last,spelled⟩ := List.eq_nil_or_concat folder.text.toList |>.resolve_left some
  rw [List.concat_eq_append] at spelled
  have text : folder.text = String.ofList (before ++ [last]) := by rw [← spelled,String.ofList_toList]
  rw [join,relative,spelled,List.getLast?_concat]
  by_cases slash : last = '/'
  · subst slash
    refine ⟨before,?_,.inl (by rw [← text])⟩
    have joined : folder.text ++ name = String.ofList (before ++ '/' :: name.toList) := by
      rw [text,← String.toList_inj]
      simp
    exact congrArg Path.mk joined
  · refine ⟨before ++ [last],?_,.inr ⟨by simp,by rw [← text]⟩⟩
    have joined : folder.text ++ "/" ++ name = String.ofList (before ++ [last] ++ '/' :: name.toList) := by
      rw [text,← String.toList_inj]
      simp
    rw [← joined]
    simp only [Bool.false_eq_true,if_false]

theorem text_join (folder : Path) (name : String) : ∃ before, (folder.join name).text = before ++ name := by
  rw [join]
  split
  · exact ⟨"",by simp⟩
  · split
    · exact ⟨"",by simp⟩
    · exact ⟨folder.text,rfl⟩
    · exact ⟨folder.text ++ "/",rfl⟩

/-- The components of a path, but for a mark at the beginning that says nothing. -/
def steps (path : Path) : List Component := path.components.filter (· ≠ .here)

theorem spoken_moves (pieces : List (List Char)) : (spoken pieces).filter (· ≠ .here) = spoken pieces := by
  rw [List.filter_eq_self,spoken]
  intro component member
  obtain ⟨piece,-,rfl⟩ := List.mem_map.mp member
  rw [Component.ofPiece]
  split <;> simp

theorem steps_eq (path : Path) : path.steps =
    (if path.isAbsolute then [.root] else []) ++ spoken (Text.pieces '/' path.text.toList) := by
  cases split : splitStart path.text.toList with
  | mk start body =>
    rw [steps,components_split path split,List.filter_append,spoken_moves,isAbsolute]
    generalize path.text.toList = chars at split ⊢
    unfold splitStart at split
    split at split
    · cases split
      rw [Disk.pieces_slash,Disk.spoken_silent rfl]
      rfl
    · cases split
      rfl
    · cases split
      have pieces (rest : List Char) : Text.pieces '/' ('.' :: '/' :: rest) = ['.'] :: Text.pieces '/' rest := rfl
      rw [pieces,Disk.pieces_slash,Disk.spoken_silent rfl,Disk.spoken_silent rfl]
      rfl
    · rename_i relative _ _
      cases split
      have first : (body.head? == some '/') = false := by
        cases body with
        | nil => rfl
        | cons char rest =>
          have other : char ≠ '/' := by
            rintro rfl
            exact relative rest rfl
          simpa using other
      rw [first]
      rfl

theorem steps_ofList (chars : List Char) : steps ⟨String.ofList chars⟩ =
    (if chars.head? == some '/' then [.root] else []) ++ spoken (Text.pieces '/' chars) := by
  rw [steps_eq,isAbsolute,String.toList_ofList]

/-- What is joined to a path is gone behind it. -/
theorem steps_join (relative : (Path.mk name).isAbsolute = false) :
    (folder.join name).steps = folder.steps ++ spoken (Text.pieces '/' name.toList) := by
  have nothing : spoken (Text.pieces '/' []) = [] := rfl
  by_cases empty : folder.text = ""
  · have whole : folder.join name = ⟨name⟩ := by simp [join,relative,empty]
    rw [whole,steps_eq,relative,steps_eq,isAbsolute,empty]
    rfl
  obtain ⟨before,spelled,ends⟩ := join_cases relative empty
  have here : folder.steps =
      (if (before ++ '/' :: name.toList).head? == some '/' then [.root] else []) ++ spoken (Text.pieces '/' before) := by
    rcases ends with rfl | ⟨some,rfl⟩
    · rw [steps_ofList,Text.pieces_append,spoken_append,nothing,List.append_nil]
      cases before <;> rfl
    · rw [steps_ofList]
      cases before with
      | nil => exact absurd rfl some
      | cons char before => rfl
  rw [spelled,here,steps_ofList,Text.pieces_append,spoken_append,List.append_assoc]

theorem ofStart_unnamed (start : List Char) (text : String) : .name text ∉ Component.ofStart start := by
  unfold Component.ofStart
  split <;> simp

theorem fileName?_of_steps (ends : path.steps.getLast? = some (.name text)) : path.fileName? = some text := by
  cases split : splitStart path.text.toList with
  | mk start body =>
    rw [steps,components_split path split,List.filter_append,spoken_moves] at ends
    rw [fileName?,components_split path split]
    rw [List.getLast?_append] at ends ⊢
    cases last : (spoken (Text.pieces '/' body)).getLast? with
    | some component =>
      rw [last] at ends
      cases ends
      rfl
    | none =>
      rw [last,Option.none_or] at ends
      have mark := (List.mem_filter.mp (List.mem_of_getLast? ends)).1
      exact absurd mark (ofStart_unnamed start text)

theorem parent?_of_fileName (named : path.fileName? = some text) : ∃ folder, path.parent? = some folder := by
  cases split : splitStart path.text.toList with
  | mk start body =>
    rw [parent?,split]
    dsimp only
    cases ends : dropSilentEnd (Text.pieces '/' body).reverse with
    | cons last before => exact ⟨_,rfl⟩
    | nil =>
      have silent : spoken (Text.pieces '/' body) = [] := by
        rw [← spoken_upToLoud,upToLoud,ends]
        rfl
      rw [fileName?,components_split path split,silent,List.append_nil] at named
      split at named
      · rename_i last
        exact absurd (List.mem_of_getLast? last) (ofStart_unnamed start _)
      · cases named

/-- The last piece of a text that ends like this. -/
theorem pieces_end (before : List Char) {ending : List Char} (whole : '/' ∉ ending) :
    ∃ earlier piece, Text.pieces '/' (before ++ ending) = earlier ++ [piece ++ ending] := by
  induction before with
  | nil => exact ⟨[],[],Text.pieces_single whole⟩
  | cons char before ih =>
    obtain ⟨earlier,piece,same⟩ := ih
    rw [List.cons_append,Text.pieces]
    by_cases slash : char = '/'
    · rw [if_pos slash,same]
      exact ⟨[] :: earlier,piece,rfl⟩
    · rw [if_neg slash,same]
      cases earlier with
      | nil => exact ⟨[],char :: piece,rfl⟩
      | cons first earlier => exact ⟨(char :: first) :: earlier,piece,rfl⟩

theorem fileName?_of_end {before ending : List Char} (spelled : path.text.toList = before ++ ending)
    (whole : '/' ∉ ending) (long : 2 < ending.length) : ∃ text, path.fileName? = some text := by
  obtain ⟨earlier,piece,cut⟩ := pieces_end before whole
  have wide : 2 < (piece ++ ending).length := by
    rw [List.length_append]
    omega
  have loud : isSilent (piece ++ ending) = false := by
    rw [isSilent,Bool.or_eq_false_iff]
    constructor
    all_goals
      rw [beq_eq_false_iff_ne]
      intro short
      rw [short] at wide
      exact absurd wide (by decide)
  have named : Component.ofPiece (piece ++ ending) = .name (String.ofList (piece ++ ending)) := by
    rw [Component.ofPiece,if_neg]
    intro up
    rw [up] at wide
    exact absurd wide (by decide)
  refine ⟨String.ofList (piece ++ ending),fileName?_of_steps ?_⟩
  rw [steps_eq,spelled,cut,spoken_append,spoken_loud loud,named,← List.append_assoc,List.getLast?_concat]

end Steps
end Path
end LoadMap
