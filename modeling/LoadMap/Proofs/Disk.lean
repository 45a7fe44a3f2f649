import LoadMap.Disk

/-! Folders and files of a disk, found by the components of a path: whatever else there is in the text of a path
does not change which folder it leads to, nor which file, if it leads to one. -/
namespace LoadMap

/-- What stands behind the last slash of a path is one of its components. -/
def Path.EndsInName (path : Path) : Prop :=
  ∀ last ∈ (Text.pieces '/' path.text.toList).getLast?, ¬ Path.isSilent last

instance (path : Path) : Decidable path.EndsInName :=
  inferInstanceAs (Decidable (∀ last ∈ (Text.pieces '/' path.text.toList).getLast?, ¬ Path.isSilent last))

namespace Disk

variable {disk : Disk} {here : Location} {left right path : Path}

def arrive (disk : Disk) (here : Location) : Option Location :=
  if disk.isFolderAt here then some here else none

/-- One component further, out of a folder. -/
def move (disk : Disk) (here : Location) : Path.Component → Option Location
  | .root | .here => some here
  | .parent => some here.dropLast
  | .name text => if (disk.entry? (here ++ [text])).isSome then some (here ++ [text]) else none

def walk (disk : Disk) : List Path.Component → Location → Option Location
  | [], here => disk.arrive here
  | component :: rest, here => do disk.walk rest (← disk.move (← disk.arrive here) component)

def folder? (disk : Disk) : List Path.Component → Option Location
  | [] => none
  | .root :: rest => disk.walk rest []
  | .here :: rest => disk.walk rest disk.workingFolder
  | rest => disk.walk rest disk.workingFolder

theorem arrive_walk (components : List Path.Component) (here : Location) :
    (disk.arrive here).bind (disk.walk components) = disk.walk components here := by
  by_cases folder : disk.isFolderAt here
  · have arrived : disk.arrive here = some here := if_pos folder
    rw [arrived,Option.bind_some]
  · have lost : disk.arrive here = none := if_neg folder
    cases components <;> simp [walk,lost]

/-- The components that some pieces of a text stand for. -/
def spoken (pieces : List (List Char)) : List Path.Component :=
  (pieces.filter (!Path.isSilent ·)).map Path.Component.ofPiece

theorem step?_silent {piece : List Char} (silent : Path.isSilent piece) (here : Location) :
    disk.step? here piece = disk.arrive here := by
  have nothing : piece = [] ∨ piece = ['.'] := by simpa [Path.isSilent] using silent
  simp [step?,arrive,nothing]

theorem step?_spoken {piece : List Char} (spoken : ¬ Path.isSilent piece) (here : Location) :
    disk.step? here piece = (disk.arrive here).bind (disk.move · (.ofPiece piece)) := by
  have something : ¬ (piece = [] ∨ piece = ['.']) := by simpa [Path.isSilent] using spoken
  by_cases folder : disk.isFolderAt here
  · by_cases up : piece = ['.','.']
    · simp [step?,arrive,folder,up,move,Path.Component.ofPiece]
    · simp [step?,arrive,folder,something,up,move,Path.Component.ofPiece]
  · simp [step?,arrive,folder]

/-- Only the components count on the way to a folder. -/
theorem steps_arrive (pieces : List (List Char)) (here : Location) :
    (pieces.foldlM disk.step? here).bind disk.arrive = disk.walk (spoken pieces) here := by
  induction pieces generalizing here with
  | nil => rfl
  | cons piece rest ih =>
    rw [List.foldlM_cons,Option.bind_eq_bind,Option.bind_assoc]
    simp only [ih]
    by_cases silent : Path.isSilent piece
    · have same : spoken (piece :: rest) = spoken rest := by simp [spoken,silent]
      rw [same,step?_silent silent,arrive_walk]
    · have more : spoken (piece :: rest) = .ofPiece piece :: spoken rest := by simp [spoken,silent]
      rw [more,step?_spoken silent,walk,Option.bind_assoc]
      rfl

theorem spoken_silent {piece : List Char} (silent : Path.isSilent piece) (rest : List (List Char)) :
    spoken (piece :: rest) = spoken rest := by
  rw [spoken,List.filter_cons_of_neg (by simp [silent]),spoken]

theorem pieces_slash (chars : List Char) : Text.pieces '/' ('/' :: chars) = [] :: Text.pieces '/' chars :=
  if_pos rfl

/-- A text that begins with a name has it for its first component. -/
theorem spoken_named {char : Char} {chars : List Char} (slash : char ≠ '/')
    (dot : ¬ (char = '.' ∧ (chars = [] ∨ ∃ rest, chars = '/' :: rest))) :
    ∃ piece rest, spoken (Text.pieces '/' (char :: chars)) = .ofPiece piece :: rest := by
  obtain ⟨piece,more,same⟩ := List.exists_cons_of_ne_nil (Text.pieces_ne_nil '/' chars)
  have whole : Text.pieces '/' (char :: chars) = (char :: piece) :: more := by
    rw [Text.pieces,if_neg slash,same]
  have loud : ¬ Path.isSilent (char :: piece) := by
    intro silent
    obtain ⟨rfl,rfl⟩ : char = '.' ∧ piece = [] := by simpa [Path.isSilent] using silent
    cases chars with
    | nil => exact dot ⟨rfl,.inl rfl⟩
    | cons next others =>
      by_cases cut : next = '/'
      · exact dot ⟨rfl,.inr ⟨others,by rw [cut]⟩⟩
      · rw [Text.pieces,if_neg cut] at same
        split at same <;> cases same
  refine ⟨char :: piece,spoken more,?_⟩
  rw [whole,spoken,List.filter_cons_of_pos (by simp [loud]),List.map_cons,spoken]

/-- Where the way along some components begins. -/
def origin (disk : Disk) : List Path.Component → Location
  | .root :: _ => []
  | _ => disk.workingFolder

/-- The components that are steps: a mark at the beginning is none. -/
def route : List Path.Component → List Path.Component
  | .root :: rest | .here :: rest => rest
  | rest => rest

theorem folder?_eq {components : List Path.Component} (some : components ≠ []) :
    disk.folder? components = disk.walk (route components) (disk.origin components) := by
  match components with
  | [] => exact absurd rfl some
  | .root :: _ | .here :: _ | .parent :: _ | .name _ :: _ => rfl

theorem ofPiece_route (disk : Disk) (piece : List Char) (rest : List Path.Component) :
    route (.ofPiece piece :: rest) = .ofPiece piece :: rest ∧
      disk.origin (.ofPiece piece :: rest) = disk.workingFolder := by
  by_cases up : piece = ['.','.']
  · rw [Path.Component.ofPiece,if_pos up]
    exact ⟨rfl,rfl⟩
  · rw [Path.Component.ofPiece,if_neg up]
    exact ⟨rfl,rfl⟩

/-- The way that a text describes, by its components. -/
theorem components_route (disk : Disk) {path : Path} (filled : path.text ≠ "") :
    path.components ≠ [] ∧ spoken (Text.pieces '/' path.text.toList) = route path.components ∧
      disk.origin path.components = if path.isAbsolute then [] else disk.workingFolder := by
  obtain ⟨text⟩ := path
  cases same : text.toList with
  | nil => exact absurd (String.toList_eq_nil_iff.mp same) filled
  | cons first rest =>
    have components : Path.components ⟨text⟩ = Path.Component.ofStart (Path.splitStart (first :: rest)).1 ++
        spoken (Text.pieces '/' (Path.splitStart (first :: rest)).2) := by
      rw [Path.components,same]
      rfl
    rw [Path.isAbsolute,same,components]
    by_cases slash : first = '/'
    · subst slash
      rw [pieces_slash,spoken_silent rfl]
      exact ⟨List.cons_ne_nil _ _,rfl,rfl⟩
    · have relative : ¬ ((first :: rest).head? == some '/') = true := by simpa using slash
      rw [if_neg relative]
      by_cases dot : first = '.' ∧ (rest = [] ∨ ∃ others, rest = '/' :: others)
      · obtain ⟨rfl,rfl | ⟨others,rfl⟩⟩ := dot
        · exact ⟨List.cons_ne_nil _ _,rfl,rfl⟩
        · have pieces : Text.pieces '/' ('.' :: '/' :: others) = ['.'] :: Text.pieces '/' others := rfl
          rw [pieces,spoken_silent rfl,Path.splitStart,pieces_slash,spoken_silent rfl]
          exact ⟨List.cons_ne_nil _ _,rfl,rfl⟩
      · have start : Path.splitStart (first :: rest) = ([],first :: rest) := by
          unfold Path.splitStart
          split <;> grind
        obtain ⟨piece,others,named⟩ := spoken_named slash dot
        have nothing : Path.Component.ofStart [] = [] := rfl
        obtain ⟨route,origin⟩ := ofPiece_route disk piece others
        rw [start,named,nothing,List.nil_append]
        exact ⟨List.cons_ne_nil _ _,route.symm,origin⟩

theorem arrive_locate? (disk : Disk) (path : Path) :
    (disk.locate? path).bind disk.arrive = disk.folder? path.components := by
  by_cases filled : path.text = ""
  · obtain ⟨text⟩ := path
    obtain rfl : text = "" := filled
    rfl
  · obtain ⟨some,route,origin⟩ := components_route disk filled
    rw [locate?,if_neg filled,steps_arrive,folder?_eq some,route,origin]

/-- From folder to folder along some components; the last may lead to a file. -/
def reach (disk : Disk) (components : List Path.Component) (here : Location) : Option Location :=
  components.foldlM (fun here component => (disk.arrive here).bind (disk.move · component)) here

theorem steps_reach (pieces : List (List Char)) {here there : Location}
    (stepped : pieces.foldlM disk.step? here = some there) : disk.reach (spoken pieces) here = some there := by
  induction pieces generalizing here with
  | nil => exact stepped
  | cons piece rest ih =>
    rw [List.foldlM_cons] at stepped
    obtain ⟨next,first,further⟩ := Option.bind_eq_some_iff.mp stepped
    by_cases silent : Path.isSilent piece
    · rw [step?_silent silent,arrive] at first
      split at first
      · cases first
        rw [spoken_silent silent]
        exact ih further
      · cases first
    · have more : spoken (piece :: rest) = .ofPiece piece :: spoken rest := by simp [spoken,silent]
      rw [more,reach,List.foldlM_cons,← step?_spoken silent,first]
      exact ih further

/-- What a path leads to hangs on its components, if it leads anywhere. -/
theorem reach_of_locate? {location : Location} (located : disk.locate? path = some location) :
    disk.reach (route path.components) (disk.origin path.components) = some location := by
  rw [locate?] at located
  split at located
  · cases located
  · rename_i filled
    obtain ⟨-,route,origin⟩ := components_route disk filled
    rw [← route,origin]
    exact steps_reach _ located

theorem reach_of_content? {content : ByteArray} (opened : disk.content? path = some content) :
    (disk.reach (route path.components) (disk.origin path.components)).bind disk.entry? = some (.file content) := by
  rw [content?,find?] at opened
  split at opened
  · rename_i found
    cases opened
    obtain ⟨location,located,there⟩ := Option.bind_eq_some_iff.mp found
    rw [reach_of_locate? located]
    exact there
  · cases opened

/-- Spellings of one path open one file, if they open any. -/
theorem content?_spelling (same : left.components = right.components) {one other : ByteArray}
    (first : disk.content? left = some one) (second : disk.content? right = some other) : one = other := by
  have whole := reach_of_content? first
  rw [same,reach_of_content? second] at whole
  cases whole
  rfl

theorem reach_arrive (components : List Path.Component) (here : Location) :
    (disk.reach components here).bind disk.arrive = disk.walk components here := by
  induction components generalizing here with
  | nil => rfl
  | cons component rest ih =>
    rw [reach,List.foldlM_cons,Option.bind_eq_bind,Option.bind_assoc]
    simp only [reach] at ih
    simp only [ih,Option.bind_assoc]
    rfl

/-- On the way to a name nothing counts but the components. -/
theorem steps_loud (pieces : List (List Char)) {last : List Char} (loud : ¬ Path.isSilent last) (here : Location) :
    (pieces ++ [last]).foldlM disk.step? here = disk.reach (spoken (pieces ++ [last])) here := by
  have ends : spoken (pieces ++ [last]) = spoken pieces ++ [.ofPiece last] := by simp [spoken,loud]
  have single (there : Location) : [last].foldlM disk.step? there =
      (disk.arrive there).bind (disk.move · (.ofPiece last)) :=
    (bind_pure _).trans (step?_spoken loud there)
  have further (there : Location) : disk.reach [.ofPiece last] there =
      (disk.arrive there).bind (disk.move · (.ofPiece last)) := bind_pure _
  have split : disk.reach (spoken pieces ++ [.ofPiece last]) here =
      (disk.reach (spoken pieces) here).bind (disk.reach [.ofPiece last]) := List.foldlM_append
  rw [ends,split,List.foldlM_append,Option.bind_eq_bind,funext single,funext further,← Option.bind_assoc,
    ← Option.bind_assoc,steps_arrive,reach_arrive]

/-- A path that ends in a name opens if any spelling of it does. -/
theorem content?_named (ends : path.EndsInName) {other : Path} (same : other.components = path.components)
    {content : ByteArray} (opened : disk.content? other = some content) : disk.content? path = some content := by
  have filled : path.text ≠ "" := by
    intro empty
    rw [Path.EndsInName,empty] at ends
    exact ends [] rfl rfl
  obtain ⟨-,route,origin⟩ := components_route disk filled
  obtain ⟨before,last,split⟩ := (List.eq_nil_or_concat _).resolve_left (Text.pieces_ne_nil '/' path.text.toList)
  rw [List.concat_eq_append] at split
  have named := ends last (by rw [split,List.getLast?_concat]; rfl)
  have led : disk.locate? path = disk.reach (Disk.route path.components) (disk.origin path.components) := by
    rw [locate?,if_neg filled,← route,origin,split]
    exact steps_loud before named _
  rw [content?,find?,led,← same,reach_of_content? opened]

theorem names?_eq (path : Path) : disk.names? path = (disk.folder? path.components).map disk.namesAt := by
  rw [← arrive_locate?,names?]
  cases disk.locate? path with
  | none => rfl
  | some location =>
    rw [Option.bind_some,arrive]
    simp only
    split <;> rfl

theorem names?_congr (same : left.components = right.components) :
    disk.names? left = disk.names? right := by
  rw [names?_eq,names?_eq,same]

theorem mem_namesAt {name : String} {kind : FileKind} :
    (name,kind) ∈ disk.namesAt here ↔ ∃ entry, (here ++ [name],entry) ∈ disk.entries ∧ entry.kind = kind := by
  rw [namesAt,List.mem_filterMap]
  constructor
  · rintro ⟨⟨place,entry⟩,listed,named⟩
    dsimp only at named
    split at named
    · rename_i last ends
      obtain ⟨before,rfl⟩ := List.getLast?_eq_some_iff.mp ends
      rw [List.dropLast_concat] at named
      by_cases inside : before = here
      · rw [if_pos inside] at named
        cases named
        exact ⟨entry,inside ▸ listed,rfl⟩
      · rw [if_neg inside] at named
        cases named
    · cases named
  · rintro ⟨entry,listed,rfl⟩
    exact ⟨_,listed,by simp⟩

end Disk
end LoadMap
