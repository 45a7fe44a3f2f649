import LoadMap.Proofs.Graph.Display
import LoadMap.Proofs.Json.Layout

/-! An export as a text, and the text as an export again. Every level of the tree opens an object and a
list, so it is the limit on what may be open at a time that decides which exports can be read. -/
namespace LoadMap.GraphExport

open Json (Plain)

variable {item : Module} {tree : Tree Module} {trees : List (Tree Module)} {room : Nat}

theorem treesToJson_eq (trees : List (Tree Module)) : treesToJson trees = trees.map treeToJson := by
  induction trees with
  | nil => rfl
  | cons tree rest ih => rw [treesToJson,ih,List.map_cons]

theorem plain_fields (item : Module) : ∀ field ∈ item.fields, Plain field.2 := by
  have path : Plain (Json.ofOption (.string ·.text) item.path?) := by
    cases item.path? with
    | none => exact .null
    | some path => exact .string path.text
  simp only [Module.fields,List.forall_mem_cons]
  exact ⟨.string item.name,path,.string item.strategy.label,by simp⟩

mutual
theorem plain_tree (tree : Tree Module) : Plain (treeToJson tree) := by
  obtain ⟨item,branches⟩ := tree
  apply Plain.object
  intro field member
  rcases List.mem_append.mp member with own | last
  · exact plain_fields item field own
  · obtain rfl := List.mem_singleton.mp last
    exact .array (plain_trees branches)

theorem plain_trees (trees : List (Tree Module)) : ∀ value ∈ treesToJson trees, Plain value := by
  match trees with
  | [] => exact fun _ member => nomatch member
  | tree :: rest =>
    rw [treesToJson,List.forall_mem_cons]
    exact ⟨plain_tree tree,plain_trees rest⟩
end

theorem plain_toJson (document : GraphExport) : Plain document.toJson := by
  apply Plain.object
  simp only [List.forall_mem_cons]
  exact ⟨plain_tree document.root,.number document.maxDepth,by simp⟩

theorem ofJson?_label (strategy : Strategy) :
    Strategy.ofJson? (.string strategy.label) = some strategy := by
  cases strategy <;> rfl

theorem pathOf?_written (path? : Option Path) :
    pathOf? (some (Json.ofOption (.string ·.text) path?)) = some path? := by
  cases path? <;> rfl

theorem fieldsOf?_node (item : Module) (branches : List (Tree Module)) :
    fieldsOf? ["ModuleName","Filepath","SearchStrategy","Dependencies"]
      (treeToJson (.node item branches)) =
        some [some (.string item.name),some (Json.ofOption (.string ·.text) item.path?),
          some (.string item.strategy.label),some (.array (treesToJson branches))] := by
  rw [treeToJson]
  rfl

theorem treeOf?_node (item : Module) (branches : List (Tree Module)) :
    treeOf? (room + 2) (treeToJson (.node item branches)) =
      ((branches.map treeToJson).mapM (treeOf? room)).map (.node item) := by
  rw [treeOf?,fieldsOf?_node,treesToJson_eq]
  simp only [Option.bind_eq_bind,Option.bind_some,Json.toText?,pathOf?_written,ofJson?_label]
  cases (branches.map treeToJson).mapM (treeOf? room) <;> rfl

theorem mapM_treeOf? (read : ∀ tree ∈ trees, treeOf? room (treeToJson tree) =
      if 2 * tree.height ≤ room then some tree else none) :
    (trees.map treeToJson).mapM (treeOf? room) =
      if 2 * Tree.heightAll trees ≤ room then some trees else none := by
  induction trees with
  | nil => simp [Tree.heightAll]
  | cons tree rest ih =>
    rw [List.forall_mem_cons] at read
    rw [List.map_cons,List.mapM_cons,read.1,ih read.2,Tree.heightAll]
    by_cases first : 2 * tree.height ≤ room
    · by_cases others : 2 * Tree.heightAll rest ≤ room
      · have both : 2 * max tree.height (Tree.heightAll rest) ≤ room := by omega
        simp [first,others,both]
      · have either : ¬ 2 * max tree.height (Tree.heightAll rest) ≤ room := by omega
        simp [first,others,either]
    · have either : ¬ 2 * max tree.height (Tree.heightAll rest) ≤ room := by omega
      simp [first,either]

theorem treeOf?_treeToJson (room : Nat) (tree : Tree Module) :
    treeOf? room (treeToJson tree) = if 2 * tree.height ≤ room then some tree else none := by
  -- A level of the tree takes up two of what may be open: its object, and the list of its branches.
  induction room using Nat.twoStepInduction generalizing tree with
  | zero =>
    obtain ⟨item,branches⟩ := tree
    rw [Tree.height,if_neg (by omega)]
    rfl
  | one =>
    obtain ⟨item,branches⟩ := tree
    rw [Tree.height,if_neg (by omega)]
    rfl
  | more room ih _ =>
    obtain ⟨item,branches⟩ := tree
    rw [treeOf?_node,mapM_treeOf? fun tree _ => ih tree,Tree.height]
    by_cases fits : 2 * Tree.heightAll branches ≤ room
    · rw [if_pos fits,if_pos (by omega),Option.map_some]
    · rw [if_neg fits,if_neg (by omega),Option.map_none]

theorem toNat?_ofNat {value : Nat} (bounded : value < Word.limit 64) :
    (Json.ofNat value).toNat? = some value := by
  have all : (Nat.toDigits 10 value).all Char.isDigit := by
    rw [List.all_eq_true]
    intro char member
    exact Nat.isDigit_of_mem_toDigits (by decide) (by decide) member
  have same : (Nat.toDigits 10 value).foldl (fun value char => value * 10 + (char.toNat - 48)) 0 = value := by
    have digits := Nat.ofDigitChars_ten_toDigits (n := value)
    rw [Nat.ofDigitChars_eq_foldl] at digits
    simpa [Nat.mul_comm] using digits
  rw [Json.ofNat,Json.toNat?,Nat.toString_eq_ofList_toDigits,String.toList_ofList,same]
  simp [all,bounded]

theorem ofJson?_toJson (document : GraphExport) (bounded : document.maxDepth < Word.limit 64) :
    ofJson? document.toJson = if 2 * document.root.height < deepest then some document else none := by
  have fields : fieldsOf? ["Root","MaxRecursion"] document.toJson =
      some [some (treeToJson document.root),some (.ofNat document.maxDepth)] := rfl
  rw [ofJson?,fields]
  simp only [Option.bind_eq_bind,Option.bind_some,treeOf?_treeToJson,toNat?_ofNat bounded]
  by_cases fits : 2 * document.root.height < deepest
  · have room : 2 * document.root.height ≤ deepest - 1 := Nat.le_sub_one_of_lt fits
    simp [fits,room]
  · have full : ¬ 2 * document.root.height ≤ deepest - 1 := by
      rw [deepest] at fits ⊢
      omega
    simp [fits,full]

theorem read?_toJson (document : GraphExport) :
    ∀ text ∈ [document.toJson.compact,document.toJson.pretty],
      Json.read? text = some document.toJson := by
  obtain ⟨compact,pretty⟩ := (plain_toJson document).read?_written
  simp [compact,pretty]

/-- An export is read back from its text, on one line or over several, if at most sixty-three modules
lie below each other in it. A deeper one is refused: two brackets are open for each of them, and one
around them all. -/
theorem export_read_back (document : GraphExport) (bounded : document.maxDepth < Word.limit 64) :
    ∀ text ∈ [document.toJson.compact,document.toJson.pretty], ofText text =
      if 2 * document.root.height < deepest then .ok document
      else .error (.json "the text is no exported graph") := by
  intro text written
  rw [ofText,read?_toJson document text written,Option.bind_some,ofJson?_toJson document bounded]
  by_cases fits : 2 * document.root.height < deepest
  · rw [if_pos fits,if_pos fits]
  · rw [if_neg fits,if_neg fits]

/-- An export with a module that no file was found for, and with names that need escapes. -/
def strange : GraphExport where
  root := .node { name := "\"\\\n\x01é", path? := some ⟨"ä/\""⟩, strategy := .root }
    [.node { name := "", path? := none, strategy := .notFound } []]
  maxDepth := 2 ^ 64 - 1

theorem export_read_back_strange :
    ofText strange.toJson.compact = .ok strange ∧ ofText strange.toJson.pretty = .ok strange := by
  have bounded : strange.maxDepth < Word.limit 64 := by decide
  have fits : 2 * strange.root.height < deepest := by decide
  have reads := export_read_back strange bounded
  simp only [if_pos fits] at reads
  exact ⟨reads _ (by simp),reads _ (by simp)⟩

end LoadMap.GraphExport
namespace LoadMap.Graph

def letter (id : Nat) : String := String.singleton (Char.ofNat (256 + id))

/-- Some modules in a row: each imports the next one, up to the last. -/
def row (count : Nat) : Graph where
  rootModule := .ofPath ⟨letter 0⟩ []
  maxDepth := 0
  nodes := (List.range count).map fun id => {
    name := letter id
    path? := some ⟨letter id⟩
    strategy := if id = 0 then .root else .standardSearch
    level := id
    imports := if id + 1 < count then [letter (id + 1)] else []
    children := if id + 1 < count then [id + 1] else []
    dependencies := if id + 1 < count then [id + 1] else []
    resolved := true }
  index := (List.range count).reverse.map fun id => (⟨letter id,some [.name (letter id)]⟩,id)

def rowTree (id : Nat) : Nat → Tree NodeId
  | 0 => .node id []
  | left + 1 => .node id [rowTree (id + 1) left]

theorem row_exported : Exported (row 64) (rowTree 0 63) := ⟨rfl,by decide +kernel⟩

/-- The export of sixty-four modules in a row is not read back. -/
theorem row_refused : (row 64).maxDepth < Word.limit 64 ∧
    ∀ text ∈ [(row 64).exportTree.2.toJson.compact,(row 64).exportTree.2.toJson.pretty],
      GraphExport.ofText text ≠ .ok (row 64).exportTree.2 := by
  have bounded : (row 64).maxDepth < Word.limit 64 := by decide
  have deep : ¬ 2 * (row 64).exportTree.2.root.height < GraphExport.deepest := by
    rw [row_exported.export_eq]
    decide +kernel
  refine ⟨bounded,fun text written => ?_⟩
  have unread := GraphExport.ofJson?_toJson (row 64).exportTree.2 bounded
  rw [if_neg deep] at unread
  rw [GraphExport.ofText,GraphExport.read?_toJson _ text written,Option.bind_some,unread]
  nofun

end LoadMap.Graph
