import LoadMap.Proofs.Graph.Recursion

/-! The recursive procedure of a build, told by what the services answer and on nothing but the list
of nodes: load a module; resolve its imports one after another, with a node behind the others for each
that has none; then, if the limit allows, do the same with each of the new ones, in their order. -/
namespace LoadMap.Graph

section Procedure

variable {m : Type → Type} [Monad m]

structure Content where
  imports : List String := []
  assemblies : List AssemblyReference := []
  notes : List String := []

def notesOn : Option ByteArray → List String
  | none => []
  | some manifest =>
    match Manifest.ofBytes manifest with
    | .ok _ => []
    | .error failure => ["malformed manifest: " ++ failure.message]

/-- Load the file of a module. The managed references come behind the native ones; to have no managed
part is no failure, and a module without a file is not loaded. -/
def readFile (services : Services m) : Option Path → m (Result Content)
  | none => return .ok {}
  | some path => do
    match ← services.load path with
    | .error failure => return .error failure
    | .ok binary =>
      let native := binary.imports.map (·.dll)
      let notes := notesOn binary.manifest?
      if binary.recognized then
        match ← services.readManaged path with
        | .ok references => return .ok ⟨native ++ references.modules,references.assemblies,notes⟩
        | .error (.notManaged _) => return .ok ⟨native,[],notes⟩
        | .error failure => return .error failure
      else return .ok ⟨native,[],notes⟩

/-- The node with a name and a file; files are compared by their components. -/
def nodeFor? (nodes : List Node) (name : String) (path? : Option Path) : Option NodeId :=
  nodes.findIdx? fun node =>
    decide (node.name = name ∧ node.path?.map Path.components = path?.map Path.components)

/-- A node with one more import, which leads to `child`. Children are told apart by their names. -/
def importing (nodes : List Node) (child : NodeId) (name : String) (node : Node) : Node :=
  { node with
    children :=
      if node.children.any fun other => (nodes.getD other default).name == name then node.children
      else node.children ++ [child]
    dependencies := node.dependencies ++ [child] }

/-- The module that an import leads to. What was not found has no file. -/
def leadsTo (name : String) (answer : Resolution) : Module where
  name := name
  path? := if answer.strategy = .notFound then none else answer.path?
  strategy := answer.strategy

/-- The nodes with one more import of one of them, and the node that is new, if one is. -/
def attach (id : NodeId) (item : Module) (nodes : List Node) : List Node × List NodeId :=
  match nodeFor? nodes item.name item.path? with
  | some child => (nodes.modify id (importing nodes child item.name),[])
  | none =>
    let larger := nodes ++ [{ toModule := item, level := (nodes.getD id default).level + 1 }]
    (larger.modify id (importing larger nodes.length item.name),[nodes.length])

/-- Resolve imports of a node in their order; the nodes that are new come with the others. -/
def attachAll (services : Services m) (rootModule : RootModule) (id : NodeId) :
    List String → List Node → m (Result (List Node × List NodeId))
  | [], nodes => return .ok (nodes,[])
  | name :: names, nodes => do
    match ← services.resolve rootModule name with
    | .error failure => return .error failure
    | .ok answer =>
      let (nodes,new) := attach id (leadsTo name answer) nodes
      match ← attachAll services rootModule id names nodes with
      | .error failure => return .error failure
      | .ok (nodes,more) => return .ok (nodes,new ++ more)

def Node.withContent (node : Node) (content : Content) : Node :=
  { node with
    imports := content.imports
    assemblies := content.assemblies
    diagnostics := content.notes }

def loadAndResolve (services : Services m) (rootModule : RootModule) (id : NodeId) (nodes : List Node) :
    m (Result (List Node × List NodeId)) := do
  let node := nodes.getD id default
  match ← readFile services node.path? with
  | .error failure => return .error failure
  | .ok content =>
    let nodes := nodes.set id (node.withContent content)
    match ← attachAll services rootModule id content.imports nodes with
    | .error failure => return .error failure
    | .ok (nodes,new) => return .ok (nodes.modify id ({ · with resolved := true }),new)

/-- A graph of some nodes, each of which is found by its name and its file. -/
def ofNodes (rootModule : RootModule) (maxDepth : Nat) (nodes : List Node) : Graph where
  rootModule := rootModule
  maxDepth := maxDepth
  nodes := nodes
  index := (nodes.zipIdx.map fun (node,id) =>
    ({ name := node.name, place := node.path?.map Path.components },id)).reverse

/-- The procedure, at most `depth` calls deep. -/
def descend (services : Services m) : (depth : Nat) → NodeId → Graph → List Path → m Run
  | 0, _, _, loads => return { outcome := .unfinished, loads }
  | depth + 1, id, graph, loads => do
    let node := graph.nodes.getD id default
    let identity := (node.path?.map (·.text)).getD node.name
    let loads := loads ++ node.path?.toList
    match ← loadAndResolve services graph.rootModule id graph.nodes with
    | .error failure => return { outcome := .failed (failure.inModule identity), loads }
    | .ok (nodes,new) =>
      let graph := ofNodes graph.rootModule graph.maxDepth nodes
      if 0 < graph.maxDepth ∧ graph.maxDepth ≤ node.level + 1 then
        return { outcome := .built graph, loads }
      else
        let run ← inOrder (descend services depth) new graph loads
        return { run with outcome := run.outcome.through identity }

def buildRecursively (services : Services m) (depth : Nat) (rootModule : RootModule)
    (maxDepth : Nat) : m Run :=
  let root : Node := { name := rootModule.name, path? := some rootModule.path, strategy := .root, level := 0 }
  descend services depth rootId (ofNodes rootModule maxDepth [root]) []

end Procedure

section Table

variable {rootModule : RootModule} {maxDepth : Nat} {nodes : List Node} {id : Nat} {name : String}

theorem index_ofNodes (rootModule : RootModule) (maxDepth : Nat) (nodes : List Node) :
    (ofNodes rootModule maxDepth nodes).index = enter [] 0 (nodes.map Node.key) := by
  simp only [ofNodes,enter,List.append_nil,List.zipIdx_map]
  rfl

theorem ofNodes_of_index {index : List (Key × NodeId)} (same : index = enter [] 0 (nodes.map Node.key)) :
    ({ rootModule, maxDepth, nodes, index } : Graph) = ofNodes rootModule maxDepth nodes := by
  rw [same,← index_ofNodes rootModule maxDepth]
  rfl

theorem keys_modify {change : Node → Node}
    (same : (change (nodes.getD id default)).key = (nodes.getD id default).key) :
    (nodes.modify id change).map Node.key = nodes.map Node.key := by
  rw [List.modify_eq_set,← List.getD_eq_getElem?_getD]
  exact keys_set same

theorem update_ofNodes {change : Node → Node}
    (same : (change (nodes.getD id default)).key = (nodes.getD id default).key) :
    (ofNodes rootModule maxDepth nodes).update id change =
      ofNodes rootModule maxDepth (nodes.modify id change) := by
  refine ofNodes_of_index ?_
  rw [index_ofNodes]
  exact congrArg (enter [] 0) (keys_modify same).symm

theorem create_ofNodes (item : Module) (level : Nat) :
    ({ ofNodes rootModule maxDepth nodes with
      nodes := nodes ++ [.untouched item level]
      index := (item.key,nodes.length) :: (ofNodes rootModule maxDepth nodes).index } : Graph) =
      ofNodes rootModule maxDepth (nodes ++ [.untouched item level]) := by
  refine ofNodes_of_index ?_
  rw [index_ofNodes,enter,enter,List.map_append,List.zipIdx_append]
  simp

theorem indexed_ofNodes (rootModule : RootModule) (maxDepth : Nat) (distinct : (nodes.map Node.key).Nodup) :
    (ofNodes rootModule maxDepth nodes).Indexed := by
  have empty : Locates [] [] := by
    intro key id
    simp
  have located : Locates (enter [] 0 (nodes.map Node.key)) (nodes.map Node.key) := empty.enter distinct
  unfold Indexed
  rw [index_ofNodes]
  exact located

theorem nodeFor?_eq_lookup? (rootModule : RootModule) (maxDepth : Nat) (distinct : (nodes.map Node.key).Nodup)
    (name : String) (path? : Option Path) :
    nodeFor? nodes name path? = (ofNodes rootModule maxDepth nodes).lookup? name path? := by
  have indexed := indexed_ofNodes rootModule maxDepth distinct
  cases found : (ofNodes rootModule maxDepth nodes).lookup? name path? with
  | none =>
    rw [lookup?_eq_none_iff indexed] at found
    refine List.findIdx?_eq_none_iff.mpr fun node member => decide_eq_false ?_
    rintro ⟨rfl,place⟩
    exact found (List.mem_map.mpr ⟨node,member,congrArg (Key.mk node.name) place⟩)
  | some child =>
    rw [lookup?_eq_some_iff indexed] at found
    have inside : child < nodes.length := lt_size_of_getElem?_keys found
    have key : nodes[child].key = ⟨name,placeOf path?⟩ := by
      rw [getElem?_keys inside,node_eq inside] at found
      exact Option.some.inj found
    refine List.findIdx?_eq_some_iff_getElem.mpr ⟨inside,decide_eq_true ?_,fun earlier sooner same => ?_⟩
    · exact ⟨congrArg Key.name key,congrArg Key.place key⟩
    · have first : earlier < nodes.length := Nat.lt_trans sooner inside
      obtain ⟨named,place⟩ := of_decide_eq_true same
      have again : nodes[earlier].key = nodes[child].key := by
        rw [key,← named]
        exact congrArg (Key.mk _) place
      have equal := eq_of_key_eq indexed.distinct first inside
        (by rw [node_eq first,node_eq inside]; exact again)
      exact absurd equal (Nat.ne_of_lt sooner)

theorem follows_ofNodes_iff (rootModule : RootModule) (maxDepth level : Nat) (nodes : List Node) :
    (ofNodes rootModule maxDepth nodes).follows level = true ↔ ¬ (0 < maxDepth ∧ maxDepth ≤ level + 1) := by
  rw [follows_iff]
  simp only [InDepth,ofNodes]
  omega

theorem link_ofNodes (rootModule : RootModule) (maxDepth : Nat) (id : NodeId) (name : String)
    (resolution : Resolution) (distinct : (nodes.map Node.key).Nodup) :
    (ofNodes rootModule maxDepth nodes).link id name resolution =
      (ofNodes rootModule maxDepth (attach id (moduleFor name resolution) nodes).1,
        (attach id (moduleFor name resolution) nodes).2.head?) := by
  have same := nodeFor?_eq_lookup? rootModule maxDepth distinct name resolution.path?
  unfold attach
  cases found : (ofNodes rootModule maxDepth nodes).lookup? name resolution.path? with
  | some child =>
    rw [found] at same
    rw [link_of_created id (getOrCreate_known (moduleFor name resolution) _ found),found]
    dsimp only [moduleFor]
    rw [same]
    exact congrArg (·,none) (update_ofNodes rfl)
  | none =>
    rw [found] at same
    have created : (ofNodes rootModule maxDepth nodes).getOrCreate (moduleFor name resolution)
        (((ofNodes rootModule maxDepth nodes).node id).level + 1) = (ofNodes rootModule maxDepth
          (nodes ++ [.untouched (moduleFor name resolution) ((nodes.getD id default).level + 1)]),nodes.length) := by
      rw [← create_ofNodes]
      unfold getOrCreate
      rw [show (ofNodes rootModule maxDepth nodes).lookup? (moduleFor name resolution).name
        (moduleFor name resolution).path? = none from found]
      rfl
    rw [link_of_created id created,found]
    dsimp only [moduleFor]
    rw [same]
    exact congrArg (·,some nodes.length) (update_ofNodes rfl)

theorem moduleFor_answer (answer : Resolution) :
    moduleFor name (if answer.strategy = .notFound then .notFound else answer) = leadsTo name answer := by
  unfold moduleFor leadsTo
  split
  · rename_i missing
    rw [missing]
    rfl
  · rfl

theorem attach_new (item : Module) : (attach id item nodes).2.head?.toList = (attach id item nodes).2 := by
  unfold attach
  split <;> rfl

theorem distinct_attach {item : Module} (distinct : (nodes.map Node.key).Nodup) :
    ((attach id item nodes).1.map Node.key).Nodup := by
  unfold attach
  cases found : nodeFor? nodes item.name item.path? with
  | some child =>
    dsimp only
    rwa [keys_modify rfl]
  | none =>
    dsimp only
    rw [keys_modify rfl,List.map_append,List.map_singleton,← List.concat_eq_append]
    refine distinct.concat fun known => ?_
    obtain ⟨node,member,same⟩ := List.mem_map.mp known
    have apart := of_decide_eq_false (List.findIdx?_eq_none_iff.mp found node member)
    exact apart ⟨congrArg Key.name same,congrArg Key.place same⟩

end Table

variable {σ : Type} {services : Services (StateM σ)} {rootModule : RootModule} {maxDepth : Nat}
  {graph : Graph} {id : Nat} {work : List NodeId} {loads : List Path} {nodes : List Node}
  {before after : σ} {depth : Nat} {run : Run}

theorem linkAll_ofNodes (names : List String) (distinct : (nodes.map Node.key).Nodup) :
    (linkAll services id names (ofNodes rootModule maxDepth nodes)).run before =
      match (attachAll services rootModule id names nodes).run before with
      | (.ok (nodes,new),after) => (.ok (ofNodes rootModule maxDepth nodes,new),after)
      | (.error failure,after) => (.error failure,after) := by
  induction names generalizing nodes before with
  | nil => rfl
  | cons name names ih =>
    simp only [linkAll,attachAll,bind_run,resolve_run]
    cases answered : (services.resolve rootModule name).run before with
    | mk answer middle =>
      rw [show (services.resolve (ofNodes rootModule maxDepth nodes).rootModule name).run before =
        (answer,middle) from answered]
      cases answer with
      | error failure => rfl
      | ok answer =>
        have linked := link_ofNodes rootModule maxDepth id name
          (if answer.strategy = .notFound then .notFound else answer) distinct
        rw [moduleFor_answer] at linked
        simp only [bind_run,linked,attach_new,ih (distinct_attach distinct)]
        cases (attachAll services rootModule id names (attach id (leadsTo name answer) nodes).1).run middle with
        | mk rest final => cases rest <;> rfl

theorem manifestNotes_eq_notesOn (manifest? : Option ByteArray) :
    manifestNotes manifest? = notesOn manifest? := by
  unfold manifestNotes notesOn
  cases manifest? with
  | none => rfl
  | some manifest =>
    dsimp only [Option.map_some]
    cases Manifest.ofBytes manifest <;> rfl

theorem load_untouched (item : Module) (level : Nat) :
    (load services (.untouched item level)).run before =
      match (readFile services item.path?).run before with
      | (.ok content,after) => (.ok ((Node.untouched item level).withContent content),after)
      | (.error failure,after) => (.error failure,after) := by
  unfold load Node.untouched
  cases item.path? with
  | none => rfl
  | some path =>
    simp only [readFile,bind_run]
    cases (services.load path).run before with
    | mk answer middle =>
      cases answer with
      | error failure => rfl
      | ok binary =>
        have plain (final : σ) : ((.ok ((Node.untouched item level).withContent
            ⟨binary.imports.map (·.dll) ++ [],[],notesOn binary.manifest?⟩),final) : Result Node × σ) =
            (.ok ((Node.untouched item level).withContent
              ⟨binary.imports.map (·.dll),[],notesOn binary.manifest?⟩),final) := by
          rw [List.append_nil]
        simp only [bind_run,managedPart,importedNames,manifestNotes_eq_notesOn,List.nil_append]
        by_cases recognized : binary.recognized
        · simp only [if_pos recognized,bind_run]
          cases (services.readManaged path).run middle with
          | mk part final =>
            cases part with
            | ok references => rfl
            | error failure =>
              cases failure with
              | notManaged image => exact plain final
              | _ => rfl
        · simp only [if_neg recognized]
          exact plain middle

theorem set_ofNodes {node : Node} (same : node.key = (nodes.getD id default).key) :
    (ofNodes rootModule maxDepth nodes).update id (fun _ => node) =
      ofNodes rootModule maxDepth (nodes.set id node) := by
  rw [update_ofNodes same,List.modify_eq_set]

theorem visit_ofNodes {item : Module} {level : Nat} (distinct : (nodes.map Node.key).Nodup)
    (untouched : nodes.getD id default = .untouched item level) :
    ((ofNodes rootModule maxDepth nodes).visit services id).run before =
      match (loadAndResolve services rootModule id nodes).run before with
      | (.ok (nodes,new),after) => (.ok (ofNodes rootModule maxDepth nodes,
          if 0 < maxDepth ∧ maxDepth ≤ level + 1 then [] else new),after)
      | (.error failure,after) => (.error failure,after) := by
  have node : (ofNodes rootModule maxDepth nodes).node id = .untouched item level := untouched
  have path : (Node.untouched item level).path? = item.path? := rfl
  simp only [visit,loadAndResolve,bind_run,node,untouched,load_untouched,path]
  cases (readFile services item.path?).run before with
  | mk answer middle =>
    cases answer with
    | error failure => rfl
    | ok content =>
      have same : ((Node.untouched item level).withContent content).key = (nodes.getD id default).key := by
        rw [untouched]
        rfl
      have kept : ((nodes.set id ((Node.untouched item level).withContent content)).map Node.key).Nodup := by
        rwa [keys_set same]
      have unresolved : ((Node.untouched item level).withContent content).resolved = false := rfl
      have imports : ((Node.untouched item level).withContent content).imports = content.imports := rfl
      have depth : ((Node.untouched item level).withContent content).level = level := rfl
      simp only [unresolved,imports,depth,Bool.false_eq_true,if_false,bind_run,set_ofNodes same,
        linkAll_ofNodes _ kept]
      cases (attachAll services rootModule id content.imports
          (nodes.set id ((Node.untouched item level).withContent content))).run middle with
      | mk rest final =>
        cases rest with
        | error failure => rfl
        | ok rest =>
          have limit := follows_ofNodes_iff rootModule maxDepth level rest.1
          dsimp only
          rw [update_ofNodes rfl]
          by_cases deep : 0 < maxDepth ∧ maxDepth ≤ level + 1
          · simp only [if_neg (mt limit.mp (not_not.mpr deep)),if_pos deep]
            rfl
          · simp only [if_pos (limit.mpr deep),if_neg deep]
            rfl

theorem identity_eq (item : Module) : item.identity = (item.path?.map (·.text)).getD item.name := by
  unfold Module.identity
  cases item.path? <;> rfl

theorem descend_succ {item : Module} {level : Nat} (distinct : (nodes.map Node.key).Nodup)
    (untouched : nodes.getD id default = .untouched item level) :
    (descend services (depth + 1) id (ofNodes rootModule maxDepth nodes) loads).run before =
      match ((ofNodes rootModule maxDepth nodes).visit services id).run before with
      | (.ok (last,added),middle) =>
        let (run,after) := (inOrder (descend services depth) added last
          (loads ++ item.path?.toList)).run middle
        ({ run with outcome := run.outcome.through item.identity },after)
      | (.error failure,middle) => ({
          outcome := .failed (failure.inModule item.identity)
          loads := loads ++ item.path?.toList },middle) := by
  rw [visit_ofNodes distinct untouched,identity_eq]
  have table : (ofNodes rootModule maxDepth nodes).nodes = nodes := rfl
  have root : (ofNodes rootModule maxDepth nodes).rootModule = rootModule := rfl
  have limit (others : List Node) : (ofNodes rootModule maxDepth others).maxDepth = maxDepth := rfl
  simp only [descend,bind_run,table,root,limit,untouched]
  cases (loadAndResolve services rootModule id nodes).run before with
  | mk answer middle =>
    cases answer with
    | error failure => rfl
    | ok answer =>
      have same : (Node.untouched item level).level = level := rfl
      simp only [same]
      by_cases deep : 0 < maxDepth ∧ maxDepth ≤ level + 1
      · simp only [if_pos deep]
        rfl
      · simp only [if_neg deep]
        rfl

/-- Both end in the same way, and what they build is told by its nodes. -/
structure Agree (rootModule : RootModule) (maxDepth : Nat) (left right : Run × σ) : Prop where
  same : left = right
  table : ∀ last, right.1.outcome = .built last → ∃ nodes, last = ofNodes rootModule maxDepth nodes

private theorem agree_inOrder
    (calls : ∀ {child : NodeId} {work : List NodeId} {nodes : List Node} {loads : List Path} (before : σ),
      Progress services rootModule maxDepth (ofNodes rootModule maxDepth nodes) (child :: work) loads →
      Agree rootModule maxDepth ((descend services depth child (ofNodes rootModule maxDepth nodes) loads).run before)
        ((explore services depth child (ofNodes rootModule maxDepth nodes) loads).run before))
    {ids : List NodeId} (before : σ)
    (progress : Progress services rootModule maxDepth (ofNodes rootModule maxDepth nodes) (ids ++ work) loads) :
    Agree rootModule maxDepth
      ((inOrder (descend services depth) ids (ofNodes rootModule maxDepth nodes) loads).run before)
      ((inOrder (explore services depth) ids (ofNodes rootModule maxDepth nodes) loads).run before) := by
  induction ids generalizing nodes loads before with
  | nil =>
    refine ⟨rfl,?_⟩
    rintro last ⟨⟩
    exact ⟨nodes,rfl⟩
  | cons child ids ih =>
    obtain ⟨same,table⟩ := calls before progress
    simp only [inOrder,bind_run,same]
    cases called : (explore services depth child (ofNodes rootModule maxDepth nodes) loads).run before with
    | mk first middle =>
      rw [called] at table
      cases outcome : first.outcome with
      | built last =>
        obtain ⟨others,rfl⟩ := table last outcome
        obtain ⟨-,next⟩ := Progress.call progress called outcome
        exact ih middle next
      | failed failure => exact ⟨rfl,fun _ built => table _ built⟩
      | unfinished => exact ⟨rfl,fun _ built => table _ built⟩

theorem descend_agrees (before : σ)
    (progress : Progress services rootModule maxDepth (ofNodes rootModule maxDepth nodes) (id :: work) loads) :
    Agree rootModule maxDepth ((descend services depth id (ofNodes rootModule maxDepth nodes) loads).run before)
      ((explore services depth id (ofNodes rootModule maxDepth nodes) loads).run before) := by
  induction depth generalizing id work nodes loads before with
  | zero => exact ⟨rfl,fun _ built => by cases built⟩
  | succ depth ih =>
    obtain ⟨inside,unresolved,-⟩ := progress.mem_head
    have untouched := progress.untouched id inside unresolved
    have fresh : nodes.getD id default = .untouched _ _ := untouched
    have distinct : (nodes.map Node.key).Nodup := progress.distinct
    rw [descend_succ distinct fresh,explore_succ]
    cases visited : ((ofNodes rootModule maxDepth nodes).visit services id).run before with
    | mk answer middle =>
      cases answer with
      | error failure => exact ⟨rfl,fun _ built => absurd built (Outcome.not_built _)⟩
      | ok answer =>
        obtain ⟨last,added⟩ := answer
        have next := progress.visit visited
        have plain : ∃ others, last = ofNodes rootModule maxDepth others := by
          rw [visit_ofNodes distinct fresh] at visited
          split at visited
          · cases visited
            exact ⟨_,rfl⟩
          · cases visited
        obtain ⟨others,rfl⟩ := plain
        obtain ⟨same,table⟩ := agree_inOrder ih middle next
        refine ⟨?_,fun larger built => table larger (through_built.mp built)⟩
        exact congrArg (fun below : Run × σ => (Run.mk (below.1.outcome.through _) below.1.loads,below.2)) same

theorem buildRecursively_run :
    (buildRecursively services depth rootModule maxDepth).run before =
      (explore services depth rootId (ofRoot rootModule maxDepth) []).run before :=
  have root : Progress services rootModule maxDepth (ofRoot rootModule maxDepth) [rootId] [] := progress_ofRoot
  (descend_agrees before root).same

end LoadMap.Graph
