import LoadMap.Proofs.Graph.Linking

/-! Visiting a node with services that may keep a state of their own. A visit changes nothing but the
node itself and what it puts behind the table, and it fails only where a service does. -/
namespace LoadMap.Graph

variable {σ : Type} {services : Services (StateM σ)} {graph : Graph} {id : Nat} {before after : σ}

theorem bind_run {α β : Type} {work : StateM σ α} {next : α → StateM σ β} :
    (work >>= next).run before = (next (work.run before).1).run (work.run before).2 := rfl

/-- An answer that the services may give when a name is searched for a root. -/
def Answers (services : Services (StateM σ)) (rootModule : RootModule) (name : String)
    (resolution : Resolution) : Prop :=
  ∃ (graph : Graph) (before after : σ), graph.rootModule = rootModule ∧
    (graph.resolve services name).run before = (.ok resolution,after)

def Refuses (services : Services (StateM σ)) (rootModule : RootModule) (name : String)
    (failure : Failure) : Prop :=
  ∃ (graph : Graph) (before after : σ), graph.rootModule = rootModule ∧
    (graph.resolve services name).run before = (.error failure,after)

/-- Names are resolved one after another without a failure. -/
inductive Resolves (services : Services (StateM σ)) (rootModule : RootModule) :
    List String → σ → σ → Prop
  | nil {state : σ} : Resolves services rootModule [] state state
  | cons {name : String} {names : List String} {resolution : Resolution} {before middle after : σ}
      (answer : (services.resolve rootModule name).run before = (.ok resolution,middle))
      (rest : Resolves services rootModule names middle after) :
      Resolves services rootModule (name :: names) before after

theorem resolve_run (name : String) :
    (graph.resolve services name).run before =
      match (services.resolve graph.rootModule name).run before with
      | (.ok resolution,after) =>
        (.ok (if resolution.strategy = .notFound then .notFound else resolution),after)
      | (.error failure,after) => (.error failure,after) := by
  simp only [resolve,bind_run]
  cases (services.resolve graph.rootModule name).run before with
  | mk answer middle => cases answer <;> rfl

theorem refuses_of_error {rootModule : RootModule} {name : String} {failure : Failure}
    (refused : (services.resolve rootModule name).run before = (.error failure,after)) :
    Refuses services rootModule name failure := by
  refine ⟨ofRoot rootModule 0,before,after,rfl,?_⟩
  rw [resolve_run,ofRoot,refused]

theorem load_ok {node loaded : Node}
    (loading : (load services node).run before = (.ok loaded,after)) :
    ∃ imports assemblies diagnostics, loaded = { node with imports, assemblies, diagnostics } := by
  unfold load at loading
  cases place : node.path? with
  | none =>
    rw [place] at loading
    cases loading
    exact ⟨_,_,_,rfl⟩
  | some path =>
    simp only [place,bind_run] at loading
    split at loading
    · cases loading
    · rw [bind_run] at loading
      split at loading
      · cases loading
      · cases loading
        exact ⟨_,_,_,rfl⟩

theorem linkAll_ok {names done : List String} {node : Node} {more : List Node} {last : Graph}
    {added : List NodeId}
    (linked : (linkAll services id names (graph.put id node more)).run before = (.ok (last,added),after))
    (linking : Linking (Answers services graph.rootModule) graph id done node more)
    (inside : id < graph.size) (indexed : graph.Indexed) (same : node.key = (graph.node id).key) :
    ∃ children dependencies newer,
      last = graph.put id (node.withEdges children dependencies) (more ++ newer) ∧
      added = List.range' (graph.size + more.length) newer.length ∧
      Linking (Answers services graph.rootModule) graph id (done ++ names)
        (node.withEdges children dependencies) (more ++ newer) := by
  induction names generalizing done node more added before with
  | nil =>
    cases linked
    refine ⟨node.children,node.dependencies,[],by rw [List.append_nil]; rfl,rfl,?_⟩
    rw [List.append_nil,List.append_nil]
    exact linking
  | cons name names ih =>
    simp only [linkAll,bind_run] at linked
    cases answered : ((graph.put id node more).resolve services name).run before with
    | mk answer middle =>
      rw [answered] at linked
      cases answer with
      | error failure => cases linked
      | ok resolution =>
        have answer : Answers services graph.rootModule name resolution :=
          ⟨_,before,middle,rootModule_put,answered⟩
        obtain ⟨children,dependencies,newer,table,new,next⟩ := linking.step inside indexed same answer
        simp only [bind_run,table] at linked
        cases ran : (linkAll services id names (graph.put id (node.withEdges children dependencies)
            (more ++ newer))).run middle with
        | mk rest final =>
          rw [ran] at linked
          cases rest with
          | error failure => cases linked
          | ok rest =>
            cases linked
            obtain ⟨others,links,newest,table,range,done⟩ := ih ran next same
            refine ⟨others,links,newer ++ newest,?_,?_,?_⟩
            · rw [table,Node.withEdges_withEdges,List.append_assoc]
            · rw [new,range,List.length_append,List.length_append,← Nat.add_assoc,
                List.range'_append_1]
            · simpa only [Node.withEdges_withEdges,List.append_assoc,List.singleton_append] using done

theorem linkAll_error {names : List String} {failure : Failure}
    (linked : (linkAll services id names graph).run before = (.error failure,after)) :
    ∃ done name rest middle, names = done ++ name :: rest ∧
      Resolves services graph.rootModule done before middle ∧
      (services.resolve graph.rootModule name).run middle = (.error failure,after) := by
  induction names generalizing graph before with
  | nil => cases linked
  | cons name names ih =>
    simp only [linkAll,bind_run,resolve_run] at linked
    cases answered : (services.resolve graph.rootModule name).run before with
    | mk answer middle =>
      rw [answered] at linked
      cases answer with
      | error failure =>
        cases linked
        exact ⟨[],name,names,before,rfl,.nil,answered⟩
      | ok resolution =>
        simp only [bind_run] at linked
        cases ran : (linkAll services id names
            (graph.link id name (if resolution.strategy = .notFound then .notFound else resolution)).1).run
            middle with
        | mk others final =>
          rw [ran] at linked
          cases others with
          | ok others => cases linked
          | error failure =>
            cases linked
            obtain ⟨done,other,rest,start,rfl,resolved,refused⟩ := ih ran
            rw [rootModule_link] at resolved refused
            exact ⟨name :: done,other,rest,start,rfl,.cons answered resolved,refused⟩

/-- What a visit makes of a node, and the modules that it meets first. -/
structure Visited (services : Services (StateM σ)) (graph : Graph) (id : Nat) (visited : Node)
    (more : List Node) : Prop where
  content : ∃ (loaded : Node) (before after : σ) (children dependencies : List NodeId),
    (load services (graph.node id)).run before = (.ok loaded,after) ∧
    visited = { loaded.withEdges children dependencies with resolved := true }
  linking : Linking (Answers services graph.rootModule) graph id visited.imports visited more

variable {visited : Node} {more : List Node}

theorem Visited.toModule (visit : Visited services graph id visited more) :
    visited.toModule = (graph.node id).toModule := by
  obtain ⟨loaded,_,_,_,_,loading,rfl⟩ := visit.content
  obtain ⟨_,_,_,rfl⟩ := load_ok loading
  rfl

theorem Visited.level (visit : Visited services graph id visited more) :
    visited.level = (graph.node id).level := by
  obtain ⟨loaded,_,_,_,_,loading,rfl⟩ := visit.content
  obtain ⟨_,_,_,rfl⟩ := load_ok loading
  rfl

theorem Visited.resolved (visit : Visited services graph id visited more) :
    visited.resolved = true := by
  obtain ⟨loaded,_,_,_,_,-,rfl⟩ := visit.content
  rfl

theorem Visited.key (visit : Visited services graph id visited more) :
    visited.key = (graph.node id).key := by
  rw [← Node.key_toModule,visit.toModule,Node.key_toModule]

theorem Visited.keys (visit : Visited services graph id visited more) :
    (graph.put id visited more).keys = graph.keys ++ more.map Node.key :=
  keys_put visit.key

theorem visit_ok {item : Module} {level : Nat} {last : Graph} {added : List NodeId}
    (visiting : (visit services graph id).run before = (.ok (last,added),after))
    (inside : id < graph.size) (indexed : graph.Indexed)
    (fresh : graph.node id = .untouched item level) :
    ∃ visited more, Visited services graph id visited more ∧ last = graph.put id visited more ∧
      added = if graph.follows level then List.range' graph.size more.length else [] := by
  simp only [visit,bind_run] at visiting
  cases loading : (load services (graph.node id)).run before with
  | mk answer middle =>
    rw [loading] at visiting
    cases answer with
    | error failure => cases visiting
    | ok loaded =>
      obtain ⟨imports,assemblies,diagnostics,content⟩ := load_ok loading
      have unresolved : loaded.resolved = false := by rw [content,fresh]; rfl
      have same : loaded.key = (graph.node id).key := by rw [content]; rfl
      have start : Linking (Answers services graph.rootModule) graph id [] loaded [] := by
        have none : loaded.dependencies = [] := by rw [content,fresh]; rfl
        have childless : loaded.children = [] := by rw [content,fresh]; rfl
        refine ⟨?_,?_,?_,by simp,by simp⟩
        · rw [keys_put same,List.map_nil,List.append_nil]
          exact indexed.distinct
        · rw [none]
          exact .nil
        · rw [childless]
          rfl
      simp only [unresolved,Bool.false_eq_true,if_false,bind_run,update_eq_put inside] at visiting
      cases ran : (linkAll services id loaded.imports (graph.put id loaded [])).run middle with
      | mk rest final =>
        rw [ran] at visiting
        cases rest with
        | error failure => cases visiting
        | ok rest =>
          obtain ⟨children,dependencies,more,table,range,linking⟩ := linkAll_ok ran start inside indexed same
          have within : id < rest.1.size := by rw [table,size_put]; omega
          have level : loaded.level = level := by rw [content,fresh]; rfl
          simp only [update_eq_put within,level] at visiting
          simp only [table,node_put_self inside,put_put inside] at visiting
          cases visiting
          exact ⟨{ loaded.withEdges children dependencies with resolved := true },more,
            ⟨⟨loaded,before,middle,children,dependencies,loading,rfl⟩,linking.resolved⟩,
            by rw [List.nil_append,List.append_nil],by rw [range]; rfl⟩

/-- A visit fails where the module cannot be loaded or one of its imports cannot be resolved. -/
theorem visit_error {failure : Failure}
    (visiting : (visit services graph id).run before = (.error failure,after)) :
    (load services (graph.node id)).run before = (.error failure,after) ∨
    ∃ loaded middle, (load services (graph.node id)).run before = (.ok loaded,middle) ∧
      ∃ done name rest start, loaded.imports = done ++ name :: rest ∧
        Resolves services graph.rootModule done middle start ∧
        (services.resolve graph.rootModule name).run start = (.error failure,after) := by
  simp only [visit,bind_run] at visiting
  cases loading : (load services (graph.node id)).run before with
  | mk answer middle =>
    rw [loading] at visiting
    cases answer with
    | error failure =>
      cases visiting
      exact .inl rfl
    | ok loaded =>
      refine .inr ⟨loaded,middle,rfl,?_⟩
      by_cases resolved : loaded.resolved
      · simp only [resolved,if_true] at visiting
        cases visiting
      · simp only [resolved,Bool.false_eq_true,if_false,bind_run] at visiting
        cases ran : (linkAll services id loaded.imports (graph.update id fun _ => loaded)).run middle with
        | mk rest final =>
          rw [ran] at visiting
          cases rest with
          | ok rest => cases visiting
          | error failure =>
            cases visiting
            have stopped := linkAll_error ran
            exact stopped

end LoadMap.Graph
