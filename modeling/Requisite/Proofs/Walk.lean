import Requisite.Proofs.Follow
import Requisite.Proofs.Traversal

/-!
# The walk of a tree follows its outline

The walk of a tree enters and leaves its nodes one by one, and the outline of the tree is made by
recursion. Both do the same to the metrics and to the scopes. So the metrics of a run are a function
of the outlines of its trees: `metrics_analyzeAll`.
-/
namespace Requisite

namespace Analyzer

open Code (ConstItem Event Expr Name Node NodeKind Param Span Tree)

/-- From `s` to `t` an outline is carried out, with the given memory at the end. -/
structure Follows (s : State) (o : Outline × Memory) (t : State) : Prop where
  bare : t.bare = (s.follow o.1).bare
  memory : t.memory = o.2

namespace Follows

theorem refl (s : State) : Follows s (.nothing, s.memory) s := ⟨rfl, rfl⟩

theorem seq {s t u : State} {first second : Outline} {m m' : Memory}
    (hst : Follows s (first, m) t) (htu : Follows t (second, m') u) :
    Follows s (.seq first second, m') u := by
  refine ⟨?_, htu.memory⟩
  rw [htu.bare, State.bare_follow, hst.bare, ← State.bare_follow]
  rfl

theorem append {s t u : State} {first second : List Action} {m m' : Memory}
    (hst : Follows s (.ofList first, m) t) (htu : Follows t (.ofList second, m') u) :
    Follows s (.ofList (first ++ second), m') u := by
  refine ⟨?_, htu.memory⟩
  have h := (hst.seq htu).bare
  rw [h, State.follow, State.follow_ofList, State.follow_ofList, State.follow_ofList,
    List.foldl_append]

end Follows

namespace State

/-! ### Lookups -/

/-- A lookup answers from the memory, and changes nothing else. -/
theorem remember_eq {env : Env} {s : State} {key : LookupKey} {fresh : Range}
    {compute : State → Range × State} (range : (compute s).1 = fresh)
    (bare : (compute s).2.bare = s.bare) (memory : (compute s).2.memory = s.memory) :
    (s.remember env key compute).1 = (s.memory.learn env key fresh).1
      ∧ (s.remember env key compute).2.bare = s.bare
      ∧ (s.remember env key compute).2.memory = (s.memory.learn env key fresh).2 := by
  have cache : (compute s).2.cache = s.cache := congrArg Memory.cache memory
  have here : s.memory.cache = s.cache := rfl
  unfold remember Memory.learn
  rw [here]
  split
  · cases s.cache.lookup key with
    | some found => exact ⟨rfl, rfl, rfl⟩
    | none =>
      have stored : ∀ (t : State) entries,
          ({ t with cache := entries } : State).memory = { t.memory with cache := entries } :=
        fun _ _ => rfl
      refine ⟨range, bare, (stored (compute s).2 _).trans ?_⟩
      rw [memory, cache, range]
  · exact ⟨range, bare, memory⟩

theorem lookup_eq (env : Env) (s : State) (node : UInt32) (category : Category) (name : String)
    (argCount : Option Nat) :
    let learned := s.memory.learn env ⟨node, category, name⟩ (env.find category name argCount)
    (s.lookup env node category name argCount).1 = learned.1
      ∧ (s.lookup env node category name argCount).2.bare = s.bare
      ∧ (s.lookup env node category name argCount).2.memory = learned.2 :=
  remember_eq rfl rfl rfl

/-- The memory is changed by assignments only. -/
theorem memory_recordReference (s : State) (category : Category) (name : String) (range : Range) :
    (s.recordReference category name range).memory = s.memory := by
  have scopes := scopes_recordReference s category name range
  have rest : (s.recordReference category name range).source = s.source
      ∧ (s.recordReference category name range).cache = s.cache := by
    unfold recordReference
    cases range.isUser <;> cases h : s.scopes.ownsLocals <;>
      simp [h, count, use, update, modifyElements, mergeIntoCurrent]
  unfold memory
  rw [rest.1, rest.2, scopes]
  split
  · unfold Scopes.accumulate
    rw [Scopes.current_modifyLocals, Scopes.locals_modifyLocals]
  · rfl

/-- The memory after an action. -/
theorem memory_perform (s : State) (action : Action) :
    (s.perform action).memory = s.memory.afterAction action := by
  cases action with
  | construct c =>
    change (s.apply c).memory = s.memory
    unfold apply
    split <;> rfl
  | parameter variadic =>
    cases variadic with
    | false => rfl
    | true =>
      change State.memory { s with scopes := s.scopes.accumulate _ } = _
      unfold memory Scopes.accumulate
      dsimp only
      rw [Scopes.current_modifyLocals, Scopes.locals_modifyLocals]
      rfl
  | assign target value =>
    change State.memory { s with scopes := s.scopes.recordAssignment target value } = _
    unfold memory Scopes.recordAssignment
    dsimp only
    rw [Scopes.current_modifyLocals, Scopes.locals_modifyLocals]
    rfl
  | reference category name range => exact memory_recordReference s category name range
  | hint | guard | dynamicGuard | define => rfl

/-! ### Nodes that open no scope -/

theorem follows_perform (s : State) (action : Action) :
    Follows s (.ofList [action], s.memory.afterAction action) (s.perform action) :=
  ⟨rfl, memory_perform s action⟩

/-- Recording a reference that was looked up performs the action of the reference. -/
theorem follows_recordReference {s t : State} {m : Memory} (bare : t.bare = s.bare)
    (memory : t.memory = m) (category : Category) (name : String) (range : Range) :
    Follows s (.ofList [.reference category name range], m)
      (t.recordReference category name range) := by
  constructor
  · change _ = (s.recordReference category name range).bare
    rw [bare_recordReference, bare, ← bare_recordReference]
  · rw [memory_recordReference, memory]

theorem follows_resolveReference (env : Env) (s : State) (node : UInt32) (category : Category)
    (name : String) (argCount : Option Nat) :
    Follows s (.ofList (s.memory.refer env node category name argCount).1,
        (s.memory.refer env node category name argCount).2)
      (s.resolveReference env node category name argCount) := by
  obtain ⟨range, bare, memory⟩ :=
    lookup_eq env s node category name argCount
  have resolve : s.resolveReference env node category name argCount
      = (s.lookup env node category name argCount).2.recordReference category name
        (s.lookup env node category name argCount).1 := rfl
  rw [resolve, range]
  exact follows_recordReference bare memory category name _

theorem follows_registerGuard (env : Env) (s : State) (node : UInt32) (guard : Guard)
    (args : List Expr) :
    Follows s (.ofList (s.memory.ask env node guard args).1, (s.memory.ask env node guard args).2)
      (s.registerGuard env node guard args) := by
  unfold Memory.ask registerGuard
  cases firstLiteral? args with
  | none => exact ⟨rfl, rfl⟩
  | some element =>
    obtain ⟨range, bare, memory⟩ := lookup_eq env s node guard.category element none
    dsimp only
    constructor
    · change (perform _ (.guard guard element _)).bare = (perform s (.guard guard element _)).bare
      rw [bare_perform, bare, range, ← bare_perform]
    · exact memory

theorem follows_registerDefine (s : State) (args : List Expr) :
    Follows s (.ofList ((firstLiteral? args).toList.map .define), s.memory)
      (s.registerDefine args) := by
  unfold registerDefine
  cases firstLiteral? args with
  | none => exact ⟨rfl, rfl⟩
  | some constant => exact ⟨rfl, rfl⟩

theorem follows_leaveCall (env : Env) (s : State) (node : UInt32) (name : Name)
    (args : List Expr) :
    let (reference, m) := s.memory.refer env node .functions name.toString (some args.length)
    let (rest, m) := m.inspect env node name.toString args
    Follows s (.ofList (reference ++ rest), m) (s.leaveCall env node (some name) args) := by
  have first := follows_resolveReference env s node .functions name.toString (some args.length)
  have memory := first.memory
  dsimp only at memory ⊢
  refine first.append ?_
  rw [← memory]
  unfold Memory.inspect leaveCall
  dsimp only
  split
  · exact follows_registerDefine _ args
  · cases Guard.ofFunction? name.toString with
    | none => exact ⟨rfl, rfl⟩
    | some guard => exact follows_registerGuard env _ node guard args

theorem follows_leaveMethodCall (env : Env) (s : State) (node : UInt32) (receiver : Expr)
    (method : String) (argCount : Nat) :
    let o := match s.memory.aliases.resolve? receiver with
      | none => ([], s.memory)
      | some className =>
        s.memory.refer env node .methods (className ++ "::" ++ method) (some argCount)
    Follows s (.ofList o.1, o.2)
      (s.leaveMethodCall env node receiver (some method) argCount) := by
  have here : s.memory.aliases = s.scopes.locals.aliases := rfl
  unfold leaveMethodCall
  rw [here]
  cases s.scopes.locals.aliases.resolve? receiver with
  | none => exact ⟨rfl, rfl⟩
  | some className => exact follows_resolveReference ..

theorem follows_leaveConstants (env : Env) (s : State) (items : List ConstItem) :
    Follows s (.ofList (s.memory.constants env items).1, (s.memory.constants env items).2)
      (s.leaveConstants env items) := by
  induction items generalizing s with
  | nil => exact ⟨rfl, rfl⟩
  | cons item rest ih =>
    let key : LookupKey := ⟨item.id, .constants, item.name⟩
    let fresh := (Construct.constDecl item.value.isScalar).contribution
    let stored := s.remember env key fun s => (fresh, s)
    let learned := s.memory.learn env key fresh
    obtain ⟨range, bare, memory⟩ : stored.1 = learned.1 ∧ stored.2.bare = s.bare
        ∧ stored.2.memory = learned.2 := remember_eq rfl rfl rfl
    have first : Follows s (.ofList [.reference .constants item.name learned.1], learned.2)
        (stored.2.recordReference .constants item.name stored.1) := by
      rw [range]
      exact follows_recordReference bare memory .constants item.name learned.1
    have second := ih (stored.2.recordReference .constants item.name stored.1)
    rw [first.memory] at second
    exact first.append second

theorem follows_enterParam (s : State) (param : Param) :
    Follows s (.ofList (s.memory.entering (.param param)).1, s.memory) (s.enterParam param) := by
  obtain ⟨name, variadic, byRef, typeHint, hasDefault⟩ := param
  have first := follows_perform s (.parameter variadic)
  cases typeHint with
  | none => exact first
  | some hint =>
    unfold Memory.entering enterParam
    dsimp only
    by_cases full : hint.isFullyQualified
    · have second := follows_perform (s.perform (.parameter variadic)) (.hint hint.toString)
      rw [first.memory] at second
      rw [if_pos full, Option.toList_some, List.filter_cons_of_pos full]
      exact first.append second
    · rw [if_neg full, Option.toList_some, List.filter_cons_of_neg full]
      exact first

/-- What is done on entering a node that opens no scope. -/
theorem follows_enter (env : Env) (s : State) (node : Node) (plain : node.kind.isScope = false) :
    Follows s (.ofList (s.memory.entering node.kind).1, (s.memory.entering node.kind).2)
      (s.enter env node) := by
  obtain ⟨id, kind, span, children⟩ := node
  -- Only the counter of nodes is ahead of what the action does.
  have counted : ∀ {o t f}, Follows (s.count f) o t → Follows s o t := fun h =>
    ⟨h.bare.trans (by rw [bare_follow, bare_follow s]; rfl), h.memory⟩
  cases kind with
  | namespaceDecl | classDecl | interfaceDecl | traitDecl | functionDecl | methodDecl
  | closure => cases plain
  | param param => exact counted (follows_enterParam _ param)
  | assign target value => exact counted (follows_perform _ (.assign target value))
  | new | call | methodCall | constFetch | magicConst | constDecl | useImport | arrayLiteral
  | dimFetch | pow | other => exact ⟨rfl, rfl⟩

/-- What is done on leaving a node that opens no scope. -/
theorem follows_leave (env : Env) (s : State) (node : Node)
    (plain : node.kind.isScope = false) :
    Follows s (.ofList (s.memory.leaving env node.id node.span node.kind).1,
      (s.memory.leaving env node.id node.span node.kind).2) (s.leave env node) := by
  obtain ⟨id, kind, span, children⟩ := node
  cases kind with
  | namespaceDecl | classDecl | interfaceDecl | traitDecl | functionDecl | methodDecl
  | closure => cases plain
  | param | assign | other => exact ⟨rfl, rfl⟩
  | new className argCount =>
    cases className with
    | none => exact ⟨rfl, rfl⟩
    | some className => exact follows_resolveReference ..
  | call name args =>
    cases name with
    | none => exact ⟨rfl, rfl⟩
    | some name => exact follows_leaveCall env s id name args
  | methodCall receiver name argCount =>
    cases name with
    | none => exact ⟨rfl, rfl⟩
    | some method => exact follows_leaveMethodCall env s id receiver method argCount.toNat
  | constFetch name => exact follows_resolveReference ..
  | magicConst name => exact follows_resolveReference ..
  | constDecl items => exact follows_leaveConstants env s items
  | useImport kind => exact follows_perform s (.construct _)
  | arrayLiteral => exact follows_perform s (.construct _)
  | dimFetch base => exact follows_perform s (.construct _)
  | pow => exact follows_perform s (.construct _)

/-! ### Nodes that open a scope -/

/-- Interfaces are used one after the other, and each of them raises the range. -/
theorem inheritInterfaces_eq (env : Env) (s : State) (range : Range) (interfaces : List Name) :
    let heads := interfaces.map (Declaration.interfaceHead env)
    let inherited := s.inheritInterfaces env range interfaces
    inherited.1 = heads.foldl (fun range head => range.merge head.2.runtimeBounds) range
      ∧ inherited.2.bare = (heads.foldl (fun s head => s.use head.1.1 head.1.2 head.2) s).bare
      ∧ inherited.2.memory = s.memory := by
  induction interfaces generalizing s range with
  | nil => exact ⟨rfl, rfl, rfl⟩
  | cons interface rest ih =>
    let head := Declaration.interfaceHead env interface
    let noted := (s.consult env .interfaces interface.toString none).2
    obtain ⟨raised, bare, memory⟩ :=
      ih (noted.use .interfaces interface.toString head.2) (range.merge head.2.runtimeBounds)
    refine ⟨raised, bare.trans ?_, memory⟩
    rw [List.map_cons, List.foldl_cons, bare_foldl_use, bare_foldl_use _ (s.use _ _ _)]
    rfl

theorem memory_enterScope (s : State) (category : Category) (name : String) (range : Range) :
    (s.enterScope category name range).memory
      = { s.memory with
          owner := name
          aliases := if Frame.keepsLocals category then {} else s.memory.aliases } := by
  have locals := Scopes.locals_push s.scopes category name
  have aliases : (s.enterScope category name range).memory.aliases
      = (s.scopes.push category name).locals.aliases := rfl
  rw [locals] at aliases
  cases h : Frame.keepsLocals category <;> rw [h] at aliases <;>
    exact congrArg (Memory.mk name s.source · s.cache) aliases

/-- A scope is opened as its declaration says, once the head has been used. -/
theorem enterScope_declaration {s t : State} {d : Declaration} {range : Range}
    (raised : range = d.range)
    (bare : t.bare = (d.heads.foldl (fun s head => s.use head.1.1 head.1.2 head.2) s).bare)
    (memory : t.memory = s.memory) :
    (t.enterScope d.category d.name range).bare = (s.declare d).bare
      ∧ (t.enterScope d.category d.name range).memory = s.memory.inside d := by
  constructor
  · rw [bare_enterScope, bare, raised, ← bare_enterScope]
    rfl
  · rw [memory_enterScope, memory]
    rfl

/-- What is done on entering a node that opens a scope. -/
theorem enter_declaration (env : Env) (s : State) (node : Node) {d : Declaration}
    (h : Declaration.ofKind? env s.memory.owner node.span node.kind = some d) :
    (s.enter env node).bare = (s.declare d).bare
      ∧ (s.enter env node).memory = s.memory.inside d := by
  obtain ⟨id, kind, span, children⟩ := node
  let counted := s.count fun stats => { stats with nodesVisited := stats.nodesVisited + 1 }
  cases kind with
  | namespaceDecl name =>
    cases name <;> cases h <;> exact ⟨rfl, memory_enterScope ..⟩
  | classDecl name modifiers parent interfaces =>
    obtain rfl := Option.some.inj h
    let own := (Construct.ofClass name modifiers).contribution
    cases parent with
    | none =>
      obtain ⟨raised, bare, memory⟩ := inheritInterfaces_eq env counted own interfaces
      refine enterScope_declaration (s := s) (d := .ofConstruct _ _ _ _ rfl) raised
        (bare.trans ?_) memory
      rw [bare_foldl_use, bare_foldl_use _ s]
      rfl
    | some parent =>
      let head := Declaration.parentHead parent
      obtain ⟨raised, bare, memory⟩ := inheritInterfaces_eq env
        (counted.use .classes parent.toString head.2) (own.merge head.2) interfaces
      refine enterScope_declaration (s := s) (d := .ofConstruct _ _ _ _ rfl) raised
        (bare.trans ?_) memory
      rw [bare_foldl_use, bare_foldl_use _ s]
      rfl
  | interfaceDecl name parents =>
    obtain rfl := Option.some.inj h
    obtain ⟨raised, bare, memory⟩ := inheritInterfaces_eq env counted
      (Construct.interfaceDecl name.isQualified).contribution parents
    refine enterScope_declaration (s := s) (d := .ofConstruct _ _ _ _ rfl) raised
        (bare.trans ?_) memory
    rw [bare_foldl_use, bare_foldl_use _ s]
    rfl
  | traitDecl | functionDecl | methodDecl | closure =>
    cases h
    exact ⟨rfl, memory_enterScope ..⟩
  | param | assign | new | call | methodCall | constFetch | magicConst | constDecl | useImport
  | arrayLiteral | dimFetch | pow | other => cases h

theorem leave_declaration (env : Env) (s : State) (node : Node) {owner : String} {d : Declaration}
    (h : Declaration.ofKind? env owner node.span node.kind = some d) :
    s.leave env node = s.leaveScope := by
  obtain ⟨id, kind, span, children⟩ := node
  cases kind with
  | namespaceDecl | classDecl | interfaceDecl | traitDecl | functionDecl | methodDecl | closure =>
    rfl
  | param | assign | new | call | methodCall | constFetch | magicConst | constDecl | useImport
  | arrayLiteral | dimFetch | pow | other => cases h

theorem rest_leaveScope (s : State) :
    s.leaveScope.source = s.source ∧ s.leaveScope.cache = s.cache := by
  unfold leaveScope
  split
  · exact ⟨rfl, rfl⟩
  · rename_i frame scopes _
    cases frame.locals <;> dsimp only <;> split <;> (try split) <;> exact ⟨rfl, rfl⟩

/-- What is done inside a scope is done around it once the scope is left. -/
theorem follows_leaveScope {s t u : State} {d : Declaration} {body : Outline} {last : Memory}
    (bare : t.bare = (s.declare d).bare) (inner : Follows t (body, last) u) :
    Follows s (.scope d body, s.memory.after d last) u.leaveScope := by
  have inside : u.bare = ((s.declare d).follow body).bare := by
    rw [inner.bare, bare_follow, bare, ← bare_follow]
  obtain ⟨f, hf⟩ := scopes_follow (s.declare d) body
  have scopes : u.scopes = (s.declare d).scopes.modifyLocals f :=
    (congrArg State.scopes inside).trans hf
  have left := scopes_leave_declare scopes
  refine ⟨by rw [bare_leaveScope, inside, ← bare_leaveScope]; rfl, ?_⟩
  obtain ⟨source, cache⟩ := rest_leaveScope u
  obtain rfl : u.memory = last := inner.memory
  have owner : u.leaveScope.scopes.current = s.scopes.current := by
    rw [left]
    split
    · rfl
    · rw [Scopes.current_modifyLocals]
  have aliases : u.leaveScope.scopes.locals.aliases
      = if d.keepsLocals then s.scopes.locals.aliases else u.scopes.locals.aliases := by
    rw [left, scopes, scopes_declare]
    split
    · rfl
    · rename_i shares
      rw [Scopes.locals_modifyLocals, Scopes.locals_modifyLocals, Scopes.locals_push]
      exact congrArg (fun locals => (f locals).aliases) (if_neg shares).symm
  unfold Memory.after State.memory
  rw [source, cache, owner, aliases]

end State

mutual

/-- The walk of a node follows its outline. -/
theorem follows_node (env : Env) (s : State) :
    (node : Node) →
      Follows s (outlineNode env s.memory node) ((Event.ofNode node).foldl (step env) s)
  | ⟨id, kind, span, children⟩ => by
    rw [Event.ofNode, List.foldl_cons, List.foldl_append, outlineNode]
    rcases h : Declaration.ofKind? env s.memory.owner span kind with _ | d
    · have plain := Declaration.ofKind?_eq_none_iff.1 h
      have entered := s.follows_enter env ⟨id, kind, span, children⟩ plain
      have inner := follows_forest env (s.enter env ⟨id, kind, span, children⟩) children
      have left := State.follows_leave env
        ((Event.ofForest children).foldl (step env) (s.enter env ⟨id, kind, span, children⟩))
        ⟨id, kind, span, children⟩ plain
      rw [entered.memory] at inner
      rw [inner.memory] at left
      exact entered.seq (inner.seq left)
    · obtain ⟨bare, memory⟩ := State.enter_declaration env s ⟨id, kind, span, children⟩ h
      have inner := follows_forest env (s.enter env ⟨id, kind, span, children⟩) children
      rw [memory] at inner
      have leave : ∀ t : State, t.leave env ⟨id, kind, span, children⟩ = t.leaveScope := fun t =>
        State.leave_declaration env t ⟨id, kind, span, children⟩ h
      have scope := State.follows_leaveScope bare inner
      rw [← leave] at scope
      exact scope

/-- The walk of a forest follows its outline. -/
theorem follows_forest (env : Env) (s : State) :
    (nodes : List Node) →
      Follows s (outlineForest env s.memory nodes) ((Event.ofForest nodes).foldl (step env) s)
  | [] => .refl s
  | node :: rest => by
    have first := follows_node env s node
    have second := follows_forest env ((Event.ofNode node).foldl (step env) s) rest
    rw [first.memory] at second
    rw [Event.ofForest, List.foldl_append, outlineForest]
    exact first.seq second

end

/-! ### Files -/

/-- The metrics after a file with a given outline. -/
def afterFile (m : Metrics) (o : Outline) : Metrics :=
  (((State.beginFile { metrics := m } { path := "" }).follow o).endFile).metrics

theorem metrics_analyze (env : Env) (s : State) (tree : Tree) :
    (analyze env s tree).metrics = afterFile s.metrics (outline env tree) := by
  have walked := follows_forest env (s.beginFile tree) tree.nodes
  have begun : (s.beginFile tree).bare
      = (State.beginFile { metrics := s.metrics } { path := "" }).bare := rfl
  rw [analyze, Tree.events, Event.walk_unvisited, State.metrics_endFile, walked.bare,
    State.bare_follow, begun, ← State.bare_follow, ← State.metrics_endFile]
  rfl

/-- The metrics of a run are those of the outlines of its trees, one after the other. -/
theorem metrics_analyzeAll (env : Env) (s : State) (trees : List Tree) :
    (analyzeAll env s trees).metrics = (trees.map (outline env)).foldl afterFile s.metrics := by
  induction trees generalizing s with
  | nil => rfl
  | cons tree rest ih =>
    rw [List.map_cons, List.foldl_cons, ← metrics_analyze env s tree]
    exact ih (analyze env s tree)

end Analyzer

end Requisite
