import Requisite.Proofs.Moves
import Requisite.Proofs.Obscured
import Requisite.Proofs.Walk

/-!
# Analysis afresh

An analysis looks up a node once for each category and name, and remembers what it has found. How
much does that matter? It is compared with an analysis that remembers nothing. A lookup is made with
a number of arguments besides category and name, and the one place where this tells is a call of
`function_exists` that asks for `function_exists`: the call is looked up with its arguments, the
guard without any, and both under the same node, category and name. There the guard takes over what
was found for the call.

So `analyzeAfresh` computes every lookup afresh but that one. If no two nodes of a tree share an id,
its metrics are those of the analysis, and a tree without such calls has the metrics of an analysis
that remembers nothing at all (`lookups_remembered_faithfully`).
-/
namespace Requisite

namespace Code

/-- Whether a call asks whether the function exists that it calls, by the name it is called by. -/
def NodeKind.asksForItself : NodeKind → Bool
  | .call (some name) args =>
    Guard.ofFunction? name.toString = some .functionExists
      ∧ Analyzer.State.firstLiteral? args = some name.toString
  | _ => false

theorem NodeKind.exists_call_of_asksForItself {kind : NodeKind} (h : kind.asksForItself) :
    ∃ name args, kind = .call (some name) args := by
  unfold asksForItself at h
  split at h
  · exact ⟨_, _, rfl⟩
  · cases h

namespace Event

/-- Whether a call is left that asks for itself. -/
def asksForItself : Event → Bool
  | .enter _ => false
  | .leave node => node.kind.asksForItself

/-- The ids that lookups are made for. -/
def ids : Event → List UInt32
  | .enter _ => []
  | .leave node => node.id :: node.kind.itemIds

mutual

theorem ids_ofNode : (node : Node) → (ofNode node).flatMap ids = node.ids
  | ⟨id, kind, span, children⟩ => by
    have inner := ids_ofForest children
    simp [ofNode, ids, Node.ids, inner]

/-- Lookups are made once for each id. -/
theorem ids_ofForest : (nodes : List Node) → (ofForest nodes).flatMap ids = Node.forestIds nodes
  | [] => rfl
  | node :: rest => by
    have first := ids_ofNode node
    have second := ids_ofForest rest
    rw [ofForest, List.flatMap_append, first, second, Node.forestIds]

end

end Event

end Code

namespace Analyzer

open Code (Event Expr Name Node NodeKind Span Tree)

/-! ### Computing lookups afresh -/

/-- Leaves a node with all lookups computed afresh, but for a call that asks for itself: that is
looked up once, with its arguments, and the range is that of the guard as well. -/
def State.leaveAfresh (env : Env) (s : State) (node : Node) : State :=
  match node.kind with
  | .call (some name) args =>
    if node.kind.asksForItself then
      let range := env.find .functions name.toString (some args.length)
      let s := s.perform (.reference .functions name.toString range)
      s.perform (.guard .functionExists name.toString range)
    else s.leave env.forgetful node
  | _ => s.leave env.forgetful node

theorem State.leaveAfresh_of_other (env : Env) (s : State) {node : Node}
    (h : node.kind.asksForItself = false) :
    s.leaveAfresh env node = s.leave env.forgetful node := by
  unfold leaveAfresh
  split
  · exact if_neg (by simp [h])
  · rfl

def stepAfresh (env : Env) (s : State) : Event → State
  | .enter node => s.enter env.forgetful node
  | .leave node => s.leaveAfresh env node

def analyzeAfresh (env : Env) (s : State) (tree : Tree) : State :=
  (tree.events.foldl (stepAfresh env) (s.beginFile tree)).endFile

/-! ### What is remembered for a call -/

theorem Agrees.eq_of_id {m : Memory} {ids : List UInt32} {made plain : List Action × Memory}
    (h : Agrees (List.map id) m ids made plain) : plain = (made.1, made.2.forget) := by
  have same : made.1 = plain.1 := by simpa using h.same
  exact Prod.ext same.symm h.memory

namespace Memory

variable {env : Env} {m : Memory} {node : UInt32}

/-- What has been learned once is remembered. -/
theorem learn_learn (memoize : env.memoize = true) (key : LookupKey) (range other : Range) :
    ((m.learn env key range).2.learn env key other).1 = (m.learn env key range).1 := by
  unfold learn
  rw [memoize]
  cases found : m.cache.lookup key <;> simp [found]

/-- What a call does beyond its reference is what is done without remembering, if what its guard
asks for is not remembered. -/
theorem agrees_inspect_of_missing {f : Action → Action} {function : String} {args : List Expr}
    (missing : ∀ guard element, Guard.ofFunction? function = some guard →
      State.firstLiteral? args = some element →
        ∀ e ∈ m.cache, e.1 ≠ ⟨node, guard.category, element⟩) :
    Agrees (List.map f) m [node] (m.inspect env node function args)
      (m.forget.inspect env.forgetful node function args) := by
  unfold inspect
  split
  · exact .refl _ m _
  · cases guard : Guard.ofFunction? function with
    | none => exact .refl _ m _
    | some g =>
      dsimp only
      unfold ask
      cases literal : State.firstLiteral? args with
      | none => exact .refl _ m _
      | some element =>
        exact agrees_learn env ⟨node, g.category, element⟩ (env.find g.category element none)
          (fun range => [.guard g element range]) (missing g element guard literal)

/-- A node that is no call for itself does what is done without remembering. -/
theorem leaving_of_other (span : Span) {kind : NodeKind} (distinct : kind.itemIds.Nodup)
    (fresh : m.Fresh (node :: kind.itemIds)) (other : kind.asksForItself = false) :
    m.forget.leaving env.forgetful node span kind
      = ((m.leaving env node span kind).1, (m.leaving env node span kind).2.forget) := by
  refine Agrees.eq_of_id (agrees_leaving_of_inspect env m node span kind distinct fresh ?_)
  rintro name args rfl
  refine agrees_inspect_of_missing fun guard element asks literal e he same => ?_
  rcases cache_learn he with old | called
  · exact fresh e old (by simp [same])
  · -- the call itself is remembered, so the guard would have to ask for that
    rw [called, LookupKey.mk.injEq] at same
    obtain ⟨-, category, rfl⟩ := same
    have functions : guard = .functionExists := by cases guard <;> cases category; rfl
    simp [NodeKind.asksForItself, asks, functions, literal] at other

/-- A call for itself is looked up once. -/
theorem leaving_of_asking (memoize : env.memoize = true) (span : Span) {name : Name}
    {args : List Expr} (fresh : m.Fresh [node])
    (asks : (NodeKind.call (some name) args).asksForItself) :
    let range := env.find .functions name.toString (some args.length)
    (m.leaving env node span (.call (some name) args)).1
        = [.reference .functions name.toString range,
          .guard .functionExists name.toString range]
      ∧ (m.leaving env node span (.call (some name) args)).2.forget = m.forget := by
  intro range
  obtain ⟨guard, literal⟩ : Guard.ofFunction? name.toString = some .functionExists
      ∧ State.firstLiteral? args = some name.toString := by
    simpa [NodeKind.asksForItself] using asks
  let key : LookupKey := ⟨node, .functions, name.toString⟩
  let called := m.learn env key range
  let asked := called.2.learn env key (env.find .functions name.toString none)
  have found : called.1 = range := learn_of_missing fresh.missing
  have again : asked.1 = called.1 := learn_learn memoize key _ _
  have inspected : called.2.inspect env node name.toString args
      = ([.guard .functionExists name.toString asked.1], asked.2) := by
    unfold inspect
    rw [Guard.not_define guard, guard]
    dsimp only
    unfold ask
    rw [literal]
    rfl
  have left : m.leaving env node span (.call (some name) args)
      = ([.reference .functions name.toString called.1]
          ++ (called.2.inspect env node name.toString args).1,
        (called.2.inspect env node name.toString args).2) := rfl
  rw [left, inspected, again, found]
  exact ⟨rfl, forget_learn.trans forget_learn⟩

end Memory

/-! ### Two analyses side by side -/

namespace State

/-- Two states are alike if they differ in what is remembered only, and the second one remembers
nothing. -/
structure Alike (s t : State) : Prop where
  bare : t.bare = s.bare
  memory : t.memory = s.memory.forget

namespace Alike

variable {env : Env} {s t : State}

theorem follow {s' t' : State} {o : Outline} {m : Memory} (h : s.Alike t)
    (hs : Follows s (o, m) s') (ht : Follows t (o, m.forget) t') : s'.Alike t' := by
  refine ⟨?_, ?_⟩
  · rw [ht.bare, bare_follow, h.bare, ← bare_follow, hs.bare]
  · rw [ht.memory, hs.memory]

theorem leaveScope (h : s.Alike t) : s.leaveScope.Alike t.leaveScope := by
  have bare : t.leaveScope.bare = s.leaveScope.bare := by
    rw [bare_leaveScope, h.bare, ← bare_leaveScope]
  have source : t.source = s.source := congrArg Memory.source h.memory
  have cache : t.cache = [] := congrArg Memory.cache h.memory
  have scopes : t.leaveScope.bare.scopes = s.leaveScope.bare.scopes := by rw [bare]
  change t.leaveScope.scopes = s.leaveScope.scopes at scopes
  refine ⟨bare, ?_⟩
  unfold State.memory Memory.forget
  rw [scopes, (rest_leaveScope t).1, (rest_leaveScope t).2, (rest_leaveScope s).1, source, cache]

/-- Nothing is looked up when a node is entered. -/
theorem enter (env : Env) (h : s.Alike t) (node : Node) :
    (s.enter env node).Alike (t.enter env.forgetful node)
      ∧ (s.enter env node).cache = s.cache := by
  have owner : t.memory.owner = s.memory.owner := by
    rw [h.memory]
    rfl
  cases declared : Declaration.ofKind? env s.memory.owner node.span node.kind with
  | some d =>
    have declared' : Declaration.ofKind? env.forgetful t.memory.owner node.span node.kind
        = some d := by
      rw [owner]
      exact declared
    obtain ⟨bare, memory⟩ := enter_declaration env s node declared
    obtain ⟨bare', memory'⟩ := enter_declaration env.forgetful t node declared'
    refine ⟨⟨?_, ?_⟩, congrArg Memory.cache memory⟩
    · rw [bare', bare_declare, h.bare, ← bare_declare, bare]
    · rw [memory', h.memory, memory]
      rfl
  | none =>
    have plain := Declaration.ofKind?_eq_none_iff.1 declared
    have entered := s.follows_enter env node plain
    have entered' := t.follows_enter env.forgetful node plain
    have same := Agrees.eq_of_id (s.memory.agrees_entering node.kind)
    rw [h.memory, same] at entered'
    refine ⟨h.follow entered entered', ?_⟩
    have kept : (s.memory.entering node.kind).2.cache = s.memory.cache := by
      cases node.kind <;> rfl
    exact (congrArg Memory.cache entered.memory).trans kept

/-- The lookups of a node are made with what is remembered for other nodes, which is of no use. -/
theorem leave (memoize : env.memoize = true) (h : s.Alike t) (node : Node)
    (distinct : node.kind.itemIds.Nodup) (fresh : s.memory.Fresh (node.id :: node.kind.itemIds)) :
    (s.leave env node).Alike (t.leaveAfresh env node) := by
  cases scope : node.kind.isScope with
  | true =>
    have other : node.kind.asksForItself = false := by
      cases asks : node.kind.asksForItself with
      | false => rfl
      | true =>
        obtain ⟨name, args, call⟩ := NodeKind.exists_call_of_asksForItself asks
        rw [call] at scope
        cases scope
    rw [leaveAfresh_of_other env t other, leave_scope env s scope, leave_scope _ t scope]
    exact h.leaveScope
  | false =>
    have left := follows_leave env s node scope
    cases asks : node.kind.asksForItself with
    | false =>
      have left' := follows_leave env.forgetful t node scope
      rw [h.memory, Memory.leaving_of_other node.span distinct fresh asks] at left'
      rw [leaveAfresh_of_other env t asks]
      exact h.follow left left'
    | true =>
      -- the guard asks under the key of the call, so one range is recorded for both
      obtain ⟨id, kind, span, children⟩ := node
      obtain ⟨name, args, rfl⟩ := NodeKind.exists_call_of_asksForItself asks
      obtain ⟨actions, forgot⟩ := Memory.leaving_of_asking memoize span fresh asks
      dsimp only at actions forgot left
      rw [actions] at left
      refine h.follow left ⟨?_, ?_⟩
      · exact congrArg State.bare (if_pos asks)
      · have performed : t.leaveAfresh env ⟨id, .call (some name) args, span, children⟩ = _ :=
          if_pos asks
        rw [performed, memory_perform, memory_perform, forgot]
        exact h.memory

end Alike

/-- Lookups are remembered for the node that is left, and for the constants it declares. -/
theorem cache_leave {env : Env} {s : State} (node : Node) (distinct : node.kind.itemIds.Nodup)
    (fresh : s.memory.Fresh (node.id :: node.kind.itemIds)) :
    ∀ e ∈ (s.leave env node).cache, e ∈ s.cache ∨ e.1.node ∈ node.id :: node.kind.itemIds := by
  cases scope : node.kind.isScope with
  | true =>
    rw [leave_scope env s scope, (rest_leaveScope s).2]
    exact fun e he => Or.inl he
  | false =>
    have cache : (s.leave env node).cache = _ :=
      congrArg Memory.cache (follows_leave env s node scope).memory
    rw [cache]
    exact (s.memory.agrees_leaving env node.id node.span node.kind distinct fresh).cache

/-- One event takes states that are alike to states that are alike. -/
theorem Alike.step {env : Env} (memoize : env.memoize = true) {s t : State} (h : s.Alike t)
    (event : Event) (distinct : event.ids.Nodup) (fresh : s.memory.Fresh event.ids) :
    (Analyzer.step env s event).Alike (stepAfresh env t event)
      ∧ ∀ e ∈ (Analyzer.step env s event).cache, e ∈ s.cache ∨ e.1.node ∈ event.ids := by
  cases event with
  | enter node =>
    obtain ⟨alike, cache⟩ := h.enter env node
    refine ⟨alike, fun e he => Or.inl ?_⟩
    rwa [← cache]
  | leave node =>
    have items := (List.nodup_cons.1 distinct).2
    exact ⟨h.leave memoize node items fresh, cache_leave node items fresh⟩

/-- So do all events of a walk, if no id comes twice. -/
theorem Alike.steps {env : Env} (memoize : env.memoize = true) (events : List Event)
    {s t : State} (h : s.Alike t) (distinct : (events.flatMap Event.ids).Nodup)
    (fresh : s.memory.Fresh (events.flatMap Event.ids)) :
    (events.foldl (Analyzer.step env) s).Alike (events.foldl (stepAfresh env) t) := by
  induction events generalizing s t with
  | nil => exact h
  | cons event rest ih =>
    rw [List.flatMap_cons] at distinct fresh
    obtain ⟨here, there, apart⟩ := List.nodup_append.1 distinct
    obtain ⟨alike, cache⟩ :=
      h.step memoize event here (fresh.mono (List.subset_append_left _ _))
    refine ih alike there fun e he later => ?_
    rcases cache e he with old | new
    · exact fresh e old (List.mem_append_right _ later)
    · exact apart _ new _ later rfl

end State

open State

/-- Without calls that ask for themselves, an analysis afresh is one that remembers nothing. -/
theorem foldl_stepAfresh (env : Env) (events : List Event)
    (others : ∀ event ∈ events, event.asksForItself = false) (s : State) :
    events.foldl (stepAfresh env) s = events.foldl (step env.forgetful) s := by
  induction events generalizing s with
  | nil => rfl
  | cons event rest ih =>
    have same : stepAfresh env s event = step env.forgetful s event := by
      cases event with
      | enter node => rfl
      | leave node => exact leaveAfresh_of_other env s (others _ List.mem_cons_self)
    rw [List.foldl_cons, List.foldl_cons, same]
    exact ih (fun later mem => others later (List.mem_cons_of_mem event mem)) _

/-- Lookups are remembered faithfully. From any state, a tree without two equal ids gets the metrics
that it gets with every lookup computed afresh, where the guard of a call that asks for itself takes
over what was found for the call. If no call asks for itself, these are the metrics of an analysis
that remembers nothing. -/
theorem lookups_remembered_faithfully (references : References) (s : State) (tree : Tree)
    (distinct : tree.ids.Nodup) :
    let env : Env := { references }
    (analyze env s tree).metrics = (analyzeAfresh env s tree).metrics
      ∧ ((∀ event ∈ tree.events, event.asksForItself = false) →
        (analyze env s tree).metrics = (analyze env.forgetful s tree).metrics) := by
  intro env
  have ids : tree.events.flatMap Event.ids = tree.ids := by
    rw [Tree.events, Event.walk_unvisited, Event.ids_ofForest, Tree.ids]
  have begun : (s.beginFile tree).Alike (s.beginFile tree) := ⟨rfl, rfl⟩
  have memoize : env.memoize = true := rfl
  have walked := begun.steps memoize tree.events (ids ▸ distinct)
    fun _ he => absurd he List.not_mem_nil
  have afresh : (analyze env s tree).metrics = (analyzeAfresh env s tree).metrics := by
    rw [analyze, analyzeAfresh, metrics_endFile, ← walked.bare, ← metrics_endFile]
  refine ⟨afresh, fun others => afresh.trans ?_⟩
  have same : tree.events.foldl (stepAfresh env) (s.beginFile tree)
      = tree.events.foldl (step env.forgetful) (s.beginFile tree) := by
    refine foldl_stepAfresh env tree.events others _
  rw [analyzeAfresh, same, analyze]

/-- A call that asks for itself: `function_exists("function_exists")`. -/
def askingForItself : Tree :=
  let name := "function_exists"
  { path := "f.php"
    nodes := [⟨0, .call (some (Name.ofParts [name])) [.string name], {}, []⟩] }

/-- A function that takes an argument since a late release. -/
def lateArgument : References := fun category name argCount =>
  if category = .functions ∧ name = "function_exists" ∧ argCount = some 1 then
    some (.since (.release 5 5 0))
  else none

/-- Remembering does not go unnoticed. The guard of a call that asks for itself is recorded with
what was found for the call, and without remembering with what is found without arguments. -/
theorem asking_for_itself_remembered :
    let env : Env := { references := lateArgument }
    let condition (s : State) :=
      (s.metrics.elements.get? .conditions "function_exists(function_exists)").map Range.min
    askingForItself.ids.Nodup
      ∧ condition (analyze env {} askingForItself) = some (.release 5 5 0)
      ∧ condition (analyze env.forgetful {} askingForItself) = some .baseline
      ∧ (analyze env {} askingForItself).metrics
        ≠ (analyze env.forgetful {} askingForItself).metrics := by
  intro env condition
  have remembered : condition (analyze env {} askingForItself) = some (.release 5 5 0) := by
    decide +kernel
  have forgotten : condition (analyze env.forgetful {} askingForItself) = some .baseline := by
    decide +kernel
  refine ⟨by decide, remembered, forgotten, fun same => ?_⟩
  have releases : some (Version.release 5 5 0) = some .baseline := by
    rw [← remembered, ← forgotten]
    simp only [condition, same]
  exact absurd releases (by decide)

/-- The call that asks for itself gets the metrics that it gets afresh. The call behind it asks for
another function, and gets those of an analysis that remembers nothing. -/
theorem asking_for_itself_afresh :
    let env : Env := { references := lateArgument }
    let asking : Tree :=
      { path := "g.php"
        nodes := [⟨0, .call (some (Name.ofParts ["function_exists"])) [.string "f"], {}, []⟩] }
    let s := analyze env {} askingForItself
    askingForItself.ids.Nodup ∧ asking.ids.Nodup
      ∧ (∀ event ∈ asking.events, event.asksForItself = false)
      ∧ s.metrics = (analyzeAfresh env {} askingForItself).metrics
      ∧ (analyze env s asking).metrics = (analyze env.forgetful s asking).metrics := by
  intro env asking s
  have distinct : askingForItself.ids.Nodup := by decide
  have distinct' : asking.ids.Nodup := by decide
  have others : ∀ event ∈ asking.events, event.asksForItself = false := by decide +kernel
  exact ⟨distinct, distinct', others,
    (lookups_remembered_faithfully lateArgument {} askingForItself distinct).1,
    (lookups_remembered_faithfully lateArgument s asking distinct').2 others⟩

end Analyzer

end Requisite
