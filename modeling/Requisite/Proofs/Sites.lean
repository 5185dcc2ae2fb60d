import Requisite.Proofs.Obscured

/-!
# Sites

What there is to count in a tree, read off the tree itself. A `Visit` is a node at the moment when
it is left, with the classes that receivers are known to hold there, and `visits` lists them by
recursion on the tree. No database, table or scope has a part in it. A visit says which elements are
referred to, which are mentioned in heads and type hints, which are guarded, and which names stay
unknown until the code runs.

The outline of a tree names the same elements (`count_uses_outline`, `guarded_outline`). The memory
that goes along with it knows the same aliases and has seen the same lookups (`accords_forest`).
-/
namespace Requisite

namespace Code.NodeKind

/-- Whether a node opens a scope with aliases of its own. -/
def keepsAliases : NodeKind → Bool
  | .namespaceDecl _ | .functionDecl _ | .methodDecl .. | .closure _ => true
  | _ => false

/-- The aliases just inside a node, from those around it. -/
def aliasesInside (around : Aliases) : NodeKind → Aliases
  | .assign target value => around.record target value
  | kind => if kind.keepsAliases then {} else around

/-- The aliases just after a node, from those around it and those at its end. -/
def aliasesAfter (around last : Aliases) (kind : NodeKind) : Aliases :=
  if kind.keepsAliases then around else last

theorem aliasesAfter_of_plain {kind : NodeKind} (h : kind.isScope = false) (around last : Aliases) :
    kind.aliasesAfter around last = last := by
  cases kind with
  | namespaceDecl | functionDecl | methodDecl | closure => cases h
  | _ => rfl

end Code.NodeKind

namespace Analyzer

open Code (ConstItem Expr Name Node NodeKind Param Span Tree)

/-- A node that is left: which one, what it is, and the aliases that are known at its end. -/
structure Visit where
  node : UInt32
  kind : NodeKind
  aliases : Aliases

mutual

/-- The visits of a node in the order of the walk, and the aliases after it. -/
def visitNode (aliases : Aliases) : Node → List Visit × Aliases
  | ⟨id, kind, _, children⟩ =>
    let (inner, last) := visitForest (kind.aliasesInside aliases) children
    (inner ++ [⟨id, kind, last⟩], kind.aliasesAfter aliases last)

/-- The visits of a forest in the order of the walk, and the aliases after it. -/
def visitForest (aliases : Aliases) : List Node → List Visit × Aliases
  | [] => ([], aliases)
  | node :: rest =>
    let (first, aliases) := visitNode aliases node
    let (second, aliases) := visitForest aliases rest
    (first ++ second, aliases)

end

/-- The visits of a tree. -/
def visits (tree : Tree) : List Visit :=
  (visitForest {} tree.nodes).1

/-! ### What a visit comes to -/

/-- The element that a guard asks for. -/
def guardKey (guarded : Guard × String) : Key :=
  (guarded.1.category, guarded.2)

/-- The condition that a guard asks for. -/
def conditionKey (guarded : Guard × String) : Key :=
  (.conditions, guarded.1.condition guarded.2)

/-- The guard that a call of `function` makes, with the literal that it asks for. -/
def guardsOf (function : String) (args : List Expr) : List (Guard × String) :=
  match Guard.ofFunction? function, State.firstLiteral? args with
  | some guard, some element => [(guard, element)]
  | _, _ => []

namespace Visit

/-- The elements that are referred to: what is instantiated, called or fetched under a name that is
known, and constants that are declared. A method is known if the class of its receiver is. -/
def references (v : Visit) : List Key :=
  match v.kind with
  | .new (some className) _ => [(.classes, className.toString)]
  | .call (some name) _ => [(.functions, name.toString)]
  | .methodCall receiver (some method) _ =>
    (v.aliases.resolve? receiver).toList.map fun className =>
      (.methods, className ++ "::" ++ method)
  | .constFetch name => [(.constants, name.toString)]
  | .magicConst name => [(.constants, name)]
  | .constDecl items => items.map fun item => (.constants, item.name)
  | _ => []

/-- The classes and interfaces that are named by an `extends` clause, by a list of interfaces, or by
a fully qualified type hint. -/
def mentions (v : Visit) : List Key :=
  match v.kind with
  | .classDecl _ _ parent interfaces =>
    parent.toList.map (fun name => (.classes, name.toString))
      ++ interfaces.map fun name => (.interfaces, name.toString)
  | .interfaceDecl _ parents => parents.map fun name => (.interfaces, name.toString)
  | .param param =>
    (param.typeHint.toList.filter Name.isFullyQualified).map fun hint => (.classes, hint.toString)
  | _ => []

/-- The guard of a call that asks for a literal, with that literal. -/
def guards (v : Visit) : List (Guard × String) :=
  match v.kind with
  | .call (some name) args => guardsOf name.toString args
  | _ => []

/-- Whether a method is called on an object of unknown class. -/
def isUnresolved (v : Visit) : Bool :=
  match v.kind with
  | .methodCall receiver (some _) _ => (v.aliases.resolve? receiver).isNone
  | _ => false

/-- Whether something is instantiated or called under a name that is only known when the code
runs. -/
def isDynamic (v : Visit) : Bool :=
  match v.kind with
  | .new none _ | .call none _ | .methodCall _ none _ => true
  | _ => false

/-- Whether a call defines a constant or makes a guard, but of no literal. -/
def lacksLiteral (v : Visit) : Bool :=
  match v.kind with
  | .call (some name) args =>
    (Text.sameFold name.toString "define" || (Guard.ofFunction? name.toString).isSome)
      && (State.firstLiteral? args).isNone
  | _ => false

/-- The lookups that are made, in their order. Each constant of a declaration is looked up on its
own behalf. -/
def lookups (v : Visit) : List LookupKey :=
  match v.kind with
  | .constDecl items => items.map fun item => ⟨item.id, .constants, item.name⟩
  | _ => (v.references ++ v.guards.map guardKey).map fun k => ⟨v.node, k.1, k.2⟩

/-- The elements of which a use is counted. -/
def uses (v : Visit) : List Key :=
  v.mentions ++ v.references ++ v.guards.map conditionKey

/-- No use is counted of an extension. -/
theorem ne_extensions_of_mem_uses {v : Visit} {k : Key} (h : k ∈ v.uses) : k.1 ≠ .extensions := by
  rcases List.mem_append.1 h with h | condition
  · rcases List.mem_append.1 h with mention | reference
    · unfold mentions at mention
      split at mention <;> grind
    · unfold references at reference
      split at reference <;> grind
  · obtain ⟨guarded, -, rfl⟩ := List.mem_map.1 condition
    simp [conditionKey]

end Visit

/-! ### Outlines name the same elements -/

/-- The elements of which an action counts a use. -/
def Action.uses : Action → List Key
  | .hint className => [(.classes, className)]
  | .reference category name _ => [(category, name)]
  | .guard g element _ => [conditionKey (g, element)]
  | _ => []

namespace Outline

/-- The elements of which a use is counted. -/
def uses : Outline → List Key
  | .nothing => []
  | .act action => action.uses
  | .seq first second => first.uses ++ second.uses
  | .scope d body => d.heads.map (·.1) ++ body.uses

theorem uses_ofList (actions : List Action) :
    (ofList actions).uses = actions.flatMap Action.uses := by
  induction actions with
  | nil => rfl
  | cons action rest ih => rw [ofList, uses, ih]; rfl

theorem guarded_ofList (actions : List Action) :
    (ofList actions).guarded = actions.flatMap Action.guarded := by
  induction actions with
  | nil => rfl
  | cons action rest ih => rw [ofList, guarded, ih]; rfl

end Outline

/-- The keys that are remembered once a key has been looked up. -/
def Env.see (env : Env) (seen : List LookupKey) (key : LookupKey) : List LookupKey :=
  if env.memoize ∧ key ∉ seen then key :: seen else seen

/-- The keys that are remembered. -/
def Memory.seen (m : Memory) : List LookupKey :=
  m.cache.map (·.1)

/-- From memory `m` some actions are made that use and guard the given elements, and the given keys
are looked up for it. -/
structure Accords (env : Env) (m : Memory) (uses guarded : List Key) (keys : List LookupKey)
    (made : List Action × Memory) : Prop where
  uses : made.1.flatMap Action.uses = uses
  guarded : (made.1.flatMap Action.guarded).map (·.1) = guarded
  aliases : made.2.aliases = m.aliases
  seen : made.2.seen = keys.foldl env.see m.seen

namespace Accords

variable {env : Env} {m : Memory}

theorem nothing (m : Memory) : Accords env m [] [] [] ([], m) := ⟨rfl, rfl, rfl, rfl⟩

theorem append {uses guarded uses' guarded' : List Key} {keys keys' : List LookupKey}
    {made made' : List Action × Memory} (h : Accords env m uses guarded keys made)
    (h' : Accords env made.2 uses' guarded' keys' made') :
    Accords env m (uses ++ uses') (guarded ++ guarded') (keys ++ keys')
      (made.1 ++ made'.1, made'.2) where
  uses := by rw [List.flatMap_append, h.uses, h'.uses]
  guarded := by rw [List.flatMap_append, List.map_append, h.guarded, h'.guarded]
  aliases := h'.aliases.trans h.aliases
  seen := by rw [h'.seen, h.seen, List.foldl_append]

end Accords

namespace Memory

variable {env : Env} {m : Memory}

theorem lookup_eq_none_iff {key : LookupKey} : m.cache.lookup key = none ↔ key ∉ m.seen := by
  rw [List.lookup_eq_none_iff, seen, List.mem_map]
  grind

theorem seen_learn (env : Env) (m : Memory) (key : LookupKey) (fresh : Range) :
    (m.learn env key fresh).2.seen = env.see m.seen key := by
  have found : m.cache.lookup key = none ↔ key ∉ m.seen := lookup_eq_none_iff
  unfold learn Env.see
  cases env.memoize with
  | false => rfl
  | true =>
    cases remembered : m.cache.lookup key with
    | none => simp only [found.1 remembered, not_false_iff, and_self, if_true]; rfl
    | some range =>
      have known : ¬key ∉ m.seen := fun new => by simp [found.2 new] at remembered
      simp only [known, and_false, if_false, if_true]

theorem accords_learn (env : Env) (m : Memory) (key : LookupKey) (fresh : Range)
    (f : Range → Action) :
    let learned := m.learn env key fresh
    Accords env m (f learned.1).uses ((f learned.1).guarded.map (·.1)) [key]
      ([f learned.1], learned.2) := by
  intro learned
  have kept : learned.2.forget.aliases = m.forget.aliases := by rw [forget_learn]
  exact ⟨List.flatMap_singleton .., by rw [List.flatMap_singleton], kept,
    seen_learn env m key fresh⟩

theorem accords_refer (env : Env) (m : Memory) (node : UInt32) (category : Category)
    (name : String) (argCount : Option Nat) :
    Accords env m [(category, name)] [] [⟨node, category, name⟩]
      (m.refer env node category name argCount) :=
  accords_learn env m ⟨node, category, name⟩ _ (.reference category name)

/-- A call of `define` makes no guard, and a guard without a literal asks for nothing. -/
theorem accords_inspect (env : Env) (m : Memory) (node : UInt32) (function : String)
    (args : List Expr) :
    let guards := guardsOf function args
    Accords env m (guards.map conditionKey) (guards.map guardKey)
      ((guards.map guardKey).map fun k => ⟨node, k.1, k.2⟩)
      (m.inspect env node function args) := by
  intro guards
  unfold inspect
  cases guard : Guard.ofFunction? function with
  | none =>
    have none : guards = [] := by simp [guards, guardsOf, guard]
    rw [none]
    split
    · cases State.firstLiteral? args <;> exact ⟨rfl, rfl, rfl, rfl⟩
    · exact .nothing m
  | some g =>
    rw [Guard.not_define guard]
    change Accords _ _ _ _ _ (m.ask env node g args)
    unfold ask
    cases literal : State.firstLiteral? args with
    | none =>
      have none : guards = [] := by simp [guards, guardsOf, guard, literal]
      rw [none]
      exact ⟨rfl, rfl, rfl, rfl⟩
    | some element =>
      have one : guards = [(g, element)] := by simp [guards, guardsOf, guard, literal]
      rw [one]
      exact accords_learn env m ⟨node, g.category, element⟩ _ (.guard g element)

theorem accords_constants (env : Env) (m : Memory) (items : List ConstItem) :
    Accords env m (items.map fun item => (.constants, item.name)) []
      (items.map fun item => ⟨item.id, .constants, item.name⟩) (m.constants env items) := by
  induction items generalizing m with
  | nil => exact .nothing m
  | cons item rest ih =>
    have first := accords_learn env m ⟨item.id, .constants, item.name⟩
      (Construct.constDecl item.value.isScalar).contribution (.reference .constants item.name)
    exact first.append (ih _)

/-- What is done when a node is left is what its visit comes to. -/
theorem accords_leaving (env : Env) (m : Memory) (node : UInt32) (span : Span) (kind : NodeKind) :
    let v : Visit := ⟨node, kind, m.aliases⟩
    Accords env m (v.references ++ v.guards.map conditionKey) (v.guards.map guardKey) v.lookups
      (m.leaving env node span kind) := by
  intro v
  have construct (c : Construct) : Accords env m [] [] [] ([.construct c], m) :=
    ⟨rfl, rfl, rfl, rfl⟩
  cases kind with
  | new className argCount =>
    cases className with
    | none => exact .nothing m
    | some className => exact accords_refer ..
  | call name args =>
    cases name with
    | none => exact .nothing m
    | some name =>
      have reference := accords_refer env m node .functions name.toString (some args.length)
      exact reference.append (accords_inspect env _ node name.toString args)
  | methodCall receiver name argCount =>
    cases name with
    | none => exact .nothing m
    | some method =>
      have references : v.references = (m.aliases.resolve? receiver).toList.map
        fun className => (.methods, className ++ "::" ++ method) := rfl
      have lookups : v.lookups
          = (v.references ++ []).map fun k : Key => ⟨node, k.1, k.2⟩ := rfl
      rw [lookups, references, leaving]
      cases m.aliases.resolve? receiver with
      | none => exact .nothing m
      | some className => exact accords_refer ..
  | constFetch name => exact accords_refer ..
  | magicConst name => exact accords_refer ..
  | constDecl items =>
    have references : v.references ++ v.guards.map conditionKey
        = items.map fun item => (.constants, item.name) := List.append_nil _
    rw [references]
    exact accords_constants env m items
  | useImport | arrayLiteral | dimFetch | pow => exact construct _
  | _ => exact .nothing m

/-- What is done when a node is entered that opens no scope. -/
theorem accords_entering (env : Env) (m : Memory) {kind : NodeKind} (plain : kind.isScope = false)
    (v : Visit) (here : v.kind = kind) :
    Accords env { m with aliases := kind.aliasesInside m.aliases } v.mentions [] []
      (m.entering kind) := by
  unfold Visit.mentions
  rw [here]
  cases kind with
  | namespaceDecl | classDecl | interfaceDecl | traitDecl | functionDecl | methodDecl
  | closure => cases plain
  | param param =>
    refine ⟨?_, ?_, rfl, rfl⟩
    · simp only [entering, List.flatMap_cons, List.flatMap_map, Action.uses, List.nil_append]
      exact List.map_eq_flatMap.symm
    · simp [entering, Action.guarded, List.flatMap_map]
  | _ => exact ⟨rfl, rfl, rfl, rfl⟩

end Memory

/-- A node that opens a scope refers to nothing and looks nothing up when it is left. -/
theorem Visit.of_scope {v : Visit} (h : v.kind.isScope) :
    v.uses = v.mentions ∧ v.guards = [] ∧ v.lookups = [] := by
  obtain ⟨node, kind, aliases⟩ := v
  cases kind with
  | namespaceDecl | classDecl | interfaceDecl | traitDecl | functionDecl | methodDecl | closure =>
    exact ⟨by rw [uses]; exact (List.append_nil _).trans (List.append_nil _), rfl, rfl⟩
  | _ => cases h

namespace Declaration

variable {env : Env} {owner : String} {span : Span} {d : Declaration}

theorem heads_ofKind? {v : Visit} (h : ofKind? env owner span v.kind = some d) :
    d.heads.map (·.1) = v.mentions := by
  obtain ⟨node, kind, aliases⟩ := v
  cases kind with
  | namespaceDecl name => cases name <;> cases h <;> rfl
  | classDecl name modifiers parent interfaces =>
    cases h
    change List.map _ (_ ++ _) = _ ++ _
    rw [List.map_append, List.map_map, List.map_map]
    rfl
  | interfaceDecl name parents =>
    cases h
    exact List.map_map ..
  | traitDecl | functionDecl | methodDecl | closure => cases h; rfl
  | _ => cases h

theorem isScope_of_ofKind? {kind : NodeKind} (h : ofKind? env owner span kind = some d) :
    kind.isScope := by
  cases plain : kind.isScope with
  | true => rfl
  | false =>
    rw [ofKind?_eq_none_iff.2 plain] at h
    cases h

theorem keepsLocals_ofKind? {kind : NodeKind} (h : ofKind? env owner span kind = some d) :
    d.keepsLocals = kind.keepsAliases := by
  cases kind with
  | namespaceDecl name => cases name <;> cases h <;> rfl
  | classDecl | interfaceDecl | traitDecl | functionDecl | methodDecl | closure => cases h; rfl
  | _ => cases h

/-- The aliases inside a scope and after it. -/
theorem aliases_ofKind? {kind : NodeKind} (h : ofKind? env owner span kind = some d) (m : Memory) :
    (m.inside d).aliases = kind.aliasesInside m.aliases
      ∧ ∀ last, (m.after d last).aliases = kind.aliasesAfter m.aliases last.aliases := by
  have keeps := keepsLocals_ofKind? h
  unfold Memory.inside Memory.after NodeKind.aliasesAfter
  rw [keeps]
  refine ⟨?_, fun _ => rfl⟩
  cases kind with
  | assign target value => cases h
  | _ => rfl

end Declaration

/-- An outline uses and guards what the visits come to, and the memory after it knows the aliases
and has seen the lookups. -/
structure OutlineAccords (env : Env) (m : Memory) (visited : List Visit × Aliases)
    (made : Outline × Memory) : Prop where
  uses : ∀ k, made.1.uses.count k = (visited.1.flatMap Visit.uses).count k
  guarded : made.1.guarded.map (·.1) = (visited.1.flatMap Visit.guards).map guardKey
  aliases : made.2.aliases = visited.2
  seen : made.2.seen = (visited.1.flatMap Visit.lookups).foldl env.see m.seen

namespace OutlineAccords

variable {env : Env} {m m' : Memory} {visited visited' : List Visit × Aliases}

theorem seq {made made' : Outline × Memory} (h : OutlineAccords env m visited made)
    (h' : OutlineAccords env made.2 visited' made') :
    OutlineAccords env m (visited.1 ++ visited'.1, visited'.2) (.seq made.1 made'.1, made'.2) where
  uses k := by simp [Outline.uses, h.uses, h'.uses]
  guarded := by simp [Outline.guarded, h.guarded, h'.guarded]
  aliases := h'.aliases
  seen := by simp [h.seen, h'.seen]

/-- A scope mentions what its head names, before anything inside it. -/
theorem scope {d : Declaration} {body : Outline} {last : Memory} {inside : List Visit} {v : Visit}
    (scope : v.kind.isScope) (heads : d.heads.map (·.1) = v.mentions)
    (inner : OutlineAccords env (m.inside d) (inside, v.aliases) (body, last))
    (after : (m.after d last).aliases = v.kind.aliasesAfter m.aliases v.aliases) :
    OutlineAccords env m (inside ++ [v], v.kind.aliasesAfter m.aliases v.aliases)
      (.scope d body, m.after d last) := by
  obtain ⟨uses, guards, lookups⟩ := Visit.of_scope scope
  refine ⟨fun k => ?_, ?_, after, ?_⟩
  · simp [Outline.uses, heads, inner.uses, uses, Nat.add_comm]
  · simp [Outline.guarded, inner.guarded, guards]
  · rw [List.flatMap_append, List.flatMap_singleton, lookups, List.append_nil]
    exact inner.seen

/-- A node that opens no scope mentions something when it is entered, and refers to something when
it is left. -/
theorem plain {first final : List Action × Memory} {body : Outline × Memory} {inside : List Visit}
    {v : Visit} (plain : v.kind.isScope = false)
    (entering : Accords env m' v.mentions [] [] first) (kept : m'.seen = m.seen)
    (inner : OutlineAccords env first.2 (inside, v.aliases) body)
    (leaving : Accords env body.2 (v.references ++ v.guards.map conditionKey)
      (v.guards.map guardKey) v.lookups final) :
    OutlineAccords env m (inside ++ [v], v.kind.aliasesAfter m.aliases v.aliases)
      (.seq (.ofList first.1) (.seq body.1 (.ofList final.1)), final.2) := by
  rw [NodeKind.aliasesAfter_of_plain plain]
  refine ⟨fun k => ?_, ?_, leaving.aliases.trans inner.aliases, ?_⟩
  · have between : body.1.uses.count k = (inside.flatMap Visit.uses).count k := inner.uses k
    simp only [Outline.uses, Outline.uses_ofList, entering.uses, leaving.uses, List.count_append,
      List.flatMap_append, List.flatMap_singleton, Visit.uses, between]
    omega
  · have none : (first.1.flatMap Action.guarded).map (·.1) = [] := entering.guarded
    simp [Outline.guarded, Outline.guarded_ofList, none, inner.guarded, leaving.guarded]
  · simp [leaving.seen, inner.seen, entering.seen, kept]

end OutlineAccords

mutual

theorem accords_node (env : Env) (m : Memory) :
    (node : Node) → OutlineAccords env m (visitNode m.aliases node) (outlineNode env m node)
  | ⟨id, kind, span, children⟩ => by
    rw [outlineNode, visitNode]
    let v : Visit := ⟨id, kind, (visitForest (kind.aliasesInside m.aliases) children).2⟩
    cases declared : Declaration.ofKind? env m.owner span kind with
    | some d =>
      obtain ⟨aliases, after⟩ := Declaration.aliases_ofKind? declared m
      have inner := accords_forest env (m.inside d) children
      rw [aliases] at inner
      have heads : d.heads.map (·.1) = v.mentions := Declaration.heads_ofKind? declared
      exact .scope (v := v) (Declaration.isScope_of_ofKind? declared) heads inner
        ((after _).trans (congrArg _ inner.aliases))
    | none =>
      have plain := Declaration.ofKind?_eq_none_iff.1 declared
      have entering := Memory.accords_entering env m plain v rfl
      have inner := accords_forest env (m.entering kind).2 children
      rw [entering.aliases] at inner
      have leaving := Memory.accords_leaving env
        (outlineForest env (m.entering kind).2 children).2 id span kind
      rw [inner.aliases] at leaving
      exact .plain (v := v) plain entering rfl inner leaving

theorem accords_forest (env : Env) (m : Memory) :
    (nodes : List Node) →
      OutlineAccords env m (visitForest m.aliases nodes) (outlineForest env m nodes)
  | [] => ⟨fun _ => rfl, rfl, rfl, rfl⟩
  | node :: rest => by
    have first := accords_node env m node
    have second := accords_forest env (outlineNode env m node).2 rest
    rw [first.aliases] at second
    exact first.seq second

end

/-! ### Trees -/

theorem count_uses_outline (env : Env) (tree : Tree) (k : Key) :
    (outline env tree).uses.count k = ((visits tree).flatMap Visit.uses).count k :=
  (accords_forest env { source := tree.source } tree.nodes).uses k

theorem guarded_outline (env : Env) (tree : Tree) :
    (outline env tree).guarded.map (·.1) = ((visits tree).flatMap Visit.guards).map guardKey :=
  (accords_forest env { source := tree.source } tree.nodes).guarded

mutual

theorem length_visitNode (aliases : Aliases) :
    (node : Node) → (visitNode aliases node).1.length = node.size
  | ⟨id, kind, span, children⟩ => by
    have inner := length_visitForest (kind.aliasesInside aliases) children
    simp [visitNode, Node.size, inner]

/-- Every node is visited once. -/
theorem length_visitForest (aliases : Aliases) :
    (nodes : List Node) → (visitForest aliases nodes).1.length = Node.sizes nodes
  | [] => rfl
  | node :: rest => by
    have first := length_visitNode aliases node
    have second := length_visitForest (visitNode aliases node).2 rest
    simp [visitForest, Node.sizes, first, second]

end

end Analyzer

end Requisite
