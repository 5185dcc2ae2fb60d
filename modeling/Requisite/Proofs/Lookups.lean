import Requisite.Proofs.Outline

/-!
# Remembered lookups

A lookup is remembered under the node that asked for it. Where no two nodes of a tree share an id,
constants of a declaration included, what is remembered is never used for another node, and the
outline of the tree is the one that is made without remembering anything. There is one exception: a
call that guards its own function finds what was remembered for the call. So outlines are compared
with the ranges of guards left out.
-/
namespace Requisite

namespace Code

/-- The ids of the constants that a node declares. -/
def NodeKind.itemIds : NodeKind → List UInt32
  | .constDecl items => items.map ConstItem.id
  | _ => []

namespace Node

mutual

/-- The ids in a node: of the constants it declares, and of the nodes below and including it. -/
def ids : Node → List UInt32
  | ⟨id, kind, _, children⟩ => forestIds children ++ id :: kind.itemIds

/-- The ids in a forest. -/
def forestIds : List Node → List UInt32
  | [] => []
  | node :: rest => ids node ++ forestIds rest

end

end Node

/-- The ids in a tree. -/
def Tree.ids (tree : Tree) : List UInt32 :=
  Node.forestIds tree.nodes

end Code

namespace Analyzer

open Code (ConstItem Expr Name Node NodeKind Span Tree)

/-- What is consulted by an analysis that remembers nothing. -/
def Env.forgetful (env : Env) : Env :=
  { env with memoize := false }

/-! ### Outlines without the ranges of guards -/

namespace Outline

/-- The outline with every action changed. -/
def map (f : Action → Action) : Outline → Outline
  | .nothing => .nothing
  | .act action => .act (f action)
  | .seq first second => .seq (first.map f) (second.map f)
  | .scope d body => .scope d (body.map f)

theorem map_ofList (f : Action → Action) (actions : List Action) :
    (ofList actions).map f = ofList (actions.map f) := by
  induction actions with
  | nil => rfl
  | cons action rest ih => rw [ofList, map, ih]; rfl

theorem map_map (f g : Action → Action) (o : Outline) : (o.map f).map g = o.map (g ∘ f) := by
  induction o with
  | nothing => rfl
  | act action => rfl
  | seq first second ihf ihs => rw [map, map, map, ihf, ihs]
  | scope d body ih => rw [map, map, map, ih]

section

variable {f : Action → Action}

theorem deferred_map (h : ∀ a, (f a).deferred = a.deferred) (o : Outline) :
    (o.map f).deferred = o.deferred := by
  induction o with
  | nothing => rfl
  | act action => exact h action
  | seq first second ihf ihs => rw [map, deferred, deferred, ihf, ihs]
  | scope d body ih => rw [map, deferred, deferred, ih]

theorem asked_map (hd : ∀ a, (f a).deferred = a.deferred) (h : ∀ a, (f a).asked = a.asked)
    (o : Outline) : (o.map f).asked = o.asked := by
  induction o with
  | nothing => rfl
  | act action => exact h action
  | seq first second ihf ihs => rw [map, asked, asked, ihf, ihs]
  | scope d body ih => rw [map, asked, asked, ih, deferred_map hd]

theorem scopes_map (hd : ∀ a, (f a).deferred = a.deferred) (h : ∀ a, (f a).asked = a.asked)
    (o : Outline) : (o.map f).scopes = o.scopes := by
  induction o with
  | nothing => rfl
  | act action => rfl
  | seq first second ihf ihs => rw [map, scopes, scopes, ihf, ihs]
  | scope d body ih => rw [map, scopes, scopes, ih, asked_map hd h, deferred_map hd]

theorem targets_map (h : ∀ a, (f a).targets = a.targets) (o : Outline) :
    (o.map f).targets = o.targets := by
  induction o with
  | nothing => rfl
  | act action => exact h action
  | seq first second ihf ihs => rw [map, targets, targets, ihf, ihs]
  | scope d body ih => rw [map, targets, targets, ih]

end

end Outline

/-- The action without the range that a guard found. -/
def Action.blank : Action → Action
  | .guard g element _ => .guard g element .user
  | action => action

/-! ### Lookups on behalf of fresh nodes -/

namespace Memory

/-- The memory without the remembered lookups. -/
def forget (m : Memory) : Memory :=
  { m with cache := [] }

/-- Nothing is remembered for the given ids. -/
def Fresh (m : Memory) (ids : List UInt32) : Prop :=
  ∀ e ∈ m.cache, e.1.node ∉ ids

theorem Fresh.mono {m : Memory} {first second : List UInt32} (h : m.Fresh second)
    (sub : first ⊆ second) : m.Fresh first := fun e he hmem => h e he (sub hmem)

variable {env : Env} {m : Memory} {key : LookupKey} {range : Range}

theorem Fresh.missing (h : m.Fresh [key.node]) : ∀ e ∈ m.cache, e.1 ≠ key := by
  intro e he same
  have other : e.1.node ≠ key.node := by simpa using h e he
  exact other (same ▸ rfl)

theorem learn_of_missing (h : ∀ e ∈ m.cache, e.1 ≠ key) : (m.learn env key range).1 = range := by
  have missing : m.cache.lookup key = none := by
    rw [List.lookup_eq_none_iff]
    intro e he
    simpa using (h e he).symm
  unfold learn
  rw [missing]
  split <;> rfl

theorem forget_learn : (m.learn env key range).2.forget = m.forget := by
  unfold learn
  split
  · split <;> rfl
  · rfl

theorem cache_learn {e : LookupKey × Range} (h : e ∈ (m.learn env key range).2.cache) :
    e ∈ m.cache ∨ e.1 = key := by
  unfold learn at h
  split at h
  · split at h
    · exact Or.inl h
    · rcases List.mem_cons.1 h with rfl | h
      · exact Or.inr rfl
      · exact Or.inl h
  · exact Or.inl h

end Memory

/-- What is made from memory `m` is what is made without remembering, up to `view`, and lookups are
remembered for the given ids only. -/
structure Agrees {α β : Type} (view : α → β) (m : Memory) (ids : List UInt32)
    (made plain : α × Memory) : Prop where
  same : view made.1 = view plain.1
  memory : plain.2 = made.2.forget
  cache : ∀ e ∈ made.2.cache, e ∈ m.cache ∨ e.1.node ∈ ids

/-- Actions agree but for the ranges of guards. -/
abbrev ActionsAgree := Agrees (List.map Action.blank)

/-- Outlines agree but for the ranges of guards. -/
abbrev OutlinesAgree := Agrees (Outline.map Action.blank)

namespace Agrees

variable {m m₁ m₂ n₁ n₂ : Memory} {ids first second : List UInt32}

theorem refl {α β : Type} (view : α → β) (m : Memory) (a : α) :
    Agrees view m ids (a, m) (a, m.forget) :=
  ⟨rfl, rfl, fun _ he => Or.inl he⟩

theorem mono {α β : Type} {view : α → β} {made plain : α × Memory}
    (h : Agrees view m first made plain) (sub : first ⊆ second) :
    Agrees view m second made plain :=
  ⟨h.same, h.memory, fun e he => (h.cache e he).imp id (@sub e.1.node)⟩

/-- What was made leaves other ids fresh. -/
theorem fresh {α β : Type} {view : α → β} {made plain : α × Memory}
    (h : Agrees view m first made plain) (hf : m.Fresh (first ++ second))
    (distinct : (first ++ second).Nodup) : made.2.Fresh second := by
  intro e he hmem
  rcases h.cache e he with old | new
  · exact hf e old (List.mem_append_right first hmem)
  · exact (List.nodup_append.1 distinct).2.2 _ new _ hmem rfl

/-- One thing is made after another, and the two are put together. -/
theorem compose {α α' α'' β β' β'' : Type} {view : α → β} {view' : α' → β'} {view'' : α'' → β''}
    {made plain : α × Memory} {made' plain' : α' × Memory} {join : α → α' → α''}
    (h : Agrees view m first made plain) (h' : Agrees view' made.2 second made' plain')
    (hjoin : view made.1 = view plain.1 → view' made'.1 = view' plain'.1 →
      view'' (join made.1 made'.1) = view'' (join plain.1 plain'.1)) :
    Agrees view'' m (first ++ second) (join made.1 made'.1, made'.2)
      (join plain.1 plain'.1, plain'.2) := by
  refine ⟨hjoin h.same h'.same, h'.memory, fun e he => ?_⟩
  rw [List.mem_append]
  rcases h'.cache e he with old | new
  · exact (h.cache e old).imp id Or.inl
  · exact Or.inr (Or.inr new)

theorem seq {o p o' p' : Outline × Memory} (h : OutlinesAgree m first o p)
    (h' : OutlinesAgree o.2 second o' p') :
    OutlinesAgree m (first ++ second) (.seq o.1 o'.1, o'.2) (.seq p.1 p'.1, p'.2) :=
  h.compose h' fun hf hs => by rw [Outline.map, Outline.map, hf, hs]

theorem append {f : Action → Action} {as bs as' bs' : List Action × Memory}
    (h : Agrees (List.map f) m first as bs) (h' : Agrees (List.map f) as.2 second as' bs') :
    Agrees (List.map f) m (first ++ second) (as.1 ++ as'.1, as'.2) (bs.1 ++ bs'.1, bs'.2) :=
  h.compose h' fun hf hs => by rw [List.map_append, List.map_append, hf, hs]

theorem ofList {as bs : List Action × Memory} (h : ActionsAgree m ids as bs) :
    OutlinesAgree m ids (.ofList as.1, as.2) (.ofList bs.1, bs.2) := by
  refine ⟨?_, h.memory, h.cache⟩
  rw [Outline.map_ofList, Outline.map_ofList, h.same]

end Agrees

namespace Memory

variable {env : Env} {m : Memory} {node : UInt32} {f : Action → Action}

theorem agrees_learn (env : Env) (key : LookupKey) (range : Range) (make : Range → List Action)
    (h : ∀ e ∈ m.cache, e.1 ≠ key) :
    Agrees (List.map f) m [key.node]
      (make (m.learn env key range).1, (m.learn env key range).2) (make range, m.forget) := by
  refine ⟨by rw [learn_of_missing h], forget_learn.symm, fun e he => ?_⟩
  exact (cache_learn he).imp id fun same => by simp [same]

theorem agrees_refer {category : Category} {name : String} {argCount : Option Nat}
    (h : m.Fresh [node]) :
    Agrees (List.map f) m [node] (m.refer env node category name argCount)
      (m.forget.refer env.forgetful node category name argCount) :=
  agrees_learn env ⟨node, category, name⟩ (env.find category name argCount)
    (fun range => [.reference category name range]) h.missing

/-- The range of a guard may be one that is remembered for the same call. -/
theorem agrees_ask {guard : Guard} {args : List Expr} :
    ActionsAgree m [node] (m.ask env node guard args)
      (m.forget.ask env.forgetful node guard args) := by
  unfold ask
  cases State.firstLiteral? args with
  | none => exact .refl _ m _
  | some element =>
    refine ⟨rfl, forget_learn.symm, fun e he => ?_⟩
    exact (cache_learn he).imp id fun same => by simp [same]

theorem agrees_inspect (env : Env) (m : Memory) (node : UInt32) (function : String)
    (args : List Expr) :
    ActionsAgree m [node] (m.inspect env node function args)
      (m.forget.inspect env.forgetful node function args) := by
  unfold inspect
  split
  · exact .refl _ m _
  · cases Guard.ofFunction? function with
    | none => exact .refl _ m _
    | some guard => exact agrees_ask

theorem agrees_constants {items : List ConstItem} (distinct : (items.map ConstItem.id).Nodup)
    (h : m.Fresh (items.map ConstItem.id)) :
    Agrees (List.map f) m (items.map ConstItem.id) (m.constants env items)
      (m.forget.constants env.forgetful items) := by
  induction items generalizing m with
  | nil => exact .refl _ m _
  | cons item rest ih =>
    have fresh : m.Fresh [item.id] :=
      h.mono (List.cons_subset_cons item.id (List.nil_subset (rest.map ConstItem.id)))
    have first : Agrees (List.map f) m _ _ _ := agrees_learn env ⟨item.id, .constants, item.name⟩
      (Construct.constDecl item.value.isScalar).contribution
      (fun range => [.reference .constants item.name range]) fresh.missing
    have later := ih (List.nodup_cons.1 distinct).2 (first.fresh h distinct)
    rw [← first.memory] at later
    exact first.append later

theorem agrees_entering (m : Memory) (kind : NodeKind) :
    Agrees (List.map f) m [] (m.entering kind) (m.forget.entering kind) := by
  cases kind with
  | assign target value => exact ⟨rfl, rfl, fun _ he => Or.inl he⟩
  | _ => exact .refl _ m _

/-- What is done when a node is left is what is done without remembering, if that is so of what a
call does beyond its reference. -/
theorem agrees_leaving_of_inspect (env : Env) (m : Memory) (node : UInt32) (span : Span)
    (kind : NodeKind) (distinct : kind.itemIds.Nodup) (h : m.Fresh (node :: kind.itemIds))
    (inspect : ∀ name args, kind = .call (some name) args →
      let m := (m.refer env node .functions name.toString (some args.length)).2
      Agrees (List.map f) m [node] (m.inspect env node name.toString args)
        (m.forget.inspect env.forgetful node name.toString args)) :
    Agrees (List.map f) m (node :: kind.itemIds) (m.leaving env node span kind)
      (m.forget.leaving env.forgetful node span kind) := by
  have here : m.Fresh [node] :=
    h.mono (List.cons_subset_cons node (List.nil_subset kind.itemIds))
  have own : [node] ⊆ node :: kind.itemIds :=
    List.cons_subset_cons node (List.nil_subset kind.itemIds)
  cases kind with
  | constDecl items =>
    exact (agrees_constants distinct (h.mono (List.subset_cons_self _ _))).mono
      (List.subset_cons_self _ _)
  | call name args =>
    cases name with
    | none => exact .refl _ m _
    | some name =>
      have reference : Agrees (List.map f) m [node]
          (m.refer env node .functions name.toString (some args.length))
          (m.forget.refer env.forgetful node .functions name.toString (some args.length)) :=
        agrees_refer here
      have rest := inspect name args rfl
      dsimp only at rest
      rw [← reference.memory] at rest
      exact (reference.append rest).mono (List.append_subset.2 ⟨own, own⟩)
  | methodCall receiver name argCount =>
    cases name with
    | none => exact .refl _ m _
    | some method =>
      have same : m.forget.aliases = m.aliases := rfl
      rw [leaving, leaving, same]
      cases m.aliases.resolve? receiver with
      | none => exact .refl _ m _
      | some className => exact (agrees_refer here).mono own
  | new className argCount =>
    cases className with
    | none => exact .refl _ m _
    | some className => exact (agrees_refer here).mono own
  | constFetch name => exact (agrees_refer here).mono own
  | magicConst name => exact (agrees_refer here).mono own
  | _ => exact .refl _ m _

/-- What is done when a node is left is what is done without remembering, but for the range of a
guard. -/
theorem agrees_leaving (env : Env) (m : Memory) (node : UInt32) (span : Span) (kind : NodeKind)
    (distinct : kind.itemIds.Nodup) (h : m.Fresh (node :: kind.itemIds)) :
    ActionsAgree m (node :: kind.itemIds) (m.leaving env node span kind)
      (m.forget.leaving env.forgetful node span kind) :=
  agrees_leaving_of_inspect env m node span kind distinct h fun name args _ =>
    agrees_inspect env _ node name.toString args

end Memory

/-! ### Trees with distinct ids -/

mutual

/-- The outline of a node with distinct ids is the one that is made without remembering. -/
theorem agrees_node (env : Env) (m : Memory) :
    (node : Node) → node.ids.Nodup → m.Fresh node.ids →
      OutlinesAgree m node.ids (outlineNode env m node)
        (outlineNode env.forgetful m.forget node)
  | ⟨i, kind, span, children⟩, distinct, fresh => by
    have split : Node.ids ⟨i, kind, span, children⟩
        = Node.forestIds children ++ i :: kind.itemIds := rfl
    rw [split] at distinct fresh ⊢
    obtain ⟨below, own, -⟩ := List.nodup_append.1 distinct
    have found : Declaration.ofKind? env.forgetful m.forget.owner span kind
        = Declaration.ofKind? env m.owner span kind := rfl
    rw [outlineNode, outlineNode, found]
    cases Declaration.ofKind? env m.owner span kind with
    | none =>
      have entered : ActionsAgree m [] _ _ := Memory.agrees_entering m kind
      have under : (m.entering kind).2.Fresh (Node.forestIds children ++ i :: kind.itemIds) :=
        entered.fresh fresh distinct
      have inner := agrees_forest env (m.entering kind).2 children below
        (under.mono (List.subset_append_left _ _))
      have left := Memory.agrees_leaving env (outlineForest env (m.entering kind).2 children).2 i
        span kind (List.nodup_cons.1 own).2 (inner.fresh under distinct)
      rw [← inner.memory] at left
      rw [← entered.memory] at inner left
      exact entered.ofList.seq (inner.seq left.ofList)
    | some d =>
      have inner := agrees_forest env (m.inside d) children below
        (fresh.mono (List.subset_append_left _ _))
      refine ⟨?_, ?_, fun e he => ?_⟩
      · exact congrArg (Outline.scope d) inner.same
      · exact congrArg (m.forget.after d) inner.memory
      · exact (inner.cache e he).imp id (List.mem_append_left _)

/-- The outline of a forest with distinct ids is the one that is made without remembering. -/
theorem agrees_forest (env : Env) (m : Memory) :
    (nodes : List Node) → (Node.forestIds nodes).Nodup → m.Fresh (Node.forestIds nodes) →
      OutlinesAgree m (Node.forestIds nodes) (outlineForest env m nodes)
        (outlineForest env.forgetful m.forget nodes)
  | [], _, _ => .refl _ m _
  | node :: rest, distinct, fresh => by
    obtain ⟨here, there, -⟩ := List.nodup_append.1 distinct
    have first := agrees_node env m node here (fresh.mono (List.subset_append_left _ _))
    have second := agrees_forest env (outlineNode env m node).2 rest there
      (first.fresh fresh distinct)
    rw [← first.memory] at second
    exact first.seq second

end

/-- The outline of a tree with distinct ids is the one that is made without remembering, but for
the ranges of guards. -/
theorem outline_forgetful (env : Env) (tree : Tree) (distinct : tree.ids.Nodup) :
    (outline env tree).map .blank = (outline env.forgetful tree).map .blank :=
  (agrees_forest env { source := tree.source } tree.nodes distinct
    fun _ he => absurd he List.not_mem_nil).same

end Analyzer

end Requisite
