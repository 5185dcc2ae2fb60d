import Requisite.Proofs.Outline

/-!
# Elements of the code itself

An element is one of the code itself if the references know no extension for it. What is written
under the name of such an element by references, guards and declarations has nothing to do with
extensions (`Env.Fits`). By recursion over a tree this holds of its whole outline, whatever has been
remembered on the way: `fits_outline`.
-/
namespace Requisite

theorem raiseBound_eq_none_iff {a b : Option Version} :
    raiseBound a b = none ↔ a = none ∧ b = none := by
  rcases a with _ | v <;> rcases b with _ | w <;> simp [raiseBound]

namespace Range

/-- Whether a range has no bounds on an extension. -/
def Unbound (r : Range) : Prop :=
  r.extensionMin = none ∧ r.extensionMax = none

instance (r : Range) : Decidable r.Unbound :=
  inferInstanceAs (Decidable (_ ∧ _))

/-- A range that has nothing to do with extensions. -/
structure Plain (r : Range) : Prop where
  user : r.isUser
  unbound : r.Unbound

@[simp] theorem isUser_merge (a b : Range) : (a.merge b).isUser = a.isUser := by
  unfold merge
  dsimp only
  split <;> rfl

theorem unbound_merge_iff {a b : Range} :
    (a.merge b).Unbound ↔ a.Unbound ∧ (b.isUser ∨ b.Unbound) := by
  unfold merge Unbound
  cases b.isUser with
  | true => simp [require]
  | false =>
    simp only [raiseBound_eq_none_iff, require, Bool.false_eq_true, if_false, false_or]
    exact and_and_and_comm

theorem Plain.merge {a b : Range} (ha : a.Plain) (hb : b.isUser) : (a.merge b).Plain :=
  ⟨(isUser_merge a b).trans ha.user, unbound_merge_iff.2 ⟨ha.unbound, Or.inl hb⟩⟩

theorem plain_since (v : Version) : (since v).Plain := ⟨rfl, rfl, rfl⟩

theorem plain_runtimeBounds (r : Range) : r.runtimeBounds.Plain := ⟨rfl, rfl, rfl⟩

end Range

theorem Construct.plain_contribution (c : Construct) : c.contribution.Plain :=
  Range.plain_since _

namespace Analyzer

open Code (ConstItem Expr Name Node NodeKind Span Tree)

/-! ### Elements of the code itself -/

/-- An element that is none of an extension, and not the global namespace either. -/
structure Env.Native (env : Env) (k : Key) : Prop where
  isScope : k.1.isScope
  named : k ≠ globalKey
  user : ∀ argCount r, env.references k.1 k.2 argCount = some r → r.isUser

/-- Ranges that belong to no extension have no bounds on one. -/
def Env.Sound (env : Env) : Prop :=
  ∀ category name argCount r, env.references category name argCount = some r → r.isUser → r.Unbound

/-- What a range that is written under the name of an element has to be like. -/
def Env.Fits (env : Env) (k : Key) (r : Range) : Prop :=
  env.Native k → r.Plain

theorem Env.Sound.fits_find {env : Env} (sound : env.Sound) (category : Category) (name : String)
    (argCount : Option Nat) : env.Fits (category, name) (env.find category name argCount) := by
  intro native
  unfold find
  cases found : env.references category name argCount with
  | none => exact Range.plain_since _
  | some r =>
    have user := native.user argCount r found
    exact ⟨user, sound category name argCount r found user⟩

namespace Action

/-- The ranges of references and guards fit the elements that they name. -/
def Fits (env : Env) : Action → Prop
  | .reference category name range => env.Fits (category, name) range
  | .guard g element range => env.Fits (g.category, element) range
  | _ => True

end Action

/-- The ranges of a declaration and of its head fit. -/
structure Declaration.Fits (env : Env) (d : Declaration) : Prop where
  own : env.Fits d.key d.own
  heads : ∀ head ∈ d.heads, env.Fits head.1 head.2

namespace Outline

def Fits (env : Env) : Outline → Prop
  | .nothing => True
  | .act action => action.Fits env
  | .seq first second => first.Fits env ∧ second.Fits env
  | .scope d body => d.Fits env ∧ body.Fits env

theorem fits_ofList {env : Env} {actions : List Action} (h : ∀ action ∈ actions, action.Fits env) :
    (ofList actions).Fits env := by
  induction actions with
  | nil => trivial
  | cons action rest ih =>
    exact ⟨h action List.mem_cons_self, ih fun a mem => h a (List.mem_cons_of_mem _ mem)⟩

end Outline

namespace Declaration

theorem Fits.range {env : Env} {d : Declaration} (h : d.Fits env) : env.Fits d.key d.range := by
  have merged (heads : List (Key × Range)) (range : Range) (plain : range.Plain) :
      (heads.foldl (fun range head => range.merge head.2.runtimeBounds) range).Plain := by
    induction heads generalizing range with
    | nil => exact plain
    | cons head rest ih => exact ih _ (plain.merge (Range.plain_runtimeBounds head.2).user)
  exact fun native => merged d.heads d.own (h.own native)

theorem fits_ofKind? {env : Env} (sound : env.Sound) {owner : String} {span : Span}
    {kind : NodeKind} {d : Declaration} (h : ofKind? env owner span kind = some d) :
    d.Fits env := by
  have construct (c : Construct) (category : Category) (name : String)
      (heads : List (Key × Range)) (isScope : category.isScope = true)
      (fit : ∀ head ∈ heads, env.Fits head.1 head.2) :
      (ofConstruct c category name heads isScope).Fits env :=
    ⟨fun _ => c.plain_contribution, fit⟩
  have interfaces (names : List Name) :
      ∀ head ∈ names.map (interfaceHead env), env.Fits head.1 head.2 := by
    intro head mem
    obtain ⟨name, -, rfl⟩ := List.mem_map.1 mem
    exact sound.fits_find _ _ _
  have none : ∀ head ∈ ([] : List (Key × Range)), env.Fits head.1 head.2 := fun _ mem =>
    absurd mem List.not_mem_nil
  cases kind with
  | namespaceDecl name =>
    cases name with
    | some name =>
      cases h
      exact construct _ _ _ _ rfl none
    | none =>
      cases h
      -- the global namespace belongs to the core extension, but it is no element of the code
      exact ⟨fun native => absurd rfl native.named, none⟩
  | classDecl name modifiers parent parents =>
    cases h
    refine construct _ _ _ _ rfl fun head mem => ?_
    rcases List.mem_append.1 mem with parentHead | interfaceHead
    · obtain ⟨name, -, rfl⟩ := List.mem_map.1 parentHead
      exact fun _ => Construct.plain_contribution _
    · exact interfaces parents head interfaceHead
  | interfaceDecl name parents =>
    cases h
    exact construct _ _ _ _ rfl (interfaces parents)
  | traitDecl | functionDecl | methodDecl | closure =>
    cases h
    exact construct _ _ _ _ rfl none
  | param | assign | new | call | methodCall | constFetch | magicConst | constDecl | useImport
  | arrayLiteral | dimFetch | pow | other => cases h

end Declaration

/-! ### Outlines fit -/

namespace Memory

/-- What is remembered fits. -/
def Fits (env : Env) (m : Memory) : Prop :=
  ∀ e ∈ m.cache, env.Fits (e.1.category, e.1.name) e.2

/-- Actions fit, and so does what is remembered after them. -/
structure Made (env : Env) (made : List Action × Memory) : Prop where
  actions : ∀ action ∈ made.1, action.Fits env
  memory : made.2.Fits env

variable {env : Env} {m : Memory}

theorem Made.nothing (h : m.Fits env) : Made env ([], m) :=
  ⟨fun _ mem => absurd mem List.not_mem_nil, h⟩

theorem fits_learn (key : LookupKey) {fresh : Range} (h : m.Fits env)
    (fits : env.Fits (key.category, key.name) fresh) :
    env.Fits (key.category, key.name) (m.learn env key fresh).1
      ∧ (m.learn env key fresh).2.Fits env := by
  unfold learn
  split
  · cases found : m.cache.lookup key with
    | some range =>
      obtain ⟨before, after, split, -⟩ := List.lookup_eq_some_iff.1 found
      exact ⟨h (key, range) (by simp [split]), h⟩
    | none =>
      refine ⟨fits, fun e mem => ?_⟩
      rcases List.mem_cons.1 mem with rfl | old
      · exact fits
      · exact h e old
  · exact ⟨fits, h⟩

theorem Made.refer (sound : env.Sound) (h : m.Fits env) (node : UInt32) (category : Category)
    (name : String) (argCount : Option Nat) :
    Made env (m.refer env node category name argCount) := by
  obtain ⟨range, memory⟩ :=
    fits_learn ⟨node, category, name⟩ h (sound.fits_find category name argCount)
  refine ⟨fun action mem => ?_, memory⟩
  obtain rfl := List.mem_singleton.1 mem
  exact range

theorem Made.ask (sound : env.Sound) (h : m.Fits env) (node : UInt32) (guard : Guard)
    (args : List Expr) : Made env (m.ask env node guard args) := by
  unfold Memory.ask
  cases State.firstLiteral? args with
  | none =>
    refine ⟨fun action mem => ?_, h⟩
    obtain rfl := List.mem_singleton.1 mem
    trivial
  | some element =>
    obtain ⟨range, memory⟩ :=
      fits_learn ⟨node, guard.category, element⟩ h (sound.fits_find guard.category element none)
    refine ⟨fun action mem => ?_, memory⟩
    obtain rfl := List.mem_singleton.1 mem
    exact range

theorem Made.inspect (sound : env.Sound) (h : m.Fits env) (node : UInt32) (function : String)
    (args : List Expr) : Made env (m.inspect env node function args) := by
  unfold Memory.inspect
  split
  · refine ⟨fun action mem => ?_, h⟩
    obtain ⟨constant, -, rfl⟩ := List.mem_map.1 mem
    trivial
  · cases Guard.ofFunction? function with
    | none => exact .nothing h
    | some guard => exact .ask sound h node guard args

theorem Made.constants (h : m.Fits env) (items : List ConstItem) :
    Made env (m.constants env items) := by
  induction items generalizing m with
  | nil => exact .nothing h
  | cons item rest ih =>
    obtain ⟨range, memory⟩ := fits_learn ⟨item.id, .constants, item.name⟩ h
      (fun _ => Construct.plain_contribution (.constDecl item.value.isScalar))
    have later := ih memory
    refine ⟨fun action mem => ?_, later.memory⟩
    rcases List.mem_cons.1 mem with rfl | mem
    · exact range
    · exact later.actions action mem

theorem Made.construct (h : m.Fits env) (c : Construct) : Made env ([.construct c], m) := by
  refine ⟨fun action mem => ?_, h⟩
  obtain rfl := List.mem_singleton.1 mem
  trivial

theorem Made.entering (h : m.Fits env) (kind : NodeKind) : Made env (m.entering kind) := by
  cases kind with
  | param param =>
    refine ⟨fun action mem => ?_, h⟩
    rcases List.mem_cons.1 mem with rfl | hint
    · trivial
    · obtain ⟨name, -, rfl⟩ := List.mem_map.1 hint
      trivial
  | assign target value =>
    refine ⟨fun action mem => ?_, h⟩
    obtain rfl := List.mem_singleton.1 mem
    trivial
  | _ => exact .nothing h

theorem Made.leaving (sound : env.Sound) (h : m.Fits env) (node : UInt32) (span : Span)
    (kind : NodeKind) : Made env (m.leaving env node span kind) := by
  cases kind with
  | new className argCount =>
    cases className with
    | none => exact .nothing h
    | some className => exact .refer sound h ..
  | call name args =>
    cases name with
    | none => exact .nothing h
    | some name =>
      have reference := Made.refer sound h node .functions name.toString (some args.length)
      have rest := Made.inspect sound reference.memory node name.toString args
      refine ⟨fun action mem => ?_, rest.memory⟩
      exact (List.mem_append.1 mem).elim (reference.actions action) (rest.actions action)
  | methodCall receiver name argCount =>
    cases name with
    | none => exact .nothing h
    | some method =>
      rw [Memory.leaving]
      cases m.aliases.resolve? receiver with
      | none => exact .nothing h
      | some className => exact .refer sound h ..
  | constFetch | magicConst => exact .refer sound h ..
  | constDecl items => exact .constants h items
  | useImport | arrayLiteral | dimFetch | pow => exact .construct h _
  | _ => exact .nothing h

end Memory

mutual

theorem fits_outlineNode {env : Env} (sound : env.Sound) (m : Memory) (h : m.Fits env) :
    (node : Node) → (outlineNode env m node).1.Fits env ∧ (outlineNode env m node).2.Fits env
  | ⟨id, kind, span, children⟩ => by
    rw [outlineNode]
    cases found : Declaration.ofKind? env m.owner span kind with
    | some d =>
      obtain ⟨body, memory⟩ := fits_outlineForest sound (m.inside d) h children
      exact ⟨⟨Declaration.fits_ofKind? sound found, body⟩, memory⟩
    | none =>
      have entered := Memory.Made.entering h kind
      obtain ⟨body, memory⟩ :=
        fits_outlineForest sound (m.entering kind).2 entered.memory children
      have left := Memory.Made.leaving sound memory id span kind
      exact ⟨⟨Outline.fits_ofList entered.actions, body, Outline.fits_ofList left.actions⟩,
        left.memory⟩

theorem fits_outlineForest {env : Env} (sound : env.Sound) (m : Memory) (h : m.Fits env) :
    (nodes : List Node) →
      (outlineForest env m nodes).1.Fits env ∧ (outlineForest env m nodes).2.Fits env
  | [] => ⟨trivial, h⟩
  | node :: rest => by
    obtain ⟨first, between⟩ := fits_outlineNode sound m h node
    obtain ⟨second, after⟩ := fits_outlineForest sound (outlineNode env m node).2 between rest
    exact ⟨⟨first, second⟩, after⟩

end

theorem fits_outline {env : Env} (sound : env.Sound) (tree : Tree) : (outline env tree).Fits env :=
  (fits_outlineForest sound { source := tree.source }
    (fun _ mem => absurd mem List.not_mem_nil) tree.nodes).1

end Analyzer

end Requisite
