import Requisite.Analyzer
import Requisite.Proofs.Level

/-!
# Outlines

An outline says what the walk of a tree does to the metrics, as data: actions one after the other,
and scopes with what happens inside them. It is made by recursion on the tree. What an action is
depends on little besides the node: the name of the scope around it, the aliases known there, the
source, and the lookups that are remembered. That is the `Memory` that goes along.

An outline is read in two ways. `State.follow` carries it out on the state of an analysis. The lists
`Outline.asked`, `Outline.deferred`, `Outline.scopes` and `Outline.guarded` say what it requires and
of whom, by recursion and without any state.
-/
namespace Requisite

/-- Whether elements of a category can be declared as scopes. -/
def Category.isScope : Category → Bool
  | .namespaces | .interfaces | .traits | .classes | .methods | .functions => true
  | .extensions | .constants | .conditions => false

theorem Construct.baseline_le (c : Construct) : .baseline ≤ c.contribution.min := by
  change Version.baseline ≤ c.feature.since
  cases c.feature <;> decide

namespace Analyzer

open Code (ConstItem Expr Name Node NodeKind Param Span Tree)

/-- Category and name of an element. -/
abbrev Key := Category × String

/-- The scope of a file itself. -/
def globalKey : Key := (.namespaces, globalNamespace)

/-- The range that is looked up for a symbol. -/
def Env.find (env : Env) (category : Category) (name : String) (argCount : Option Nat) : Range :=
  (env.references category name argCount).getD .user

/-! ### Declarations -/

/-- A declaration that opens a scope. -/
structure Declaration where
  category : Category
  name : String
  /-- What the declaration requires by its shape. -/
  own : Range
  /-- The classes and interfaces that its head names, with what they require. -/
  heads : List (Key × Range) := []
  isScope : category.isScope = true
  own_ge : .baseline ≤ own.min

namespace Declaration

def key (d : Declaration) : Key := (d.category, d.name)

/-- Whether the scope keeps locals of its own. -/
def keepsLocals (d : Declaration) : Bool := Frame.keepsLocals d.category

/-- All that the declaration itself requires. -/
def ranges (d : Declaration) : List Range := d.own :: d.heads.map (·.2)

/-- The range that the entry of the declaration is widened by: both ends are raised to what the
head requires of the runtime. -/
def range (d : Declaration) : Range :=
  d.heads.foldl (fun range head => range.merge head.2.runtimeBounds) d.own

/-- All that is required of the scope: by the declaration itself, by what is asked inside it, and,
if the scope keeps locals, by what is deferred inside it. -/
def gather (d : Declaration) (asked deferred : List Range) : List Range :=
  d.ranges ++ asked ++ if d.keepsLocals then deferred else []

theorem mem_gather {d : Declaration} {asked deferred : List Range} {r : Range} :
    r ∈ d.gather asked deferred ↔ r ∈ d.ranges ∨ r ∈ asked ∨ (d.keepsLocals ∧ r ∈ deferred) := by
  unfold gather
  cases d.keepsLocals <;> simp

/-- A declaration that requires what the rules say of its shape. -/
def ofConstruct (construct : Construct) (category : Category) (name : String)
    (heads : List (Key × Range)) (isScope : category.isScope = true) : Declaration :=
  { category, name, own := construct.contribution, heads, isScope, own_ge := construct.baseline_le }

/-- A parent class in the head of a declaration. -/
def parentHead (parent : Name) : Key × Range :=
  ((.classes, parent.toString), (Construct.parentClass parent.isFullyQualified).contribution)

/-- An interface in the head of a declaration. -/
def interfaceHead (env : Env) (interface : Name) : Key × Range :=
  ((.interfaces, interface.toString), env.find .interfaces interface.toString none)

/-- The scope that a node opens, if it opens one, inside a scope called `owner`. -/
def ofKind? (env : Env) (owner : String) (span : Span) : NodeKind → Option Declaration
  | .namespaceDecl (some name) =>
    some (ofConstruct (.namespaceDecl true) .namespaces name.toString [] rfl)
  | .namespaceDecl none =>
    some {
      category := .namespaces, name := globalNamespace, own := State.coreRange
      isScope := rfl, own_ge := Std.le_refl _ }
  | .classDecl name modifiers parent interfaces =>
    some (ofConstruct (.ofClass name modifiers) .classes name.toString
      (parent.toList.map parentHead ++ interfaces.map (interfaceHead env)) rfl)
  | .interfaceDecl name parents =>
    some (ofConstruct (.interfaceDecl name.isQualified) .interfaces name.toString
      (parents.map (interfaceHead env)) rfl)
  | .traitDecl name => some (ofConstruct .traitDecl .traits name.toString [] rfl)
  | .functionDecl name =>
    some (ofConstruct (.functionDecl name.isQualified) .functions name.toString [] rfl)
  | .methodDecl name _ =>
    some (ofConstruct .methodDecl .methods (owner ++ "::" ++ name) [] rfl)
  | .closure _ => some (ofConstruct .closure .functions (State.closureName span) [] rfl)
  | _ => none

theorem ofKind?_eq_none_iff {env : Env} {owner : String} {span : Span} {kind : NodeKind} :
    ofKind? env owner span kind = none ↔ kind.isScope = false := by
  cases kind with
  | namespaceDecl name => cases name <;> simp [ofKind?, NodeKind.isScope]
  | _ => simp [ofKind?, NodeKind.isScope]

end Declaration

/-! ### Actions and outlines -/

/-- What is done on behalf of a node that opens no scope. -/
inductive Action where
  /-- A construct of the language is met. -/
  | construct (construct : Construct)
  | parameter (variadic : Bool)
  /-- A fully qualified type hint is met. -/
  | hint (className : String)
  | assign (target value : Expr)
  /-- A reference to a symbol is recorded with the range that was found for it. -/
  | reference (category : Category) (name : String) (range : Range)
  /-- A guard asks for an element, and a range is found for it. -/
  | guard (guard : Guard) (element : String) (range : Range)
  /-- A guard asks for what is only known when the code runs. -/
  | dynamicGuard
  | define (constant : String)

/-- What a tree does, in the order of its walk. -/
inductive Outline where
  | nothing
  | act (action : Action)
  | seq (first second : Outline)
  | scope (declaration : Declaration) (body : Outline)

def Outline.ofList : List Action → Outline
  | [] => .nothing
  | action :: rest => .seq (.act action) (ofList rest)

/-- The range that a fully qualified type hint requires. -/
def hintRange : Range := (Construct.typeHint true).contribution

/-! ### What is asked, and of whom -/

namespace Action

/-- What an action asks of all scopes around it. -/
def asked : Action → List Range
  | .construct c => [c.contribution]
  | .hint _ => [hintRange]
  | .reference _ _ range => [range]
  | _ => []

/-- What an action asks of the scopes from the innermost one with locals outwards. -/
def deferred : Action → List Range
  | .parameter variadic => [(Construct.parameter variadic).contribution]
  | _ => []

/-- The guarded elements with the ranges that were found for them. -/
def guarded : Action → List (Key × Range)
  | .guard g element range => [((g.category, element), range)]
  | _ => []

/-- The elements that an action names. -/
def targets : Action → List Key
  | .hint className => [(.classes, className)]
  | .reference category name _ => [(category, name)]
  | .guard g element _ => [(g.category, element)]
  | _ => []

end Action

namespace Outline

/-- What is asked of the innermost scope with locals and the scopes around that one. -/
def deferred : Outline → List Range
  | .nothing => []
  | .act action => action.deferred
  | .seq first second => first.deferred ++ second.deferred
  | .scope d body => if d.keepsLocals then [] else body.deferred

/-- What is asked of all scopes around, by whatever stands in the outline. A scope that keeps locals
makes its own what was deferred inside it. -/
def asked : Outline → List Range
  | .nothing => []
  | .act action => action.asked
  | .seq first second => first.asked ++ second.asked
  | .scope d body => d.gather body.asked body.deferred

/-- The scopes in an outline, each with all that it requires: by its declaration, and by what stands
inside it at any depth. -/
def scopes : Outline → List (Key × List Range)
  | .nothing => []
  | .act _ => []
  | .seq first second => first.scopes ++ second.scopes
  | .scope d body => (d.key, d.gather body.asked body.deferred) :: body.scopes

/-- All that a file requires. -/
def required (o : Outline) : List Range :=
  o.asked ++ o.deferred

/-- The elements that are declared as scopes. -/
def keys (o : Outline) : List Key :=
  o.scopes.map (·.1)

theorem keys_seq (first second : Outline) :
    (seq first second).keys = first.keys ++ second.keys := List.map_append

theorem isScope_of_mem_keys {o : Outline} {k : Key} (h : k ∈ o.keys) : k.1.isScope := by
  induction o with
  | nothing => simp [keys, scopes] at h
  | act action => simp [keys, scopes] at h
  | seq first second ihf ihs =>
    rw [keys_seq] at h
    exact (List.mem_append.1 h).elim ihf ihs
  | scope d body ih =>
    rcases List.mem_cons.1 h with rfl | inner
    · exact d.isScope
    · exact ih inner

theorem mem_required_seq {first second : Outline} {r : Range} :
    r ∈ (seq first second).required ↔ r ∈ first.required ∨ r ∈ second.required := by
  simp only [required, asked, deferred, List.mem_append]
  grind

theorem mem_required_scope {d : Declaration} {body : Outline} {r : Range} :
    r ∈ (scope d body).required ↔ r ∈ d.ranges ∨ r ∈ body.required := by
  simp only [required, asked, deferred, List.mem_append, Declaration.mem_gather]
  cases d.keepsLocals <;> grind

/-- The scopes of a file, the file itself among them. -/
def fileScopes (o : Outline) : List (Key × List Range) :=
  (globalKey, o.required) :: o.scopes

/-- The elements that are declared as scopes, each behind the scope right around it, for an outline
inside the scope `around`. -/
def nested (around : Key) : Outline → List (Key × Key)
  | .nothing | .act _ => []
  | .seq first second => first.nested around ++ second.nested around
  | .scope d body => (around, d.key) :: body.nested d.key

/-- The guarded elements, with the ranges that were found for them. -/
def guarded : Outline → List (Key × Range)
  | .nothing => []
  | .act action => action.guarded
  | .seq first second => first.guarded ++ second.guarded
  | .scope _ body => body.guarded

/-- The elements that are named by references, heads of declarations, type hints and guards. -/
def targets : Outline → List Key
  | .nothing => []
  | .act action => action.targets
  | .seq first second => first.targets ++ second.targets
  | .scope d body => d.heads.map (·.1) ++ body.targets

end Outline

/-! ### The outline of a tree -/

/-- What the actions of a node depend on. -/
structure Memory where
  /-- The name of the innermost scope. -/
  owner : String := globalNamespace
  source : Option String
  aliases : Aliases := {}
  cache : List (LookupKey × Range) := []

namespace Memory

/-- The range remembered for a key, or else `fresh`, remembered from now on. -/
def learn (env : Env) (m : Memory) (key : LookupKey) (fresh : Range) : Range × Memory :=
  if env.memoize then
    match m.cache.lookup key with
    | some range => (range, m)
    | none => (fresh, { m with cache := (key, fresh) :: m.cache })
  else (fresh, m)

/-- A reference on behalf of a node. -/
def refer (env : Env) (m : Memory) (node : UInt32) (category : Category) (name : String)
    (argCount : Option Nat) : List Action × Memory :=
  let (range, m) := m.learn env ⟨node, category, name⟩ (env.find category name argCount)
  ([.reference category name range], m)

/-- A call that asks whether an element exists. -/
def ask (env : Env) (m : Memory) (node : UInt32) (guard : Guard) (args : List Expr) :
    List Action × Memory :=
  match State.firstLiteral? args with
  | none => ([.dynamicGuard], m)
  | some element =>
    let (range, m) :=
      m.learn env ⟨node, guard.category, element⟩ (env.find guard.category element none)
    ([.guard guard element range], m)

/-- What a call does beyond the reference to its function. -/
def inspect (env : Env) (m : Memory) (node : UInt32) (function : String) (args : List Expr) :
    List Action × Memory :=
  if Text.sameFold function "define" then ((State.firstLiteral? args).toList.map .define, m)
  else
    match Guard.ofFunction? function with
    | none => ([], m)
    | some guard => m.ask env node guard args

/-- The references of a declaration of constants. -/
def constants (env : Env) (m : Memory) : List ConstItem → List Action × Memory
  | [] => ([], m)
  | item :: rest =>
    let (range, m) := m.learn env ⟨item.id, .constants, item.name⟩
      (Construct.constDecl item.value.isScalar).contribution
    let (actions, m) := constants env m rest
    (.reference .constants item.name range :: actions, m)

/-- The memory after an action; only assignments change it. -/
def afterAction (m : Memory) : Action → Memory
  | .assign target value => { m with aliases := m.aliases.record target value }
  | _ => m

/-- What is done when a node that opens no scope is entered. -/
def entering (m : Memory) : NodeKind → List Action × Memory
  | .param param =>
    let hints := param.typeHint.toList.filter Name.isFullyQualified
    (.parameter param.variadic :: hints.map fun hint => .hint hint.toString, m)
  | .assign target value => ([.assign target value], m.afterAction (.assign target value))
  | _ => ([], m)

/-- What is done when a node that opens no scope is left. -/
def leaving (env : Env) (m : Memory) (node : UInt32) (span : Span) :
    NodeKind → List Action × Memory
  | .new (some className) argCount =>
    m.refer env node .classes className.toString (some argCount.toNat)
  | .call (some name) args =>
    let (reference, m) := m.refer env node .functions name.toString (some args.length)
    let (rest, m) := m.inspect env node name.toString args
    (reference ++ rest, m)
  | .methodCall receiver (some method) argCount =>
    match m.aliases.resolve? receiver with
    | none => ([], m)
    | some className =>
      m.refer env node .methods (className ++ "::" ++ method) (some argCount.toNat)
  | .constFetch name => m.refer env node .constants name.toString none
  | .magicConst name => m.refer env node .constants name none
  | .constDecl items => m.constants env items
  | .useImport kind => ([.construct (.useImport kind)], m)
  | .arrayLiteral =>
    ([.construct (.arrayLiteral (State.isShortArray { source := m.source } span))], m)
  | .dimFetch base => ([.construct (.dimFetch base.isCall)], m)
  | .pow => ([.construct .exponentiation], m)
  | _ => ([], m)

/-- The memory just inside a scope: aliases are forgotten where a scope keeps its own. -/
def inside (m : Memory) (d : Declaration) : Memory :=
  { m with owner := d.name, aliases := if d.keepsLocals then {} else m.aliases }

/-- The memory just after a scope, from the memory at its end. -/
def after (m : Memory) (d : Declaration) (last : Memory) : Memory :=
  { last with owner := m.owner, aliases := if d.keepsLocals then m.aliases else last.aliases }

end Memory

mutual

/-- The outline of a node, and the memory after it. -/
def outlineNode (env : Env) (m : Memory) : Node → Outline × Memory
  | ⟨id, kind, span, children⟩ =>
    match Declaration.ofKind? env m.owner span kind with
    | some d =>
      let (body, last) := outlineForest env (m.inside d) children
      (.scope d body, m.after d last)
    | none =>
      let (first, m) := m.entering kind
      let (body, m) := outlineForest env m children
      let (last, m) := m.leaving env id span kind
      (.seq (.ofList first) (.seq body (.ofList last)), m)

/-- The outline of a forest, and the memory after it. -/
def outlineForest (env : Env) (m : Memory) : List Node → Outline × Memory
  | [] => (.nothing, m)
  | node :: rest =>
    let (first, m) := outlineNode env m node
    let (second, m) := outlineForest env m rest
    (.seq first second, m)

end

/-- The outline of a file. -/
def outline (env : Env) (tree : Tree) : Outline :=
  (outlineForest env { source := tree.source } tree.nodes).1

end Analyzer

end Requisite
