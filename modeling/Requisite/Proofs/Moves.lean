import Requisite.Proofs.Follow

/-!
# What a call can do

The analysis is driven by calls: a file is begun, nodes are entered and left, the file is ended. No
order of the calls is taken for granted here, and no tree stands behind them.

Whatever is done when a node is entered, and when a node is left that opens no scope, is made of a
few kinds of changes. `Moves` lists them, and `Moves.enter` and `Moves.leave` go once through all
that can be met in a node. The other calls close scopes, or begin or end a file. So what every move
keeps is kept by every call, but for these.

Nothing that an analysis has found is ever taken back. `Range.GrowsAt` says how an entry of the
table may change, and counters only count upwards.
-/
namespace Requisite

namespace Bound

theorem atMost_refl (a : Option Version) : atMost a a := by
  cases a with
  | none => trivial
  | some v => exact Std.le_refl v

theorem atMost_trans {a b c : Option Version} (hab : atMost a b) (hbc : atMost b c) :
    atMost a c := by
  rcases a with _ | x
  · trivial
  · rcases b with _ | y
    · exact hab.elim
    · rcases c with _ | z
      · exact hbc.elim
      · exact Std.le_trans hab hbc

theorem atMost_raiseBound (a b : Option Version) : atMost a (raiseBound a b) := by
  rcases a with _ | v
  · trivial
  · rcases b with _ | w
    · exact Std.le_refl v
    · exact Version.le_raise_iff.2 (Or.inl (Std.le_refl v))

theorem atMost_raiseBound_right (a b : Option Version) : atMost b (raiseBound a b) := by
  rcases b with _ | w
  · trivial
  · rcases a with _ | v
    · exact Std.le_refl w
    · exact Version.le_raise_iff.2 (Or.inr (Std.le_refl w))

end Bound

namespace Requirement

theorem le_refl (r : Requirement) : r ≤ r :=
  le_iff_reaches.2 fun _ h => h

theorem le_trans {p q r : Requirement} (hpq : p ≤ q) (hqr : q ≤ r) : p ≤ r :=
  le_iff_reaches.2 fun l h => le_iff_reaches.1 hqr l (le_iff_reaches.1 hpq l h)

theorem le_widen (q : Requirement) (r : Range) : q ≤ q.widen r :=
  le_iff_reaches.2 fun _ h => reaches_widen.2 (Or.inl h)

end Requirement

namespace Analyzer

open Code (ConstItem Expr Modifiers Name Node NodeKind Param)

/-! ### Counters -/

namespace Stats

def fields : List (Stats → Nat) :=
  [filesAnalyzed, nodesVisited, referencesResolved, cacheHits, guardedReferences,
    unresolvedMethodCalls, dynamicNamesSkipped]

/-- No counter is lower in the second than in the first. -/
instance : LE Stats where
  le a b := ∀ field ∈ fields, field a ≤ field b

theorem le_refl (a : Stats) : a ≤ a := fun field _ => Nat.le_refl (field a)

theorem le_trans {a b c : Stats} (hab : a ≤ b) (hbc : b ≤ c) : a ≤ c := fun field h =>
  Nat.le_trans (hab field h) (hbc field h)

theorem le_iff {a b : Stats} :
    a ≤ b ↔ a.filesAnalyzed ≤ b.filesAnalyzed ∧ a.nodesVisited ≤ b.nodesVisited
      ∧ a.referencesResolved ≤ b.referencesResolved ∧ a.cacheHits ≤ b.cacheHits
      ∧ a.guardedReferences ≤ b.guardedReferences
      ∧ a.unresolvedMethodCalls ≤ b.unresolvedMethodCalls
      ∧ a.dynamicNamesSkipped ≤ b.dynamicNamesSkipped := by
  change (∀ field ∈ fields, field a ≤ field b) ↔ _
  simp [fields]

end Stats

/-! ### Entries -/

/-- How the entry of `k` may change: it keeps its extension and the excluded releases, and of the
rest nothing is taken back. At the end of each file the global namespace has the lower bound on its
extension set anew. -/
structure GrowsAt (k : Key) (r r' : Range) : Prop where
  extension : r'.extension = r.extension
  excluded : r'.excluded = r.excluded
  requirement : r.requirement ≤ r'.requirement
  extensionMin : k ≠ globalKey → Bound.atMost r.extensionMin r'.extensionMin
  extensionMax : Bound.atMost r.extensionMax r'.extensionMax
  usageCount : r.usageCount ≤ r'.usageCount
  optional : r.optional → r'.optional

namespace GrowsAt

variable {k : Key}

theorem refl (k : Key) (r : Range) : GrowsAt k r r :=
  ⟨rfl, rfl, Requirement.le_refl _, fun _ => Bound.atMost_refl _, Bound.atMost_refl _,
    Nat.le_refl _, id⟩

theorem trans {a b c : Range} (hab : GrowsAt k a b) (hbc : GrowsAt k b c) : GrowsAt k a c where
  extension := hbc.extension.trans hab.extension
  excluded := hbc.excluded.trans hab.excluded
  requirement := Requirement.le_trans hab.requirement hbc.requirement
  extensionMin other := Bound.atMost_trans (hab.extensionMin other) (hbc.extensionMin other)
  extensionMax := Bound.atMost_trans hab.extensionMax hbc.extensionMax
  usageCount := Nat.le_trans hab.usageCount hbc.usageCount
  optional marked := hbc.optional (hab.optional marked)

theorem merge (k : Key) (r other : Range) : GrowsAt k r (r.merge other) := by
  have requirement : r.requirement ≤ (r.merge other).requirement := by
    rw [Range.requirement_merge]
    exact Requirement.le_widen _ _
  unfold Range.merge at requirement ⊢
  cases user : other.isUser with
  | true =>
    rw [user] at requirement
    exact ⟨rfl, rfl, requirement, fun _ => Bound.atMost_refl _, Bound.atMost_refl _,
      Nat.le_refl _, id⟩
  | false =>
    rw [user] at requirement
    exact ⟨rfl, rfl, requirement, fun _ => Bound.atMost_raiseBound _ _,
      Bound.atMost_raiseBound _ _, Nat.le_refl _, id⟩

theorem use (k : Key) (r : Range) : GrowsAt k r { r with usageCount := r.usageCount + 1 } :=
  { refl k r with usageCount := Nat.le_succ _ }

theorem makeOptional (k : Key) (r : Range) : GrowsAt k r { r with optional := true } :=
  { refl k r with optional := fun _ => rfl }

end GrowsAt

/-! ### Moves -/

/-- From one state to another by changes that close no scope, give no warning and leave the overall
requirement as it is. -/
inductive Moves : State → State → Prop where
  | refl (s : State) : Moves s s
  | trans {s t u : State} (hst : Moves s t) (htu : Moves t u) : Moves s u
  | note (s : State) {n : Notice} (debug : n.severity = .debug) : Moves s (s.note n)
  | count (s : State) {f : Stats → Stats} (grows : ∀ stats, stats ≤ f stats) :
    Moves s (s.count f)
  | store (s : State) (cache : List (LookupKey × Range)) : Moves s { s with cache }
  | write (s : State) (category : Category) (name : String) (range : Range)
    {change : Range → Range} (grows : ∀ r, GrowsAt (category, name) r (change r)) :
    Moves s (s.modifyElements fun t => t.updateWith category name range change)
  | modify (s : State) (f : Locals → Locals) :
    Moves s { s with scopes := s.scopes.modifyLocals f }
  | push (s : State) (category : Category) (name : String) :
    Moves s { s with scopes := s.scopes.push category name }

namespace Moves

variable {s : State}

theorem update (s : State) (category : Category) (name : String) (range : Range) :
    Moves s (s.update category name range) :=
  write s category name range fun r => .refl _ r

theorem use (s : State) (category : Category) (name : String) (range : Range) :
    Moves s (s.use category name range) :=
  write s category name range fun r => .use _ r

theorem makeOptional (s : State) (category : Category) (name : String) (range : Range) :
    Moves s (s.modifyElements fun t => t.makeOptional category name range) :=
  write s category name range fun r => .makeOptional _ r

theorem mergeIntoCurrent (s : State) (range : Range) : Moves s (s.mergeIntoCurrent range) :=
  update s _ _ range

theorem accumulate (s : State) (range : Range) :
    Moves s { s with scopes := s.scopes.accumulate range } :=
  modify s _

theorem skipDynamic (s : State) : Moves s s.skipDynamic :=
  count s fun _ => Stats.le_iff.2 (by simp)

theorem foldl {α : Type} {f : State → α → State} (step : ∀ s a, Moves s (f s a)) (items : List α)
    (s : State) : Moves s (items.foldl f s) := by
  induction items generalizing s with
  | nil => exact refl s
  | cons item rest ih => exact (step s item).trans (ih (f s item))

/-! ### References -/

theorem remember {env : Env} {key : LookupKey} {compute : State → Range × State}
    (computed : Moves s (compute s).2) : Moves s (s.remember env key compute).2 := by
  unfold State.remember
  split
  · split
    · dsimp only
      exact count s fun _ => Stats.le_iff.2 (by simp)
    · exact computed.trans (store _ _)
  · exact computed

theorem lookup (env : Env) (s : State) (node : UInt32) (category : Category) (name : String)
    (argCount : Option Nat) : Moves s (s.lookup env node category name argCount).2 :=
  remember (note s rfl)

/-- What is required goes into the accumulator or into the entry of the innermost scope. -/
theorem require (s : State) (requirement : Range) :
    Moves s (if s.scopes.ownsLocals then { s with scopes := s.scopes.accumulate requirement }
      else s.mergeIntoCurrent requirement) := by
  split
  · exact accumulate s requirement
  · exact mergeIntoCurrent s requirement

theorem recordReference (s : State) (category : Category) (name : String) (range : Range) :
    Moves s (s.recordReference category name range) := by
  let counted := s.count fun stats =>
    { stats with referencesResolved := stats.referencesResolved + 1 }
  have used : Moves s (counted.use category name range) :=
    (count s fun _ => Stats.le_iff.2 (by simp)).trans (use counted category name range)
  have credited : Moves s (if range.isUser then counted.use category name range
      else (counted.use category name range).update .extensions range.extension
        { range with excluded := ∅ }) := by
    split
    · exact used
    · exact used.trans (update _ _ _ _)
  exact credited.trans (require _ range.runtimeBounds)

theorem resolveReference (env : Env) (s : State) (node : UInt32) (category : Category)
    (name : String) (argCount : Option Nat) :
    Moves s (s.resolveReference env node category name argCount) :=
  (lookup env s node category name argCount).trans (recordReference _ category name _)

theorem registerGuard (env : Env) (s : State) (node : UInt32) (guard : Guard)
    (args : List Expr) : Moves s (s.registerGuard env node guard args) := by
  unfold State.registerGuard
  split
  · exact (note s rfl).trans (skipDynamic _)
  · rename_i element _
    have found := lookup env s node guard.category element none
    refine trans ?_ (count _ fun _ => Stats.le_iff.2 (by simp))
    exact (found.trans (makeOptional _ _ _ _)).trans (use _ _ _ _)

theorem registerDefine (s : State) (args : List Expr) : Moves s (s.registerDefine args) := by
  unfold State.registerDefine
  split
  · exact (note s rfl).trans (skipDynamic _)
  · exact update s _ _ _

/-! ### Entering nodes -/

theorem enterScope (s : State) (category : Category) (name : String) (range : Range) :
    Moves s (s.enterScope category name range) :=
  (update s category name range).trans (push _ category name)

theorem inheritInterfaces (env : Env) (s : State) (range : Range) (interfaces : List Name) :
    Moves s (s.inheritInterfaces env range interfaces).2 := by
  induction interfaces generalizing s range with
  | nil => exact refl s
  | cons interface rest ih =>
    have first : Moves s ((s.consult env .interfaces interface.toString none).2.use .interfaces
        interface.toString (s.consult env .interfaces interface.toString none).1) :=
      (note s rfl).trans (use _ _ _ _)
    exact first.trans (ih _ _)

theorem enterClass (env : Env) (s : State) (name : Name) (modifiers : Modifiers)
    (parent : Option Name) (interfaces : List Name) :
    Moves s (s.enterClass env name modifiers parent interfaces) := by
  cases parent with
  | none => exact (inheritInterfaces env s _ interfaces).trans (enterScope _ _ _ _)
  | some parent =>
    have used := use s .classes parent.toString
      (Construct.parentClass parent.isFullyQualified).contribution
    exact (used.trans (inheritInterfaces env _ _ interfaces)).trans (enterScope _ _ _ _)

theorem enterParam (s : State) (param : Param) : Moves s (s.enterParam param) := by
  have saved : Moves s (if (Construct.parameter param.variadic).isSignificant then
      { s with scopes := s.scopes.accumulate (Construct.parameter param.variadic).contribution }
      else s) := by
    split
    · exact accumulate s _
    · exact refl s
  unfold State.enterParam
  dsimp only
  split
  · exact saved
  · split
    · exact (saved.trans (mergeIntoCurrent _ _)).trans (use _ _ _ _)
    · exact saved

/-- Entering a node is made of moves. -/
theorem enter (env : Env) (s : State) (node : Node) : Moves s (s.enter env node) := by
  obtain ⟨id, kind, span, children⟩ := node
  have counted : Moves s
      (s.count fun stats => { stats with nodesVisited := stats.nodesVisited + 1 }) :=
    count s fun _ => Stats.le_iff.2 (by simp)
  refine counted.trans ?_
  cases kind with
  | namespaceDecl name => cases name <;> exact enterScope _ _ _ _
  | classDecl name modifiers parent interfaces => exact enterClass env _ _ _ _ _
  | interfaceDecl name parents =>
    exact (inheritInterfaces env _ _ parents).trans (enterScope _ _ _ _)
  | traitDecl | functionDecl | methodDecl | closure => exact enterScope _ _ _ _
  | param param => exact enterParam _ param
  | assign target value => exact modify _ _
  | new | call | methodCall | constFetch | magicConst | constDecl | useImport | arrayLiteral
  | dimFetch | pow | other => exact refl _

/-! ### Leaving nodes -/

theorem apply (s : State) (construct : Construct) : Moves s (s.apply construct) := by
  unfold State.apply
  split
  · exact mergeIntoCurrent s _
  · exact refl s

theorem leaveCall (env : Env) (s : State) (node : UInt32) (name : Option Name)
    (args : List Expr) : Moves s (s.leaveCall env node name args) := by
  cases name with
  | none => exact skipDynamic s
  | some name =>
    have resolved := resolveReference env s node .functions name.toString (some args.length)
    unfold State.leaveCall
    dsimp only
    split
    · exact resolved.trans (registerDefine _ args)
    · split
      · exact resolved.trans (registerGuard env _ node _ args)
      · exact resolved

theorem leaveMethodCall (env : Env) (s : State) (node : UInt32) (receiver : Expr)
    (method : Option String) (argCount : Nat) :
    Moves s (s.leaveMethodCall env node receiver method argCount) := by
  unfold State.leaveMethodCall
  split
  · exact skipDynamic s
  · split
    · exact (note s rfl).trans (count _ fun _ => Stats.le_iff.2 (by simp))
    · exact resolveReference env s node _ _ _

theorem leaveConstants (env : Env) (s : State) (items : List ConstItem) :
    Moves s (s.leaveConstants env items) :=
  foldl (fun s _ => (remember (refl s)).trans (recordReference _ _ _ _)) items s

/-- Leaving a node that opens no scope is made of moves. -/
theorem leave (env : Env) (s : State) (node : Node) (plain : node.kind.isScope = false) :
    Moves s (s.leave env node) := by
  obtain ⟨id, kind, span, children⟩ := node
  cases kind with
  | namespaceDecl | classDecl | interfaceDecl | traitDecl | functionDecl | methodDecl
  | closure => cases plain
  | new className argCount =>
    cases className with
    | none => exact skipDynamic s
    | some className => exact resolveReference env s _ _ _ _
  | call name args => exact leaveCall env s id name args
  | methodCall receiver name argCount => exact leaveMethodCall env s id receiver name _
  | constFetch | magicConst => exact resolveReference env s _ _ _ _
  | constDecl items => exact leaveConstants env s items
  | useImport | arrayLiteral | dimFetch | pow => exact apply s _
  | param | assign | other => exact refl s

end Moves

/-- Leaving a node that opens a scope closes the innermost scope. -/
theorem State.leave_scope (env : Env) (s : State) {node : Node} (h : node.kind.isScope) :
    s.leave env node = s.leaveScope := by
  obtain ⟨id, kind, span, children⟩ := node
  cases kind with
  | namespaceDecl | classDecl | interfaceDecl | traitDecl | functionDecl | methodDecl
  | closure => rfl
  | param | assign | new | call | methodCall | constFetch | magicConst | constDecl | useImport
  | arrayLiteral | dimFetch | pow | other => cases h

end Analyzer

end Requisite
