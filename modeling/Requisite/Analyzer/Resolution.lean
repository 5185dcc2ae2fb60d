import Requisite.Analyzer.State
import Requisite.Guard

/-!
# References

A reference to a symbol is looked up, counted, credited to its extension, and folded into the scope
around it with its bounds on the runtime only. An existence guard marks what it asks for as optional
and asks nothing of the scope around it.
-/
namespace Requisite.Analyzer.State

/-- Asks for the range of a symbol; what is not known is defined by the code. -/
def consult (env : Env) (s : State) (category : Category) (name : String)
    (argCount : Option Nat) : Range × State :=
  let found := env.references category name argCount
  (found.getD .user, s.note (.lookedUp category name argCount found.isSome))

/-- The range that was remembered for a key, or else the computed one, remembered from now on. -/
def remember (env : Env) (s : State) (key : LookupKey) (compute : State → Range × State) :
    Range × State :=
  if env.memoize then
    match s.cache.lookup key with
    | some range =>
      (range, s.count fun stats => { stats with cacheHits := stats.cacheHits + 1 })
    | none =>
      let (range, s) := compute s
      (range, { s with cache := (key, range) :: s.cache })
  else compute s

/-- Looks up a symbol on behalf of a node. -/
def lookup (env : Env) (s : State) (node : UInt32) (category : Category) (name : String)
    (argCount : Option Nat) : Range × State :=
  s.remember env ⟨node, category, name⟩ fun s => s.consult env category name argCount

/-- Counts a use of an element, credits its extension, and folds its bounds on the runtime into the
innermost scope. -/
def recordReference (s : State) (category : Category) (name : String) (range : Range) : State :=
  let s := s.count fun stats => { stats with referencesResolved := stats.referencesResolved + 1 }
  let s := s.use category name range
  let s :=
    if range.isUser then s
    else s.update .extensions range.extension { range with excluded := ∅ }
  let requirement := range.runtimeBounds
  if s.scopes.ownsLocals then { s with scopes := s.scopes.accumulate requirement }
  else s.mergeIntoCurrent requirement

/-- Looks up a symbol on behalf of a node and records the reference. -/
def resolveReference (env : Env) (s : State) (node : UInt32) (category : Category) (name : String)
    (argCount : Option Nat) : State :=
  let (range, s) := s.lookup env node category name argCount
  s.recordReference category name range

/-- The text of the first argument, if it is a literal. -/
def firstLiteral? (args : List Code.Expr) : Option String :=
  args.head?.bind Code.Expr.literal?

/-- Records a call that asks whether an element exists. -/
def registerGuard (env : Env) (s : State) (node : UInt32) (guard : Guard)
    (args : List Code.Expr) : State :=
  match firstLiteral? args with
  | none => (s.note (.guardWithoutLiteral guard.function s.file)).skipDynamic
  | some element =>
    let (range, s) := s.lookup env node guard.category element none
    let s := s.modifyElements fun t => t.makeOptional guard.category element range
    let s := s.use .conditions (guard.condition element) range
    s.count fun stats => { stats with guardedReferences := stats.guardedReferences + 1 }

/-- Records a call of `define` as a constant of the code. -/
def registerDefine (s : State) (args : List Code.Expr) : State :=
  match firstLiteral? args with
  | none => (s.note (.defineWithoutLiteral s.file)).skipDynamic
  | some constant => s.update .constants constant .user

end Requisite.Analyzer.State
