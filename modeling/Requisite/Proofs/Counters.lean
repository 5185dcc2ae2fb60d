import Requisite.Proofs.Marks
import Requisite.Proofs.Sites
import Requisite.Proofs.Walk

/-!
# Counters

The counters of an analysis are spread over all of its steps: a call is one reference, and may be a
guard, a definition or a skipped name besides. Here they are added up. Each step adds the `tally` of
the visit it belongs to, so a walk adds the tally of its visits (`stats_forest`) and a run the
tallies of its trees (`stats_analyzeAll`). Only the hits depend on the order of lookups within a
tree, and none on another tree.

With the marks of the table this accounts for every site of a run: `sites_counted_once`.
-/
namespace Requisite.Analyzer

open Code (ConstItem Event Expr Name Node NodeKind Param Span Tree)

namespace Stats

instance : Add Stats where
  add a b :=
    { filesAnalyzed := a.filesAnalyzed + b.filesAnalyzed
      nodesVisited := a.nodesVisited + b.nodesVisited
      referencesResolved := a.referencesResolved + b.referencesResolved
      cacheHits := a.cacheHits + b.cacheHits
      guardedReferences := a.guardedReferences + b.guardedReferences
      unresolvedMethodCalls := a.unresolvedMethodCalls + b.unresolvedMethodCalls
      dynamicNamesSkipped := a.dynamicNamesSkipped + b.dynamicNamesSkipped }

theorem add_def (a b : Stats) :
    a + b =
      { filesAnalyzed := a.filesAnalyzed + b.filesAnalyzed
        nodesVisited := a.nodesVisited + b.nodesVisited
        referencesResolved := a.referencesResolved + b.referencesResolved
        cacheHits := a.cacheHits + b.cacheHits
        guardedReferences := a.guardedReferences + b.guardedReferences
        unresolvedMethodCalls := a.unresolvedMethodCalls + b.unresolvedMethodCalls
        dynamicNamesSkipped := a.dynamicNamesSkipped + b.dynamicNamesSkipped } := rfl

protected theorem add_assoc (a b c : Stats) : a + b + c = a + (b + c) := by
  simp only [add_def, Nat.add_assoc]

protected theorem add_comm (a b : Stats) : a + b = b + a := by
  simp only [add_def, Nat.add_comm]

protected theorem add_left_comm (a b c : Stats) : a + (b + c) = b + (a + c) := by
  rw [← Stats.add_assoc, ← Stats.add_assoc, Stats.add_comm a b]

@[simp] protected theorem add_zero (a : Stats) : a + {} = a := rfl

end Stats

/-! ### What visits add -/

/-- How many of the lookups are answered by what is remembered. -/
def Env.hits (env : Env) (seen : List LookupKey) : List LookupKey → Nat
  | [] => 0
  | key :: rest => (if env.memoize ∧ key ∈ seen then 1 else 0) + env.hits (env.see seen key) rest

theorem Env.hits_append (env : Env) (seen first second : List LookupKey) :
    env.hits seen (first ++ second)
      = env.hits seen first + env.hits (first.foldl env.see seen) second := by
  induction first generalizing seen with
  | nil => simp [hits]
  | cons key rest ih => simp only [List.cons_append, hits, ih, List.foldl_cons, Nat.add_assoc]

/-- What leaving a node adds to the counters, where some lookups are remembered. -/
def Visit.tally (env : Env) (seen : List LookupKey) (v : Visit) : Stats :=
  { referencesResolved := v.references.length
    cacheHits := env.hits seen v.lookups
    guardedReferences := v.guards.length
    unresolvedMethodCalls := v.isUnresolved.toNat
    dynamicNamesSkipped := v.isDynamic.toNat + v.lacksLiteral.toNat }

namespace State

theorem stats_remember {env : Env} {s : State} {key : LookupKey} {compute : State → Range × State}
    (h : (compute s).2.stats = s.stats) :
    (s.remember env key compute).2.stats
      = s.stats + { cacheHits := env.hits s.memory.seen [key] } := by
  have found : s.cache.lookup key = none ↔ key ∉ s.memory.seen := s.memory.lookup_eq_none_iff
  unfold remember
  cases memoize : env.memoize with
  | false => simpa [Env.hits, memoize] using h
  | true =>
    cases remembered : s.cache.lookup key with
    | none => simpa [Env.hits, found.1 remembered] using h
    | some range =>
      have known : key ∈ s.memory.seen := by
        grind
      simp [Env.hits, memoize, known, count, Stats.add_def]

theorem stats_lookup (env : Env) (s : State) (node : UInt32) (category : Category) (name : String)
    (argCount : Option Nat) :
    (s.lookup env node category name argCount).2.stats
      = s.stats + { cacheHits := env.hits s.memory.seen [⟨node, category, name⟩] } :=
  stats_remember rfl

theorem stats_recordReference (s : State) (category : Category) (name : String) (range : Range) :
    (s.recordReference category name range).stats = s.stats + { referencesResolved := 1 } := by
  unfold recordReference
  cases range.isUser <;> cases owns : s.scopes.ownsLocals <;>
    simp [owns, count, use, update, modifyElements, mergeIntoCurrent, Stats.add_def]

theorem stats_resolveReference (env : Env) (s : State) (node : UInt32) (category : Category)
    (name : String) (argCount : Option Nat) :
    (s.resolveReference env node category name argCount).stats
      = s.stats + { referencesResolved := 1
                    cacheHits := env.hits s.memory.seen [⟨node, category, name⟩] } := by
  have looked := stats_lookup env s node category name argCount
  rw [resolveReference, stats_recordReference, looked, Stats.add_assoc]
  rfl

/-- What a call comes to beyond its reference: the definition of a constant, a guard, or nothing. -/
theorem stats_inspect (env : Env) (s : State) (node : UInt32) (function : String)
    (args : List Expr) :
    (if Text.sameFold function "define" then s.registerDefine args
      else match Guard.ofFunction? function with
        | some guard => s.registerGuard env node guard args
        | none => s).stats
      = s.stats +
        { cacheHits := env.hits s.memory.seen
            (((guardsOf function args).map guardKey).map fun k => ⟨node, k.1, k.2⟩)
          guardedReferences := (guardsOf function args).length
          dynamicNamesSkipped := ((Text.sameFold function "define"
            || (Guard.ofFunction? function).isSome) && (firstLiteral? args).isNone).toNat } := by
  unfold guardsOf
  cases guard : Guard.ofFunction? function with
  | none =>
    cases Text.sameFold function "define" with
    | false => rfl
    | true =>
      unfold registerDefine
      cases firstLiteral? args <;> rfl
  | some g =>
    rw [Guard.not_define guard]
    change (s.registerGuard env node g args).stats = _
    unfold registerGuard
    cases firstLiteral? args with
    | none => rfl
    | some element =>
      have looked := stats_lookup env s node g.category element none
      change (s.lookup env node g.category element none).2.stats + { guardedReferences := 1 } = _
      rw [looked, Stats.add_assoc]
      rfl

/-- A call adds its reference, and what it comes to besides. -/
theorem stats_leaveCall (env : Env) (s : State) (node : UInt32) (name : Name) (args : List Expr)
    (aliases : Aliases) :
    (s.leaveCall env node (some name) args).stats
      = s.stats + Visit.tally env s.memory.seen ⟨node, .call (some name) args, aliases⟩ := by
  let key : LookupKey := ⟨node, .functions, name.toString⟩
  let referred := s.resolveReference env node .functions name.toString (some args.length)
  have seen : referred.memory.seen = env.see s.memory.seen key := by
    rw [(follows_resolveReference env s node .functions name.toString (some args.length)).memory]
    exact (Memory.accords_refer env s.memory node .functions name.toString (some args.length)).seen
  have resolved : referred.stats = s.stats +
      { referencesResolved := 1, cacheHits := env.hits s.memory.seen [key] } :=
    stats_resolveReference ..
  refine (stats_inspect env referred node name.toString args).trans ?_
  rw [resolved, seen, Stats.add_assoc]
  simp [Stats.add_def, Visit.tally, Visit.references, Visit.lookups, Visit.guards, Env.hits,
    Visit.isUnresolved, Visit.isDynamic, Visit.lacksLiteral, key]

theorem stats_leaveConstants (env : Env) (s : State) (items : List ConstItem) :
    (s.leaveConstants env items).stats
      = s.stats + { referencesResolved := items.length
                    cacheHits := env.hits s.memory.seen
                      (items.map fun item => ⟨item.id, .constants, item.name⟩) } := by
  induction items generalizing s with
  | nil => rfl
  | cons item rest ih =>
    let key : LookupKey := ⟨item.id, .constants, item.name⟩
    let fresh := (Construct.constDecl item.value.isScalar).contribution
    let stored := s.remember env key fun s => (fresh, s)
    have hit : stored.2.stats = s.stats + { cacheHits := env.hits s.memory.seen [key] } :=
      stats_remember rfl
    have seen : stored.2.memory.seen = env.see s.memory.seen key := by
      obtain ⟨-, -, memory⟩ : stored.1 = (s.memory.learn env key fresh).1
          ∧ stored.2.bare = s.bare ∧ stored.2.memory = (s.memory.learn env key fresh).2 :=
        remember_eq rfl rfl rfl
      rw [memory, Memory.seen_learn]
    have later := ih (stored.2.recordReference .constants item.name stored.1)
    rw [stats_recordReference, memory_recordReference, hit, seen] at later
    refine later.trans ?_
    simp only [Stats.add_def, Stats.mk.injEq, List.length_cons, List.map_cons, Env.hits, key,
      true_and, and_true]
    omega

theorem stats_leaveMethodCall (env : Env) (s : State) (node : UInt32) (receiver : Expr)
    (method : String) (argCount : UInt64) :
    (s.leaveMethodCall env node receiver (some method) argCount.toNat).stats
      = s.stats + Visit.tally env s.memory.seen
        ⟨node, .methodCall receiver (some method) argCount, s.memory.aliases⟩ := by
  have known : s.memory.aliases.resolve? receiver = s.scopes.locals.aliases.resolve? receiver := rfl
  unfold leaveMethodCall
  cases resolved : s.scopes.locals.aliases.resolve? receiver with
  | none =>
    rw [resolved] at known
    simp [Visit.tally, Visit.references, Visit.lookups, Visit.guards, Visit.isUnresolved,
      Visit.isDynamic, Visit.lacksLiteral, known, Env.hits, count, note, Stats.add_def]
  | some className =>
    rw [resolved] at known
    refine (stats_resolveReference ..).trans ?_
    simp [Visit.tally, Visit.references, Visit.lookups, Visit.guards, Visit.isUnresolved,
      Visit.isDynamic, Visit.lacksLiteral, known]

theorem stats_leaveScope (s : State) : s.leaveScope.stats = s.stats :=
  leaveScope_kept State.stats (fun _ _ => rfl) (fun _ _ => rfl) (fun _ _ _ _ => rfl)
    (fun _ _ => rfl) s

/-- Leaving a node adds what its visit comes to. -/
theorem stats_leave (env : Env) (s : State) (node : Node) :
    (s.leave env node).stats
      = s.stats + Visit.tally env s.memory.seen ⟨node.id, node.kind, s.memory.aliases⟩ := by
  obtain ⟨id, kind, span, children⟩ := node
  have applied (c : Construct) : (s.apply c).stats = s.stats := by
    unfold apply
    split <;> rfl
  cases kind with
  | namespaceDecl | classDecl | interfaceDecl | traitDecl | functionDecl | methodDecl
  | closure => exact stats_leaveScope s
  | new className argCount =>
    cases className with
    | none => rfl
    | some className => exact stats_resolveReference ..
  | call name args =>
    cases name with
    | none => rfl
    | some name => exact stats_leaveCall env s id name args _
  | methodCall receiver name argCount =>
    cases name with
    | none => rfl
    | some method => exact stats_leaveMethodCall env s id receiver method argCount
  | constFetch | magicConst => exact stats_resolveReference ..
  | constDecl items =>
    refine (stats_leaveConstants env s items).trans ?_
    simp [Visit.tally, Visit.references, Visit.lookups, Visit.guards, Visit.isUnresolved,
      Visit.isDynamic, Visit.lacksLiteral]
  | useImport | arrayLiteral | dimFetch | pow => exact applied _
  | param | assign | other => rfl

theorem stats_inheritInterfaces (env : Env) (s : State) (range : Range) (interfaces : List Name) :
    (s.inheritInterfaces env range interfaces).2.stats = s.stats := by
  induction interfaces generalizing s range with
  | nil => rfl
  | cons interface rest ih => exact ih _ _

/-- Entering a node counts it, and nothing else. -/
theorem stats_enter (env : Env) (s : State) (node : Node) :
    (s.enter env node).stats = s.stats + { nodesVisited := 1 } := by
  obtain ⟨id, kind, span, children⟩ := node
  cases kind with
  | namespaceDecl name => cases name <;> rfl
  | classDecl name modifiers parent interfaces =>
    cases parent <;> exact stats_inheritInterfaces env _ _ interfaces
  | interfaceDecl name parents => exact stats_inheritInterfaces env _ _ parents
  | param param =>
    change (enterParam _ param).stats = _
    unfold enterParam
    obtain ⟨name, variadic, byRef, typeHint, hasDefault⟩ := param
    cases variadic <;> cases typeHint with
    | none => rfl
    | some hint => dsimp only; split <;> rfl
  | _ => rfl

end State

/-! ### Trees -/

/-- What the visits of a walk add to the counters, where some lookups are remembered at its
beginning. -/
def tally (env : Env) (seen : List LookupKey) (visits : List Visit) : Stats :=
  { nodesVisited := visits.length
    referencesResolved := (visits.flatMap Visit.references).length
    cacheHits := env.hits seen (visits.flatMap Visit.lookups)
    guardedReferences := (visits.flatMap Visit.guards).length
    unresolvedMethodCalls := visits.countP Visit.isUnresolved
    dynamicNamesSkipped := visits.countP Visit.isDynamic + visits.countP Visit.lacksLiteral }

theorem tally_append (env : Env) (seen : List LookupKey) (first second : List Visit) :
    tally env seen (first ++ second) = tally env seen first
      + tally env ((first.flatMap Visit.lookups).foldl env.see seen) second := by
  simp only [tally, Stats.add_def, Stats.mk.injEq, List.flatMap_append, List.length_append,
    List.countP_append, Env.hits_append, true_and]
  omega

theorem tally_singleton (env : Env) (seen : List LookupKey) (v : Visit) :
    tally env seen [v] = { nodesVisited := 1 } + v.tally env seen := by
  have once (b : Bool) : (if b then 1 else 0) = b.toNat := by cases b <;> rfl
  simp [tally, Visit.tally, Stats.add_def, List.countP_cons, once]

/-- The memory just inside a node. -/
theorem memory_enter (env : Env) (s : State) (node : Node) :
    (s.enter env node).memory.aliases = node.kind.aliasesInside s.memory.aliases
      ∧ (s.enter env node).memory.seen = s.memory.seen := by
  cases declared : Declaration.ofKind? env s.memory.owner node.span node.kind with
  | some d =>
    rw [(State.enter_declaration env s node declared).2]
    exact ⟨(Declaration.aliases_ofKind? declared s.memory).1, rfl⟩
  | none =>
    have plain := Declaration.ofKind?_eq_none_iff.1 declared
    have entering := Memory.accords_entering env s.memory plain ⟨node.id, node.kind, {}⟩ rfl
    rw [(s.follows_enter env node plain).memory]
    exact ⟨entering.aliases, entering.seen⟩

mutual

/-- The walk of a node adds the tally of its visits. -/
theorem stats_node (env : Env) (s : State) :
    (node : Node) → ((Event.ofNode node).foldl (step env) s).stats
      = s.stats + tally env s.memory.seen (visitNode s.memory.aliases node).1
  | ⟨id, kind, span, children⟩ => by
    let entered := s.enter env ⟨id, kind, span, children⟩
    let walked := (Event.ofForest children).foldl (step env) entered
    obtain ⟨aliases, seen⟩ := memory_enter env s ⟨id, kind, span, children⟩
    have accords := accords_forest env entered.memory children
    have knows : walked.memory.aliases = _ :=
      (congrArg Memory.aliases (follows_forest env entered children).memory).trans accords.aliases
    have saw : walked.memory.seen = _ :=
      (congrArg Memory.seen (follows_forest env entered children).memory).trans accords.seen
    have inner : walked.stats = _ := stats_forest env entered children
    have left := State.stats_leave env walked ⟨id, kind, span, children⟩
    -- the node is counted before its children and visited after them
    rw [knows, saw, inner, State.stats_enter, aliases, seen] at left
    rw [Event.ofNode, List.foldl_cons, List.foldl_append, visitNode]
    refine left.trans ?_
    dsimp only
    rw [tally_append, tally_singleton, Stats.add_assoc, Stats.add_assoc]
    exact congrArg (s.stats + ·) (Stats.add_left_comm ..)

/-- The walk of a forest adds the tally of its visits. -/
theorem stats_forest (env : Env) (s : State) :
    (nodes : List Node) → ((Event.ofForest nodes).foldl (step env) s).stats
      = s.stats + tally env s.memory.seen (visitForest s.memory.aliases nodes).1
  | [] => rfl
  | node :: rest => by
    let walked := (Event.ofNode node).foldl (step env) s
    have accords := accords_node env s.memory node
    have knows : walked.memory.aliases = _ :=
      (congrArg Memory.aliases (follows_node env s node).memory).trans accords.aliases
    have saw : walked.memory.seen = _ :=
      (congrArg Memory.seen (follows_node env s node).memory).trans accords.seen
    have first : walked.stats = _ := stats_node env s node
    have second := stats_forest env walked rest
    rw [knows, saw, first, Stats.add_assoc, ← tally_append] at second
    rw [Event.ofForest, List.foldl_append]
    exact second

end

/-! ### Runs -/

theorem State.stats_closeScopes (s : State) : s.closeScopes.stats = s.stats := by
  have left (n : Nat) (t : State) : (Nat.repeat leaveScope n t).stats = t.stats := by
    induction n with
    | zero => rfl
    | succ n ih => exact (stats_leaveScope _).trans ih
  unfold closeScopes
  split
  · rfl
  · exact left _ _

/-- What a tree adds to the counters. Nothing is remembered at its beginning. -/
def treeTally (env : Env) (tree : Tree) : Stats :=
  tally env [] (visits tree) + { filesAnalyzed := 1 }

theorem stats_analyze (env : Env) (s : State) (tree : Tree) :
    (analyze env s tree).stats = s.stats + treeTally env tree := by
  let walked := (Event.ofForest tree.nodes).foldl (step env) (s.beginFile tree)
  have counted : walked.stats = s.stats + tally env [] (visits tree) :=
    stats_forest env (s.beginFile tree) tree.nodes
  have ended : walked.endFile.stats = walked.closeScopes.stats + { filesAnalyzed := 1 } := rfl
  rw [analyze, Tree.events, Event.walk_unvisited, ended, State.stats_closeScopes, counted,
    Stats.add_assoc, treeTally]

/-- What several trees add to the counters. -/
def runTally (env : Env) (trees : List Tree) : Stats :=
  trees.foldr (fun tree stats => treeTally env tree + stats) {}

/-- The counters after a run are those before it, and what its trees add. -/
theorem stats_analyzeAll (env : Env) (s : State) (trees : List Tree) :
    (analyzeAll env s trees).stats = s.stats + runTally env trees := by
  induction trees generalizing s with
  | nil => rfl
  | cons tree rest ih =>
    have later := ih (analyze env s tree)
    rw [stats_analyze, Stats.add_assoc] at later
    exact later

/-- Apart from the hits, what trees add can be told from all their visits together. -/
theorem runTally_eq (env : Env) (trees : List Tree) :
    runTally env trees =
      { tally env [] (trees.flatMap visits) with
        filesAnalyzed := trees.length, cacheHits := (runTally env trees).cacheHits } := by
  induction trees with
  | nil => rfl
  | cons tree rest ih =>
    have unfolded : runTally env (tree :: rest) = treeTally env tree + runTally env rest := rfl
    rw [unfolded]
    rw [ih, treeTally, List.flatMap_cons, tally_append]
    simp only [Stats.add_def, Stats.mk.injEq, List.length_cons, tally, Nat.zero_add, true_and]
    omega

theorem length_visits (trees : List Tree) :
    (trees.flatMap visits).length = Node.sizes (trees.flatMap Tree.nodes) := by
  have sizes (first second : List Node) :
      Node.sizes (first ++ second) = Node.sizes first + Node.sizes second := by
    induction first with
    | nil => simp [Node.sizes]
    | cons node rest ih => simp [Node.sizes, ih, Nat.add_assoc]
  induction trees with
  | nil => rfl
  | cons tree rest ih =>
    rw [List.flatMap_cons, List.flatMap_cons, List.length_append, sizes, ih]
    exact congrArg (· + _) (length_visitForest {} tree.nodes)

/-- How often an element was used, as far as its entry says. -/
def State.usageCount (s : State) (k : Key) : Nat :=
  (s.metrics.elements.get? k.1 k.2).elim 0 Range.usageCount

theorem State.usageCount_eq (s : State) (k : Key) : s.usageCount k = (s.mark k).uses := by
  unfold usageCount mark Elements.mark
  cases s.metrics.elements.get? k.1 k.2 <;> rfl

/-- The uses of an element are counted over all visits of a run. -/
theorem usageCount_analyzeAll (env : Env) (trees : List Tree) (k : Key) :
    (analyzeAll env {} trees).usageCount k
      = ((trees.flatMap visits).flatMap Visit.uses).count k := by
  have trees_count : (trees.flatMap fun tree => (outline env tree).uses).count k
      = ((trees.flatMap visits).flatMap Visit.uses).count k := by
    induction trees with
    | nil => rfl
    | cons tree rest ih =>
      rw [List.flatMap_cons, List.count_append, count_uses_outline, ih, List.flatMap_cons,
        List.flatMap_append, List.count_append]
  have fresh : (({} : State).metrics.elements.mark k).uses = 0 := rfl
  rw [State.usageCount_eq, State.mark, mark_analyzeAll, Mark.after, fresh, Nat.zero_add,
    trees_count]

theorem count_flatMap_uses (visits : List Visit) (k : Key) :
    (visits.flatMap Visit.uses).count k
      = (visits.flatMap Visit.references).count k + (visits.flatMap Visit.mentions).count k
        + ((visits.flatMap Visit.guards).map conditionKey).count k := by
  induction visits with
  | nil => rfl
  | cons v rest ih =>
    simp only [List.flatMap_cons, List.count_append, List.map_append, ih, Visit.uses]
    omega

/-- Every site of a run is counted once. The counters say how many trees and nodes there were, how
many references were made, to what is known or through a receiver of unknown class, how many names
stayed unknown, and how many guards asked for a literal. An element that is no condition is used as
often as it is referred to, extended, implemented or named by a fully qualified type hint, and a
condition as often as a guard asks for it. -/
theorem sites_counted_once (env : Env) (trees : List Tree) :
    let run := analyzeAll env {} trees
    let sites := trees.flatMap visits
    run.stats.filesAnalyzed = trees.length
      ∧ run.stats.nodesVisited = Node.sizes (trees.flatMap Tree.nodes)
      ∧ run.stats.referencesResolved = (sites.flatMap Visit.references).length
      ∧ run.stats.unresolvedMethodCalls = sites.countP Visit.isUnresolved
      ∧ run.stats.dynamicNamesSkipped
        = sites.countP Visit.isDynamic + sites.countP Visit.lacksLiteral
      ∧ run.stats.guardedReferences = (sites.flatMap Visit.guards).length
      ∧ (∀ k : Key, k.1 ≠ .conditions → run.usageCount k
        = (sites.flatMap Visit.references).count k + (sites.flatMap Visit.mentions).count k)
      ∧ ∀ name, run.usageCount (.conditions, name)
        = ((sites.flatMap Visit.guards).map conditionKey).count (.conditions, name) := by
  intro run sites
  have counted : run.stats = runTally env trees := by
    rw [← Stats.add_zero (runTally env trees), Stats.add_comm]
    exact stats_analyzeAll env {} trees
  rw [runTally_eq] at counted
  refine ⟨congrArg Stats.filesAnalyzed counted,
    (congrArg Stats.nodesVisited counted).trans (length_visits trees),
    congrArg Stats.referencesResolved counted, congrArg Stats.unresolvedMethodCalls counted,
    congrArg Stats.dynamicNamesSkipped counted, congrArg Stats.guardedReferences counted,
    fun k other => ?_, fun name => ?_⟩
  · have none : ((sites.flatMap Visit.guards).map conditionKey).count k = 0 := by
      refine List.count_eq_zero.2 fun mem => other ?_
      obtain ⟨guarded, -, rfl⟩ := List.mem_map.1 mem
      rfl
    rw [usageCount_analyzeAll, count_flatMap_uses, none, Nat.add_zero]
  · have unreferred (v : Visit) : (Category.conditions, name) ∉ v.references := by
      unfold Visit.references
      split <;> simp
    have unmentioned (v : Visit) : (Category.conditions, name) ∉ v.mentions := by
      unfold Visit.mentions
      split <;> simp
    have none {keys : Visit → List Key} (h : ∀ v, (.conditions, name) ∉ keys v) :
        (sites.flatMap keys).count (.conditions, name) = 0 := by
      refine List.count_eq_zero.2 fun mem => ?_
      obtain ⟨v, -, here⟩ := List.mem_flatMap.1 mem
      exact h v here
    rw [usageCount_analyzeAll, count_flatMap_uses, none unreferred, none unmentioned,
      Nat.zero_add]

/-- A guarded function that is called, a class with a parent, and names that nobody knows. -/
def mixedSites : Tree :=
  let f := Name.ofParts ["f"]
  let parent := Name.ofParts ["A"]
  { path := "f.php"
    nodes :=
      [⟨0, .call (some (Name.ofParts ["function_exists"])) [.string "f"], {}, []⟩,
        ⟨1, .call (some f) [], {}, [⟨2, .methodCall (.var (some "x")) (some "m") 0, {}, []⟩]⟩,
        ⟨3, .classDecl (Name.ofParts ["B"]) {} (some parent) [parent], {}, []⟩,
        ⟨4, .new (some parent) 0, {}, []⟩, ⟨5, .new none 0, {}, []⟩] }

/-- Two calls and a new object make three references. The parent is used twice, and the function
once, though a guard asks for it besides. -/
theorem mixed_sites_counted_once :
    let run := analyzeAll { references := fun _ _ _ => none } {} [mixedSites]
    run.stats.referencesResolved = 3 ∧ run.usageCount (.classes, "A") = 2
      ∧ run.usageCount (.functions, "f") = 1
      ∧ run.usageCount (.conditions, "function_exists(f)") = 1 := by
  intro run
  obtain ⟨-, -, references, -, -, -, used, conditions⟩ :=
    sites_counted_once { references := fun _ _ _ => none } [mixedSites]
  refine ⟨references.trans ?_, (used (.classes, "A") (by decide)).trans ?_,
    (used (.functions, "f") (by decide)).trans ?_,
    (conditions "function_exists(f)").trans ?_⟩ <;> decide +kernel

end Requisite.Analyzer
