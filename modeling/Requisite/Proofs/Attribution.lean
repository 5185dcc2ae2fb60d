import Requisite.Proofs.Places

/-!
# Attribution of methods

The class of a receiver is looked up in the aliases of the innermost scope that has any. These
tables come and go with the frames of a stack, and are written when assignments are entered and read
when calls are left. Here they are read off the tree: the aliases at a node hold what was assigned
before by nodes with the same home (`aliases_along`), and of these the last one decides
(`resolve?_assignedAlong`). So a call of a method is attributed to the class that was last
instantiated into its receiver in the same home, and to none otherwise.
-/
namespace Requisite

/-- A variable with a name, or a property with a name of such a variable. -/
def Code.Expr.isNamed : Code.Expr → Bool
  | .var (some _) | .property (.var (some _)) (some _) => true
  | _ => false

namespace Receiver

open Code (Expr)

theorem isSome_ofExpr? (e : Expr) : (ofExpr? e).isSome = e.isNamed := by
  unfold ofExpr? Expr.isNamed
  split <;> simp_all

/-- Only one expression stands for a receiver. -/
theorem eq_of_ofExpr? {e e' : Expr} {r : Receiver} (h : ofExpr? e = some r)
    (h' : ofExpr? e' = some r) : e = e' := by
  unfold ofExpr? at h h'
  grind

end Receiver

namespace Aliases

open Code (Expr)

/-- An assignment makes the class known that it instantiates, for its own target only. -/
theorem resolve?_record (t : Aliases) (target value : Expr) {receiver : Expr}
    (named : receiver.isNamed) :
    (t.record target value).resolve? receiver
      = (match value with
          | .new (some className) => if target = receiver then some className.toString else none
          | _ => none).or (t.resolve? receiver) := by
  obtain ⟨r, here⟩ := Option.isSome_iff_exists.1 ((Receiver.isSome_ofExpr? receiver).trans named)
  unfold record ofAssignment? resolve?
  cases value with
  | new className =>
    cases className with
    | none => rfl
    | some className =>
      cases held : Receiver.ofExpr? target with
      | none =>
        have ne : target ≠ receiver := by
          intro same
          rw [same, here] at held
          cases held
        simp [ne]
      | some r' =>
        by_cases same : target = receiver
        · have : r' = r := by
            rw [same, here] at held
            exact (Option.some.inj held).symm
          simp [same, here, this]
        · have ne : r ≠ r' := fun eq => same (Receiver.eq_of_ofExpr? held (eq ▸ here))
          simp [same, here, get?_insert_of_ne t _ ne]
  | _ => rfl

end Aliases

namespace Code

namespace NodeKind

/-- The class that is instantiated into `receiver` by an assignment. -/
def instantiated? (receiver : Expr) : NodeKind → Option String
  | .assign target (.new (some className)) =>
    if target = receiver then some className.toString else none
  | _ => none

theorem resolve?_aliasesInside {kind : NodeKind} (shares : kind.keepsAliases = false)
    (aliases : Aliases) {receiver : Expr} (named : receiver.isNamed) :
    (kind.aliasesInside aliases).resolve? receiver
      = (kind.instantiated? receiver).or (aliases.resolve? receiver) := by
  cases kind with
  | namespaceDecl | functionDecl | methodDecl | closure => cases shares
  | assign target value =>
    refine (Aliases.resolve?_record aliases target value named).trans ?_
    cases value with
    | new className => cases className <;> rfl
    | _ => rfl
  | _ => rfl

theorem aliasesInside_of_keepsAliases {kind : NodeKind} (h : kind.keepsAliases)
    (aliases : Aliases) : kind.aliasesInside aliases = {} := by
  cases kind with
  | namespaceDecl | functionDecl | methodDecl | closure => rfl
  | _ => cases h

theorem instantiated?_of_keepsAliases {kind : NodeKind} (h : kind.keepsAliases) (receiver : Expr) :
    kind.instantiated? receiver = none := by
  cases kind with
  | assign => cases h
  | _ => rfl

end NodeKind

namespace Spot

/-- The class that is instantiated into `receiver` where an assignment with the given home is
entered. -/
def instantiated? (home : Place) (receiver : Expr) (spot : Spot) : Option String :=
  match spot.event with
  | .enter node => if spot.home = home then node.kind.instantiated? receiver else none
  | .leave _ => none

/-- The class that was last instantiated into `receiver` by assignments with the given home. Nothing
is known of expressions other than variables and their properties. -/
def lastInstantiated? (home : Place) (receiver : Expr) (spots : List Spot) : Option String :=
  if receiver.isNamed then (spots.filterMap (instantiated? home receiver)).getLast? else none

/-- The aliases of a home after a spot. -/
def assigned (home : Place) (aliases : Aliases) (spot : Spot) : Aliases :=
  match spot.event with
  | .enter node =>
    if spot.home = home ∧ node.kind.keepsAliases = false then node.kind.aliasesInside aliases
    else aliases
  | .leave _ => aliases

/-- The aliases of a home after some spots. -/
def assignedAlong (home : Place) (aliases : Aliases) (spots : List Spot) : Aliases :=
  spots.foldl (assigned home) aliases

theorem assignedAlong_append (home : Place) (aliases : Aliases) (first second : List Spot) :
    assignedAlong home aliases (first ++ second)
      = assignedAlong home (assignedAlong home aliases first) second :=
  List.foldl_append

/-- Spots with other homes assign nothing. -/
theorem assignedAlong_of_ne {home : Place} {spots : List Spot}
    (h : ∀ spot ∈ spots, spot.home ≠ home) (aliases : Aliases) :
    assignedAlong home aliases spots = aliases := by
  induction spots generalizing aliases with
  | nil => rfl
  | cons spot rest ih =>
    have unchanged : assigned home aliases spot = aliases := by
      unfold assigned
      cases spot.event with
      | enter node => exact if_neg fun here => h spot (List.mem_cons_self ..) here.1
      | leave node => rfl
    rw [assignedAlong, List.foldl_cons, unchanged]
    exact ih (fun spot mem => h spot (List.mem_cons_of_mem _ mem)) aliases

theorem resolve?_assigned (home : Place) (aliases : Aliases) (spot : Spot) {receiver : Expr}
    (named : receiver.isNamed) :
    (assigned home aliases spot).resolve? receiver
      = (spot.instantiated? home receiver).or (aliases.resolve? receiver) := by
  unfold assigned instantiated?
  cases spot.event with
  | leave node => rfl
  | enter node =>
    by_cases own : spot.home = home
    · cases keeps : node.kind.keepsAliases with
      | false => simpa [own, keeps] using NodeKind.resolve?_aliasesInside keeps aliases named
      | true => simp [keeps, NodeKind.instantiated?_of_keepsAliases keeps]
    · simp [own]

/-- The last instantiation decides, and without one what was known before. -/
theorem resolve?_assignedAlong (home : Place) (aliases : Aliases) (spots : List Spot)
    {receiver : Expr} (named : receiver.isNamed) :
    (assignedAlong home aliases spots).resolve? receiver
      = (lastInstantiated? home receiver spots).or (aliases.resolve? receiver) := by
  unfold lastInstantiated?
  rw [if_pos named]
  induction spots generalizing aliases with
  | nil => rfl
  | cons spot rest ih =>
    rw [assignedAlong, List.foldl_cons]
    refine (ih _).trans ?_
    rw [resolve?_assigned home aliases spot named, ← Option.or_assoc]
    cases first : spot.instantiated? home receiver with
    | none => simp [first]
    | some className =>
      rw [List.filterMap_cons_some first, List.getLast?_cons]
      cases (rest.filterMap (instantiated? home receiver)).getLast? <;> rfl

theorem resolve?_of_fresh (home : Place) (receiver : Expr) (spots : List Spot) :
    (assignedAlong home {} spots).resolve? receiver = lastInstantiated? home receiver spots := by
  cases named : receiver.isNamed with
  | true =>
    have nothing : ({} : Aliases).resolve? receiver = none := by
      unfold Aliases.resolve?
      cases Receiver.ofExpr? receiver <;> rfl
    rw [resolve?_assignedAlong home {} spots named, nothing, Option.or_none]
  | false =>
    have unheld : Receiver.ofExpr? receiver = none := by
      rw [← Option.not_isSome_iff_eq_none, Receiver.isSome_ofExpr?, named]
      exact Bool.false_ne_true
    simp [Aliases.resolve?, unheld, lastInstantiated?, named]

end Spot

end Code

namespace Analyzer

open Code (Event Expr Name Node NodeKind Place Spot Tree)
open Code.Spot (Met)

/-! ### Aliases along the walk -/

/-- The spots inside a node that keeps aliases have other homes than the node. -/
theorem ne_home_of_mem_inside {home around : Place} (le : home.length ≤ around.length)
    {number : Nat} {nodes : List Node} {spot : Spot}
    (mem : spot ∈ Spot.ofForest (around ++ [number]) (around ++ [number]) 0 nodes) :
    spot.home ≠ home := by
  intro same
  rcases (Spot.inside_of_mem_ofForest nodes mem).2 with own | below
  · rw [← same, own, List.length_append, List.length_singleton] at le
    omega
  · have lt := below.length_lt
    rw [same, List.length_append] at lt
    omega

theorem length_homeInside_le {home around : Place} (le : home.length ≤ around.length)
    (number : Nat) (kind : NodeKind) :
    (kind.homeInside home (around ++ [number])).length ≤ (around ++ [number]).length := by
  unfold NodeKind.homeInside
  split
  · exact Nat.le_refl _
  · rw [List.length_append]
    omega

mutual

/-- The aliases after a node are those that its spots assign, where its home is above it. -/
theorem aliases_visitNode {home around : Place} (le : home.length ≤ around.length) (number : Nat)
    (aliases : Aliases) :
    (node : Node) → (visitNode aliases node).2
      = Spot.assignedAlong home aliases (Spot.ofNode home (around ++ [number]) node)
  | ⟨id, kind, span, children⟩ => by
    rw [visitNode, Spot.ofNode, Spot.assignedAlong, List.foldl_cons, List.foldl_append]
    change kind.aliasesAfter aliases _ = Spot.assignedAlong home _ _
    unfold NodeKind.aliasesAfter NodeKind.homeInside
    cases keeps : kind.keepsAliases with
    | true =>
      have entered : Spot.assigned home aliases
          ⟨around ++ [number], home, .enter ⟨id, kind, span, children⟩⟩ = aliases := by
        simp [Spot.assigned, keeps]
      rw [entered]
      exact (Spot.assignedAlong_of_ne (fun _ mem => ne_home_of_mem_inside le mem) aliases).symm
    | false =>
      have entered : Spot.assigned home aliases
          ⟨around ++ [number], home, .enter ⟨id, kind, span, children⟩⟩
            = kind.aliasesInside aliases := by
        simp [Spot.assigned, keeps]
      have above : home.length ≤ (around ++ [number]).length := by
        rw [List.length_append]
        omega
      rw [entered]
      exact aliases_visitForest above 0 (kind.aliasesInside aliases) children

theorem aliases_visitForest {home around : Place} (le : home.length ≤ around.length) (number : Nat)
    (aliases : Aliases) :
    (nodes : List Node) → (visitForest aliases nodes).2
      = Spot.assignedAlong home aliases (Spot.ofForest home around number nodes)
  | [] => rfl
  | node :: rest => by
    rw [visitForest, Spot.ofForest, Spot.assignedAlong_append, ← aliases_visitNode le number]
    exact aliases_visitForest le (number + 1) (visitNode aliases node).2 rest

end

/-- The aliases after the walk of a forest are those after its visits. -/
theorem aliases_along_ofForest (env : Env) (s : State) (home around : Place) (number : Nat)
    (nodes : List Node) :
    (s.along env (Spot.ofForest home around number nodes)).memory.aliases
      = (visitForest s.memory.aliases nodes).2 := by
  rw [State.along_ofForest, (follows_forest env s nodes).memory]
  exact (accords_forest env s.memory nodes).aliases

theorem aliases_along_ofNode (env : Env) (s : State) (home place : Place) (node : Node) :
    (s.along env (Spot.ofNode home place node)).memory.aliases
      = (visitNode s.memory.aliases node).2 := by
  rw [State.along_ofNode, (follows_node env s node).memory]
  exact (accords_node env s.memory node).aliases

/-- The aliases of `home` where a walk begins in `s` whose nodes have the home `outer`. Other homes
are inside the forest and have none yet. -/
def aliasesOf (outer : Place) (s : State) (home : Place) : Aliases :=
  if home = outer then s.memory.aliases else {}

/-- What is inside a node begins with the aliases that entering the node leaves. -/
theorem aliasesOf_enter {home around : Place} (le : home.length ≤ around.length) {number : Nat}
    {node : Node} {spot : Spot} (mem : spot ∈ Spot.ofForest
      (node.kind.homeInside home (around ++ [number])) (around ++ [number]) 0 node.children)
    (env : Env) (s : State) :
    aliasesOf (node.kind.homeInside home (around ++ [number])) (s.enter env node) spot.home
      = Spot.assigned spot.home (aliasesOf home s spot.home)
        ⟨around ++ [number], home, .enter node⟩ := by
  have entered := (memory_enter env s node).1
  unfold NodeKind.homeInside at mem ⊢
  cases keeps : node.kind.keepsAliases with
  | true =>
    rw [if_pos keeps] at mem
    have other := ne_home_of_mem_inside le mem
    simp [aliasesOf, Spot.assigned, entered, NodeKind.aliasesInside_of_keepsAliases keeps, other]
  | false =>
    by_cases own : spot.home = home
    · simp [aliasesOf, Spot.assigned, entered, keeps, own]
    · simp [aliasesOf, Spot.assigned, own, Ne.symm own]

/-- What comes after a node begins with the aliases that its spots leave. -/
theorem aliasesOf_ofNode {home around : Place} (le : home.length ≤ around.length) {number : Nat}
    {rest : List Node} {spot : Spot} (mem : spot ∈ Spot.ofForest home around (number + 1) rest)
    (node : Node) (env : Env) (s : State) :
    aliasesOf home (s.along env (Spot.ofNode home (around ++ [number]) node)) spot.home
      = Spot.assignedAlong spot.home (aliasesOf home s spot.home)
        (Spot.ofNode home (around ++ [number]) node) := by
  unfold aliasesOf
  by_cases own : spot.home = home
  · rw [if_pos own, if_pos own, own, aliases_along_ofNode, aliases_visitNode le number]
  · rw [if_neg own, if_neg own]
    refine (Spot.assignedAlong_of_ne (fun earlier there => ?_) {}).symm
    have inside := (Spot.inside_of_mem_ofForest rest mem).2.resolve_left own
    rcases (Spot.inside_of_mem_ofNode node there).2 with same | ⟨below, same⟩
    · rw [same]
      exact Ne.symm own
    · rw [same]
      exact (inside.ne_of_earlier below).symm

/-- Where a node is left that keeps no aliases, those of its home are known. -/
theorem aliases_along {home around : Place} {number : Nat} {nodes : List Node} {before : List Spot}
    {spot : Spot} (h : Met home around number nodes before spot)
    (le : home.length ≤ around.length) {node : Node} (left : spot.event = .leave node)
    (shares : node.kind.keepsAliases = false) (env : Env) (s : State) :
    (s.along env before).memory.aliases
      = Spot.assignedAlong spot.home (aliasesOf home s spot.home) before := by
  -- by the way to the spot, with the aliases of all homes at once: what is inside a node may have
  -- the home of the node or the node itself for a home
  induction h generalizing s with
  | entering => cases left
  | @inside home around number outer before spot rest inner ih =>
    have walked := ih (length_homeInside_le le number outer.kind) left (s.enter env outer)
    rw [aliasesOf_enter le inner.mem] at walked
    exact walked
  | leaving home around number here rest =>
    cases left
    have own : node.kind.homeInside home (around ++ [number]) = home := by
      simp [NodeKind.homeInside, shares]
    have entered : Spot.assigned home s.memory.aliases
        ⟨around ++ [number], home, .enter node⟩ = (s.enter env node).memory.aliases := by
      simp [Spot.assigned, shares, (memory_enter env s node).1]
    have above := length_homeInside_le le number node.kind
    have walked := aliases_along_ofForest env (s.enter env node) home (around ++ [number]) 0
      node.children
    -- the children have the same home, so what they assigned is known here as well
    rw [own] at above ⊢
    rw [aliases_visitForest above 0, ← entered] at walked
    rw [aliasesOf, if_pos rfl]
    exact walked
  | @later home around number rest before spot first later ih =>
    have walked := ih le left (s.along env (Spot.ofNode home (around ++ [number]) first))
    rw [aliasesOf_ofNode le later.mem] at walked
    rw [State.along_append, Spot.assignedAlong_append]
    exact walked

/-! ### Calls of methods -/

/-- From `s` to `t` one reference was resolved, which was a use of `k` and of nothing else. -/
structure RefersTo (s t : State) (k : Key) : Prop where
  resolved : t.stats.referencesResolved = s.stats.referencesResolved + 1
  used : ∀ other, t.usageCount other = s.usageCount other + if other = k then 1 else 0

/-- Not more than one element is referred to. -/
theorem RefersTo.unique {s t : State} {k k' : Key} (h : RefersTo s t k) (h' : RefersTo s t k') :
    k = k' := by
  have once := h.used k
  rw [h'.used k, if_pos rfl] at once
  grind

theorem refersTo_resolveReference (env : Env) (s : State) (node : UInt32) (category : Category)
    (name : String) (argCount : Option Nat) :
    RefersTo s (s.resolveReference env node category name argCount) (category, name) := by
  refine ⟨?_, fun other => ?_⟩
  · rw [State.stats_resolveReference]
    rfl
  · have looked : (s.lookup env node category name argCount).2.bare.metrics = s.bare.metrics :=
      congrArg State.metrics (State.lookup_eq env s node category name argCount).2.1
    have kept : (s.lookup env node category name argCount).2.mark other = s.mark other :=
      congrArg (fun m : Metrics => m.elements.mark other) looked
    rw [State.usageCount_eq, State.usageCount_eq, State.resolveReference,
      State.mark_recordReference, kept, Mark.after, List.count_singleton]
    by_cases same : other = (category, name)
    · simp [same]
    · simp [same, Ne.symm same]

/-- Calls of methods are attributed by the tree alone, whatever was analyzed before. Wherever a call
of a method is left whose name is known, it refers to that method of a class if and only if this is
the class that was last instantiated into its receiver by an assignment entered before with the same
home: the same nearest namespace, function, method or closure around it, or the file. Otherwise the
call is counted as unresolved, and nothing is recorded. -/
theorem methods_attributed_by_home (env : Env) (s : State) (tree : Tree) {before after : List Spot}
    {place home : Place} {node : Node} {receiver : Expr} {method : String} {argCount : UInt64}
    (split : tree.spots = before ++ ⟨place, home, .leave node⟩ :: after)
    (call : node.kind = .methodCall receiver (some method) argCount) :
    let t := (s.beginFile tree).along env before
    let t' := step env t (.leave node)
    let found := Spot.lastInstantiated? home receiver before
    analyze env s tree = (t'.along env after).endFile
      ∧ (∀ className,
        RefersTo t t' (.methods, className ++ "::" ++ method) ↔ found = some className)
      ∧ (∀ className, found = some className → t' = t.resolveReference env node.id .methods
        (className ++ "::" ++ method) (some argCount.toNat))
      ∧ (found = none → t'.metrics = t.metrics
        ∧ t'.stats = t.stats + { unresolvedMethodCalls := 1 }) := by
  intro t t' found
  have known : t.scopes.locals.aliases.resolve? receiver = found := by
    have met := Spot.met_of_ofForest tree.nodes split
    have aliases : t.memory.aliases = Spot.assignedAlong home {} before := by
      have begins : aliasesOf [] (s.beginFile tree) home = {} := ite_self _
      rw [← begins]
      exact aliases_along met (Nat.le_refl _) rfl (by rw [call]; rfl) env _
    exact (congrArg (Aliases.resolve? · receiver) aliases).trans (Spot.resolve?_of_fresh ..)
  have left : t' = t.leaveMethodCall env node.id receiver (some method) argCount.toNat := by
    change t.leave env node = _
    unfold State.leave
    rw [call]
  have resolved (className : String) (h : found = some className) :
      t' = t.resolveReference env node.id .methods (className ++ "::" ++ method)
        (some argCount.toNat) := by
    rw [left, State.leaveMethodCall, known, h]
  have unresolved (h : found = none) : t'.metrics = t.metrics
      ∧ t'.stats = t.stats + { unresolvedMethodCalls := 1 } := by
    rw [left, State.leaveMethodCall, known, h]
    exact ⟨rfl, rfl⟩
  have refers (className : String) (h : found = some className) :
      RefersTo t t' (.methods, className ++ "::" ++ method) := by
    rw [resolved className h]
    exact refersTo_resolveReference ..
  have reached : analyze env s tree = (t'.along env after).endFile := by
    rw [analyze_eq, split, State.along_append]
    rfl
  refine ⟨reached, fun className => ⟨fun referred => ?_, refers className⟩, resolved, unresolved⟩
  cases h : found with
  | none =>
    have counted := referred.resolved
    rw [(unresolved h).2] at counted
    exact absurd counted (Nat.succ_ne_self _).symm
  | some other =>
    have same := congrArg Prod.snd (referred.unique (refers other h))
    have names : (className ++ "::" ++ method).toList = (other ++ "::" ++ method).toList :=
      congrArg String.toList same
    simp only [String.toList_append] at names
    have classes := List.append_cancel_right (List.append_cancel_right names)
    exact congrArg some (String.toList_inj.1 classes).symm

/-- Two instantiations into one variable, in the file and in a function, and after them a class and
a closure in which a method is called on it. -/
def sharedVariable : Tree :=
  let x : Expr := .var (some "x")
  let assign (id : UInt32) (className : String) : Node :=
    ⟨id, .assign x (.new (some (Name.ofParts [className]))), {}, []⟩
  let call (id : UInt32) : Node := ⟨id, .methodCall x (some "m") 0, {}, []⟩
  { path := "a.php"
    nodes :=
      [assign 0 "A", ⟨1, .functionDecl (Name.ofParts ["f"]), {}, [assign 2 "B"]⟩,
        ⟨3, .classDecl (Name.ofParts ["C"]) {} none [], {}, [call 4]⟩,
        ⟨5, .closure false, {}, [call 6]⟩] }

/-- The class shares the variable of the file and the closure does not, and neither that of the
function. -/
theorem shared_variable_attributed :
    let env : Env := { references := fun _ _ _ => none }
    let call (id : UInt32) : Node := ⟨id, .methodCall (.var (some "x")) (some "m") 0, {}, []⟩
    let t := (({} : State).beginFile sharedVariable).along env (sharedVariable.spots.take 8)
    let u := (({} : State).beginFile sharedVariable).along env (sharedVariable.spots.take 12)
    sharedVariable.spots = sharedVariable.spots.take 8
        ++ ⟨[2, 0], [], .leave (call 4)⟩ :: sharedVariable.spots.drop 9
      ∧ sharedVariable.spots = sharedVariable.spots.take 12
        ++ ⟨[3, 0], [3], .leave (call 6)⟩ :: sharedVariable.spots.drop 13
      ∧ RefersTo t (step env t (.leave (call 4))) (.methods, "A::m")
      ∧ (step env u (.leave (call 6))).metrics = u.metrics := by
  intro env call t u
  have inClass : sharedVariable.spots = sharedVariable.spots.take 8
      ++ ⟨[2, 0], [], .leave (call 4)⟩ :: sharedVariable.spots.drop 9 := rfl
  have inClosure : sharedVariable.spots = sharedVariable.spots.take 12
      ++ ⟨[3, 0], [3], .leave (call 6)⟩ :: sharedVariable.spots.drop 13 := rfl
  refine ⟨inClass, inClosure, ?_, ?_⟩
  · exact ((methods_attributed_by_home env {} sharedVariable inClass rfl).2.1 "A").2 rfl
  · exact ((methods_attributed_by_home env {} sharedVariable inClosure rfl).2.2.2 rfl).1

end Analyzer

end Requisite
