import Requisite.Proofs.Places
import Requisite.Proofs.Summaries

/-!
# Scopes go along with the tree

A scope is opened when its node is entered and closed when it is left, and these are two different
steps that know nothing of each other. The walk makes them fit. At every event of a tree the scopes
that are open are those of the nodes that have been entered and not left (`depth_along`), and
leaving a node takes off the frame that entering it has put on (`closesItsOwn`). So nothing is
left too often or left open, and the two warnings about that are never given.
-/
namespace Requisite

namespace Code

/-- Whether an event enters a node that opens a scope. -/
def Event.opensScope : Event → Bool
  | .enter node => node.kind.isScope
  | .leave _ => false

/-- Whether an event leaves a node that opens a scope. -/
def Event.closesScope : Event → Bool
  | .enter _ => false
  | .leave node => node.kind.isScope

namespace Spot

/-- The places of the scopes that are left. -/
def leftScopes (spots : List Spot) : List Place :=
  (spots.filter fun spot => spot.event.closesScope).map place

/-- The places of the scopes that are entered and not left. -/
def openScopes (spots : List Spot) : List Place :=
  ((spots.filter fun spot => spot.event.opensScope).map place).filter (· ∉ leftScopes spots)

theorem mem_leftScopes {spots : List Spot} {p : Place} :
    p ∈ leftScopes spots ↔ ∃ spot ∈ spots, spot.event.closesScope ∧ spot.place = p := by
  simp [leftScopes, and_assoc]

/-- Where no place is met twice, what is open is open in one of two parts. -/
theorem openScopes_append {first second : List Spot}
    (apart : ∀ a ∈ first, ∀ b ∈ second, b.place ≠ a.place) :
    openScopes (first ++ second) = openScopes first ++ openScopes second := by
  have left : leftScopes (first ++ second) = leftScopes first ++ leftScopes second := by
    simp [leftScopes]
  unfold openScopes
  rw [left, List.filter_append, List.map_append, List.filter_append]
  congr 1
  · refine List.filter_congr fun p entered => ?_
    obtain ⟨a, mem, rfl⟩ := List.mem_map.1 entered
    have other : a.place ∉ leftScopes second := by
      intro again
      obtain ⟨b, there, -, same⟩ := mem_leftScopes.1 again
      exact apart a (List.mem_filter.1 mem).1 b there same
    simp [other]
  · refine List.filter_congr fun p entered => ?_
    obtain ⟨b, mem, rfl⟩ := List.mem_map.1 entered
    have other : b.place ∉ leftScopes first := by
      intro again
      obtain ⟨a, there, -, same⟩ := mem_leftScopes.1 again
      exact apart a there b (List.mem_filter.1 mem).1 same.symm
    simp [other]

theorem openScopes_enter (home place : Place) (node : Node) :
    openScopes [⟨place, home, .enter node⟩] = if node.kind.isScope then [place] else [] := by
  cases scope : node.kind.isScope <;>
    simp [openScopes, leftScopes, Event.opensScope, Event.closesScope, scope]

mutual

theorem left_of_opened_ofNode {home place : Place} {spot : Spot} :
    (node : Node) → spot ∈ ofNode home place node → spot.event.opensScope →
      spot.place ∈ leftScopes (ofNode home place node)
  | ⟨id, kind, span, children⟩, mem, opens => by
    simp only [ofNode, List.mem_cons, List.mem_append, List.not_mem_nil, or_false] at mem
    rw [mem_leftScopes]
    rcases mem with rfl | inner | rfl
    · exact ⟨⟨place, home, .leave ⟨id, kind, span, children⟩⟩, by simp [ofNode], opens, rfl⟩
    · obtain ⟨left, there, closes, same⟩ :=
        mem_leftScopes.1 (left_of_opened_ofForest children inner opens)
      exact ⟨left, by simp [ofNode, there], closes, same⟩
    · cases opens

theorem left_of_opened_ofForest {home around : Place} {number : Nat} {spot : Spot} :
    (nodes : List Node) → spot ∈ ofForest home around number nodes → spot.event.opensScope →
      spot.place ∈ leftScopes (ofForest home around number nodes)
  | [], mem, _ => by simp [ofForest] at mem
  | node :: rest, mem, opens => by
    rw [ofForest, mem_leftScopes]
    rcases List.mem_append.1 mem with first | later
    · obtain ⟨left, there, found⟩ := mem_leftScopes.1 (left_of_opened_ofNode node first opens)
      exact ⟨left, List.mem_append_left _ there, found⟩
    · obtain ⟨left, there, found⟩ := mem_leftScopes.1 (left_of_opened_ofForest rest later opens)
      exact ⟨left, List.mem_append_right _ there, found⟩

end

/-- Nothing is open once all that was entered is left. -/
theorem openScopes_eq_nil {spots : List Spot}
    (h : ∀ spot ∈ spots, spot.event.opensScope → spot.place ∈ leftScopes spots) :
    openScopes spots = [] := by
  refine List.filter_eq_nil_iff.2 fun p entered => ?_
  obtain ⟨spot, mem, rfl⟩ := List.mem_map.1 entered
  obtain ⟨mem, opens⟩ := List.mem_filter.1 mem
  simp [h spot mem opens]

theorem openScopes_ofNode (home place : Place) (node : Node) :
    openScopes (ofNode home place node) = [] :=
  openScopes_eq_nil fun _ mem opens => left_of_opened_ofNode node mem opens

theorem openScopes_ofForest (home around : Place) (number : Nat) (nodes : List Node) :
    openScopes (ofForest home around number nodes) = [] :=
  openScopes_eq_nil fun _ mem opens => left_of_opened_ofForest nodes mem opens

/-- Inside a node its own scope is open besides what is open there. -/
theorem openScopes_cons {home around : Place} {number : Nat} {node : Node} {inside : List Spot}
    (h : ∀ spot ∈ inside, Inside (around ++ [number]) 0 spot.place) :
    openScopes (⟨around ++ [number], home, .enter node⟩ :: inside)
      = (if node.kind.isScope then [around ++ [number]] else []) ++ openScopes inside := by
  rw [← openScopes_enter home, ← openScopes_append]
  · rfl
  · intro a here b mem
    obtain rfl := List.mem_singleton.1 here
    exact (h b mem).ne_of_length_le (Nat.le_refl _)

/-- After a node nothing of it is open. -/
theorem openScopes_later {home around : Place} {number : Nat} {node : Node} {later : List Spot}
    (h : ∀ spot ∈ later, Inside around (number + 1) spot.place) :
    openScopes (ofNode home (around ++ [number]) node ++ later) = openScopes later := by
  rw [openScopes_append, openScopes_ofNode, List.nil_append]
  intro a first b mem
  obtain ⟨⟨rest, place⟩, -⟩ := inside_of_mem_ofNode node first
  rw [place]
  exact (h b mem).ne_of_earlier rest

end Spot

end Code

namespace Analyzer

open Code (Event Name Node NodeKind Place Spot Tree)
open Code.Spot (Met)

namespace State

variable {env : Env} {s : State}

/-! ### What a walk does to the scopes -/

/-- Entering a node that opens a scope puts a frame on, and does nothing else to the scopes. -/
theorem scopes_enter_scope (env : Env) (s : State) {node : Node} (scope : node.kind.isScope) :
    ∃ category name, (s.enter env node).scopes = s.scopes.push category name := by
  cases declared : Declaration.ofKind? env s.memory.owner node.span node.kind with
  | none => simp [Declaration.ofKind?_eq_none_iff.1 declared] at scope
  | some d =>
    have entered := (enter_declaration env s node declared).1
    exact ⟨d.category, d.name, (congrArg State.scopes entered).trans (scopes_declare s d)⟩

theorem scopes_enter_plain (env : Env) (s : State) {node : Node}
    (plain : node.kind.isScope = false) :
    ∃ f, (s.enter env node).scopes = s.scopes.modifyLocals f := by
  have entered := (follows_enter env s node plain).bare
  obtain ⟨f, followed⟩ := scopes_follow s (.ofList (s.memory.entering node.kind).1)
  exact ⟨f, (congrArg State.scopes entered).trans followed⟩

theorem depth_enter (env : Env) (s : State) (node : Node) :
    (s.enter env node).scopes.depth = s.scopes.depth + if node.kind.isScope then 1 else 0 := by
  cases scope : node.kind.isScope with
  | true =>
    obtain ⟨category, name, pushed⟩ := scopes_enter_scope env s scope
    simp [pushed]
  | false =>
    obtain ⟨f, kept⟩ := scopes_enter_plain env s scope
    simp [kept]

/-- The walk of a forest leaves the scopes as they were, but for the innermost locals. -/
theorem scopes_along_ofForest (env : Env) (s : State) (home around : Place) (number : Nat)
    (nodes : List Node) :
    ∃ f, (s.along env (Spot.ofForest home around number nodes)).scopes
      = s.scopes.modifyLocals f := by
  have walked := (follows_forest env s nodes).bare
  obtain ⟨f, followed⟩ := scopes_follow s (outlineForest env s.memory nodes).1
  rw [along_ofForest]
  exact ⟨f, (congrArg State.scopes walked).trans followed⟩

theorem depth_along_ofForest (env : Env) (s : State) (home around : Place) (number : Nat)
    (nodes : List Node) :
    (s.along env (Spot.ofForest home around number nodes)).scopes.depth = s.scopes.depth := by
  obtain ⟨f, kept⟩ := scopes_along_ofForest env s home around number nodes
  rw [kept, Scopes.depth_modifyLocals]

theorem depth_along_ofNode (env : Env) (s : State) (home place : Place) (node : Node) :
    (s.along env (Spot.ofNode home place node)).scopes.depth = s.scopes.depth := by
  have alone := depth_along_ofForest env s home place 0 [node]
  rwa [along_ofForest, Event.ofForest, Event.ofForest, List.append_nil, ← along_ofNode] at alone

end State

open State

/-- At every event of a walk the open scopes are those that were open at its beginning, and those of
the nodes that were entered since and not left. -/
theorem depth_along {home around : Place} {number : Nat} {nodes : List Node} {before : List Spot}
    {spot : Spot} (h : Met home around number nodes before spot) (env : Env) (s : State) :
    (s.along env before).scopes.depth = s.scopes.depth + (Spot.openScopes before).length := by
  induction h generalizing s with
  | entering => rfl
  | @inside home around number node before spot rest inner ih =>
    have places : ∀ spot ∈ before, Spot.Inside (around ++ [number]) 0 spot.place := fun spot mem =>
      (Spot.inside_of_mem_ofForest _ (inner.mem_of_mem_before mem)).1
    have walked := ih (s.enter env node)
    rw [depth_enter] at walked
    rw [Spot.openScopes_cons places, List.length_append]
    refine walked.trans ?_
    split <;> simp only [List.length_cons, List.length_nil] <;> omega
  | leaving home around number node rest =>
    have places : ∀ spot ∈ Spot.ofForest (node.kind.homeInside home (around ++ [number]))
        (around ++ [number]) 0 node.children, Spot.Inside (around ++ [number]) 0 spot.place :=
      fun spot mem => (Spot.inside_of_mem_ofForest _ mem).1
    have walked := depth_along_ofForest env (s.enter env node)
      (node.kind.homeInside home (around ++ [number])) (around ++ [number]) 0 node.children
    rw [depth_enter] at walked
    rw [Spot.openScopes_cons places, Spot.openScopes_ofForest, List.append_nil]
    refine walked.trans ?_
    split <;> rfl
  | @later home around number rest before spot node later ih =>
    have places : ∀ spot ∈ before, Spot.Inside around (number + 1) spot.place := fun spot mem =>
      (Spot.inside_of_mem_ofForest _ (later.mem_of_mem_before mem)).1
    rw [along_append, ih, depth_along_ofNode, Spot.openScopes_later places]

/-- No part of the walk of a forest closes a scope that was open before. -/
theorem depth_le_along {home around : Place} {number : Nat} {nodes : List Node}
    {before : List Spot} (h : before <+: Spot.ofForest home around number nodes) (env : Env)
    (s : State) : s.scopes.depth ≤ (s.along env before).scopes.depth := by
  obtain ⟨_ | ⟨spot, after⟩, split⟩ := h
  · rw [List.append_nil] at split
    rw [split]
    exact Nat.le_of_eq (depth_along_ofForest env s home around number nodes).symm
  · rw [depth_along (Spot.met_of_ofForest nodes split.symm)]
    omega

/-! ### Frames are taken off where they were put on -/

/-- Leaving a node takes off the frame that entering it has put on. The node was entered earlier, at
the same place, and that put a frame on. From then on the stack was never again as low as before it.
Now the frame is the innermost one, and without it the scopes are those from before. -/
def ClosesItsOwn (env : Env) (s : State) (before : List Spot) (left : Spot) (node : Node) : Prop :=
  let entered : Spot := { left with event := .enter node }
  ∃ earlier between category name frame rest,
    before = earlier ++ entered :: between
      ∧ (s.along env (earlier ++ [entered])).scopes
        = (s.along env earlier).scopes.push category name
      ∧ (∀ part, part <+: between → (s.along env earlier).scopes.depth
        < (s.along env (earlier ++ entered :: part)).scopes.depth)
      ∧ (s.along env before).scopes.pop? = some (frame, rest)
      ∧ frame.key = (category, name)
      ∧ rest.openKeys = (s.along env earlier).scopes.openKeys
      ∧ (s.along env (before ++ [left])).scopes = rest

theorem ClosesItsOwn.after {env : Env} {s : State} {first before : List Spot} {left : Spot}
    {node : Node} (h : ClosesItsOwn env (s.along env first) before left node) :
    ClosesItsOwn env s (first ++ before) left node := by
  obtain ⟨earlier, between, category, name, frame, rest, split, pushed, above, popped, key, keys,
    closed⟩ := h
  simp only [← along_append] at pushed above popped keys closed
  refine ⟨first ++ earlier, between, category, name, frame, rest, ?_⟩
  simp only [List.append_assoc]
  exact ⟨by rw [split], pushed, above, popped, key, keys, closed⟩

theorem State.scopes_leave (env : Env) {s : State} {node : Node} {frame : Frame} {rest : Scopes}
    (scope : node.kind.isScope) (pop : s.scopes.pop? = some (frame, rest)) :
    (s.leave env node).scopes = rest := by
  rw [leave_scope env s scope, leaveScope_of_pop? pop, scopes_passOn, scopes_flush]

theorem closesItsOwn {home around : Place} {number : Nat} {nodes : List Node} {before : List Spot}
    {spot : Spot} (h : Met home around number nodes before spot) {node : Node}
    (left : spot.event = .leave node) (scope : node.kind.isScope) (env : Env) (s : State) :
    ClosesItsOwn env s before spot node := by
  induction h generalizing s with
  | entering => cases left
  | @inside home around number outer before spot rest inner ih =>
    have closed : ClosesItsOwn env (s.along env [⟨around ++ [number], home, .enter outer⟩]) before
        spot node := ih left _
    exact closed.after
  | leaving home around number here rest =>
    cases left
    let entered : Spot := ⟨around ++ [number], home, .enter node⟩
    let inside := Spot.ofForest (node.kind.homeInside home (around ++ [number]))
      (around ++ [number]) 0 node.children
    obtain ⟨category, name, pushed⟩ := scopes_enter_scope env s scope
    obtain ⟨f, walked⟩ := scopes_along_ofForest env (s.enter env node)
      (node.kind.homeInside home (around ++ [number])) (around ++ [number]) 0 node.children
    have above : ∀ part, part <+: inside →
        s.scopes.depth < (s.along env (entered :: part)).scopes.depth := by
      intro part behind
      have kept := depth_le_along behind env (s.enter env node)
      rw [depth_enter, scope] at kept
      exact kept
    -- the frame is still there, with its locals changed or those of the scope around it
    have popped : ∃ frame rest, (s.along env (entered :: inside)).scopes.pop? = some (frame, rest)
        ∧ frame.key = (category, name) ∧ rest.openKeys = s.scopes.openKeys := by
      have pop := Scopes.pop?_modifyLocals_push s.scopes category name f
      rw [← pushed, ← walked] at pop
      split at pop
      · exact ⟨_, _, pop, rfl, rfl⟩
      · exact ⟨_, _, pop, rfl, Scopes.openKeys_modifyLocals _ _⟩
    obtain ⟨frame, rest, pop, key, keys⟩ := popped
    refine ⟨[], inside, category, name, frame, rest, rfl, pushed, above, pop, key, keys, ?_⟩
    rw [along_append]
    exact scopes_leave env scope pop
  | later first later ih => exact ClosesItsOwn.after (ih left _)

/-! ### Warnings -/

namespace State

/-- The warnings in the journal: that a scope was left too often, or left open. -/
def warnings (s : State) : List Notice :=
  s.journal.filter fun notice => notice.severity = .warn

end State

theorem Moves.warnings {s t : State} (h : Moves s t) : t.warnings = s.warnings := by
  induction h with
  | trans _ _ first second => exact second.trans first
  | note s debug => simp [State.warnings, State.note, debug]
  | refl | count | store | write | modify | push => rfl

namespace State

variable {env : Env} {s : State}

/-- A scope that is open is left without a warning. -/
theorem warnings_leaveScope {frame : Frame} {rest : Scopes}
    (h : s.scopes.pop? = some (frame, rest)) : s.leaveScope.warnings = s.warnings := by
  have flushed : (s.flush frame rest).warnings = s.warnings := by
    unfold flush
    split <;> rfl
  rw [leaveScope_of_pop? h, ← flushed]
  unfold passOn
  split
  · rfl
  · split <;> rfl

/-- What every step of a walk keeps is kept by the whole walk. -/
theorem along_kept {α : Type} (view : State → α) {spots : List Spot} {s : State}
    (h : ∀ before spot after, spots = before ++ spot :: after →
      view (step env (s.along env before) spot.event) = view (s.along env before)) :
    view (s.along env spots) = view s := by
  induction spots generalizing s with
  | nil => rfl
  | cons first rest ih =>
    have later : view ((step env s first.event).along env rest) = view (step env s first.event) :=
      ih fun before spot after split => h (first :: before) spot after (by rw [split]; rfl)
    exact later.trans (h [] first rest rfl)

/-- The walk of a tree gives no warning. -/
theorem warnings_along_spots (env : Env) (s : State) (tree : Tree) :
    (s.along env tree.spots).warnings = s.warnings := by
  refine along_kept warnings fun before spot after split => ?_
  have met := Spot.met_of_ofForest tree.nodes split
  cases here : spot.event with
  | enter node => exact (Moves.enter env _ node).warnings
  | leave node =>
    cases scope : node.kind.isScope with
    | false => exact (Moves.leave env _ node scope).warnings
    | true =>
      obtain ⟨_, _, _, _, frame, rest, -, -, -, pop, -⟩ := closesItsOwn met here scope env s
      change ((s.along env before).leave env node).warnings = _
      rw [leave_scope env _ scope]
      exact warnings_leaveScope pop

end State

/-- The scopes go along with the tree, whatever the state of the analysis is when it begins. At
every event their number is one more than that of the nodes whose scopes are open. Whenever a node
is left that opened a scope, the very frame is taken off that was put on when it was entered. At the
end of the tree only the file is left, so nothing remains to be closed when the locals of the file
are taken, and no warning was given. -/
theorem scopes_in_step_with_tree (env : Env) (s : State) (tree : Tree) :
    let begun := s.beginFile tree
    let walked := begun.along env tree.spots
    (∀ before spot after, tree.spots = before ++ spot :: after →
        (begun.along env before).scopes.depth = 1 + (Spot.openScopes before).length
          ∧ ∀ node, spot.event = .leave node → node.kind.isScope →
            ClosesItsOwn env begun before spot node)
      ∧ analyze env s tree = walked.endFile
      ∧ walked.scopes.depth = 1
      ∧ walked.closeScopes = walked
      ∧ walked.closeScopes.scopes.frames = []
      ∧ (analyze env s tree).warnings = s.warnings := by
  intro begun walked
  have depth : walked.scopes.depth = 1 := depth_along_ofForest env begun [] [] 0 tree.nodes
  have closed : walked.scopes.frames = [] := by
    simpa [Scopes.depth] using depth
  have unchanged : walked.closeScopes = walked := by
    unfold State.closeScopes
    rw [closed]
    rfl
  refine ⟨fun before spot after split => ?_, analyze_eq env s tree, depth, unchanged, ?_, ?_⟩
  · have met := Spot.met_of_ofForest tree.nodes split
    exact ⟨depth_along met env begun,
      fun node left scope => closesItsOwn met left scope env begun⟩
  · rw [unchanged, closed]
  · have ended : walked.endFile.warnings = walked.closeScopes.warnings := rfl
    have opened : begun.warnings = s.warnings := (Moves.note _ rfl).warnings
    rw [analyze_eq, ended, unchanged, ← opened]
    exact warnings_along_spots env begun tree

/-- A closure in a method of a class, and a power in the closure. -/
def closureInMethod : Tree :=
  { path := "a.php"
    nodes :=
      [⟨0, .classDecl (Name.ofParts ["A"]) {} none [], {},
        [⟨1, .methodDecl "m" {}, {},
          [⟨2, .closure false, { startLine := 3, endLine := 5 }, [⟨3, .pow, {}, []⟩]⟩]⟩]⟩] }

/-- When the closure is left, the scopes of the class and of the method are open with its own. -/
theorem closure_closes_its_own :
    let env : Env := { references := fun _ _ _ => none }
    let closure : Node := ⟨2, .closure false, { startLine := 3, endLine := 5 }, [⟨3, .pow, {}, []⟩]⟩
    let begun := ({} : State).beginFile closureInMethod
    let before := closureInMethod.spots.take 5
    let left : Spot := ⟨[0, 0, 0], [0, 0], .leave closure⟩
    closureInMethod.spots = before ++ left :: closureInMethod.spots.drop 6
      ∧ Spot.openScopes before = [[0], [0, 0], [0, 0, 0]]
      ∧ (begun.along env before).scopes.depth = 4
      ∧ ClosesItsOwn env begun before left closure := by
  intro env closure begun before left
  have split : closureInMethod.spots = before ++ left :: closureInMethod.spots.drop 6 := rfl
  have opened : Spot.openScopes before = [[0], [0, 0], [0, 0, 0]] := by decide
  obtain ⟨depth, closes⟩ := (scopes_in_step_with_tree env {} closureInMethod).1 _ _ _ split
  exact ⟨split, opened, by rw [depth, opened]; rfl, closes closure rfl rfl⟩

end Analyzer

end Requisite
