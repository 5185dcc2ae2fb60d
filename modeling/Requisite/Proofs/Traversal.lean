import Requisite.Code.Event

/-!
# Traversal

A walk keeps a stack of nodes, some to be entered and some to be left, and gives one event at a
time. Whatever is on the stack stands for the events that are still to come (`ahead`): all events of
a node that is to be entered, and the leaving of one that was entered. Each step takes the first of
them away (`ahead_of_next?`), and the walk is at its end just when there are none
(`next?_eq_none_iff`).

So a walk of a forest is its traversal by recursion (`walk_unvisited`), call by call (`answer_eq`).
-/
namespace Requisite.Code.Event

/-! ### The traversal by recursion -/

theorem ofForest_eq_flatMap (nodes : List Node) : ofForest nodes = nodes.flatMap ofNode := by
  induction nodes with
  | nil => rfl
  | cons node rest ih => rw [ofForest, List.flatMap_cons, ih]

theorem ofNode_eq (node : Node) :
    ofNode node = .enter node :: (ofForest node.children ++ [.leave node]) := by
  obtain ⟨id, kind, span, children⟩ := node
  rw [ofNode]

mutual

theorem length_ofNode : (node : Node) → (ofNode node).length = 2 * node.size
  | ⟨id, kind, span, children⟩ => by
    have inner := length_ofForest children
    simp only [ofNode, Node.size, List.length_cons, List.length_append, List.length_nil, inner]
    omega

/-- Every node of a forest is entered and left. -/
theorem length_ofForest : (nodes : List Node) → (ofForest nodes).length = 2 * Node.sizes nodes
  | [] => rfl
  | node :: rest => by
    rw [ofForest, List.length_append, length_ofNode node, length_ofForest rest, Node.sizes,
      Nat.mul_add]

end

/-! ### The events that a stack stands for -/

/-- The events that are still to come. -/
def ahead : Pending → List Event
  | [] => []
  | (node, true) :: rest => .leave node :: ahead rest
  | (node, false) :: rest => ofNode node ++ ahead rest

theorem ahead_unvisited_append (nodes : List Node) (rest : Pending) :
    ahead (unvisited nodes ++ rest) = ofForest nodes ++ ahead rest := by
  induction nodes with
  | nil => rfl
  | cons node nodes ih =>
    rw [unvisited] at ih
    rw [unvisited, List.map_cons, List.cons_append, ahead, ih, ofForest, List.append_assoc]

theorem ahead_unvisited (nodes : List Node) : ahead (unvisited nodes) = ofForest nodes := by
  have h := ahead_unvisited_append nodes []
  rwa [List.append_nil, ahead, List.append_nil] at h

/-- A step takes the first event away from those to come. -/
theorem ahead_of_next? {pending rest : Pending} {event : Event}
    (h : next? pending = some (event, rest)) : ahead pending = event :: ahead rest := by
  fun_cases next? pending with
  | case1 => cases h
  | case2 node rest =>
    cases h
    rfl
  | case3 node rest =>
    cases h
    rw [ahead, ofNode_eq, ahead_unvisited_append, ahead]
    simp

theorem next?_eq_none_iff {pending : Pending} : next? pending = none ↔ ahead pending = [] := by
  fun_cases next? pending with
  | case1 => simp [ahead]
  | case2 node rest => simp [ahead]
  | case3 node rest => simp [ahead, ofNode_eq]

theorem walk_eq_ahead (pending : Pending) : walk pending = ahead pending := by
  fun_induction walk pending with
  | case1 pending ended => exact (next?_eq_none_iff.1 ended).symm
  | case2 pending event rest step ih => rw [ahead_of_next? step, ih]

/-- The walk with a stack takes the events in the order of the recursion. -/
theorem walk_unvisited (nodes : List Node) : walk (unvisited nodes) = ofForest nodes := by
  rw [walk_eq_ahead, ahead_unvisited]

/-! ### Call by call -/

/-- What is left after a walk was asked for an event. At the end it stays as it is. -/
def advance (pending : Pending) : Pending :=
  (next? pending).elim pending (·.2)

/-- What a walk answers when it is asked for an event again and again: the answer to the call with a
number, counted from zero. -/
def answer (pending : Pending) : Nat → Option Event
  | 0 => (next? pending).map (·.1)
  | number + 1 => answer (advance pending) number

theorem map_next? (pending : Pending) : (next? pending).map (·.1) = (ahead pending).head? := by
  cases step : next? pending with
  | none => simp [next?_eq_none_iff.1 step]
  | some taken => simp [ahead_of_next? step]

theorem ahead_advance (pending : Pending) : ahead (advance pending) = (ahead pending).tail := by
  unfold advance
  cases step : next? pending with
  | none => simp [next?_eq_none_iff.1 step]
  | some taken => simp [ahead_of_next? step]

theorem answer_eq (pending : Pending) (number : Nat) :
    answer pending number = (ahead pending)[number]? := by
  induction number generalizing pending with
  | zero => rw [answer, map_next?, List.head?_eq_getElem?]
  | succ number ih => rw [answer, ih, ahead_advance, List.getElem?_tail]

/-- The walk of any forest is its traversal by recursion: asked again and again, it answers with the
events of the trees in their order, which are for each node that it is entered, the events of its
children in their order, and that it is left. It comes to its end after exactly twice as many events
as there are nodes, and then stays there. -/
theorem walk_is_traversal (nodes : List Node) :
    (∀ number, answer (unvisited nodes) number = (nodes.flatMap ofNode)[number]?)
      ∧ (∀ node, ofNode node = .enter node :: (node.children.flatMap ofNode ++ [.leave node]))
      ∧ (∀ number, answer (unvisited nodes) number = none ↔ 2 * Node.sizes nodes ≤ number)
      ∧ ∀ path source, let events := Tree.events { path, source, nodes }
          events = nodes.flatMap ofNode ∧ events.length = 2 * Node.sizes nodes := by
  have answers (number : Nat) :
      answer (unvisited nodes) number = (nodes.flatMap ofNode)[number]? := by
    rw [answer_eq, ahead_unvisited, ofForest_eq_flatMap]
  have length : (nodes.flatMap ofNode).length = 2 * Node.sizes nodes := by
    rw [← ofForest_eq_flatMap, length_ofForest]
  have events : walk (unvisited nodes) = nodes.flatMap ofNode := by
    rw [walk_unvisited, ofForest_eq_flatMap]
  refine ⟨answers, fun node => ?_, fun number => ?_, fun path source => ⟨events, ?_⟩⟩
  · rw [ofNode_eq, ofForest_eq_flatMap]
  · rw [answers, List.getElem?_eq_none_iff, length]
  · rw [Tree.events, events, length]

end Requisite.Code.Event
