import Requisite.Code.Node

/-!
# Events

A tree is walked depth first: a node is entered before the nodes inside it and left after them.
`Event.walk` does it with a stack of nodes that are still to be entered or left, from which
`Event.next?` takes one event after the other, and `Event.ofForest` says in which order that has to
be.
-/
namespace Requisite.Code

inductive Event where
  | enter (node : Node)
  | leave (node : Node)
deriving Repr, Inhabited

namespace Event

/-- What is left of a walk: nodes to be entered, and nodes that were entered and are to be left. -/
abbrev Pending := List (Node × Bool)

/-- The nodes of a forest, all still to be entered. -/
def unvisited (nodes : List Node) : Pending :=
  nodes.map (·, false)

/-- How many events are left. -/
def remaining : Pending → Nat
  | [] => 0
  | (_, true) :: rest => remaining rest + 1
  | (node, false) :: rest => remaining rest + 2 * node.size

theorem remaining_append (xs ys : Pending) :
    remaining (xs ++ ys) = remaining xs + remaining ys := by
  fun_induction remaining xs with
  | case1 => simp
  | case2 _ rest ih => simp only [List.cons_append, remaining, ih]; omega
  | case3 node rest ih => simp only [List.cons_append, remaining, ih]; omega

theorem remaining_unvisited (nodes : List Node) :
    remaining (unvisited nodes) = 2 * Node.sizes nodes := by
  induction nodes with
  | nil => rfl
  | cons node rest ih =>
    rw [unvisited] at ih
    simp only [unvisited, List.map_cons, remaining, ih, Node.sizes]
    omega

/-- The next event of a walk and what is left after it, or `none` at the end. A node that is entered
stays behind the nodes inside it, to be left after them. -/
def next? : Pending → Option (Event × Pending)
  | [] => none
  | (node, true) :: rest => some (.leave node, rest)
  | (node, false) :: rest => some (.enter node, unvisited node.children ++ (node, true) :: rest)

/-- Each event leaves one less. -/
theorem remaining_of_next? {pending rest : Pending} {event : Event}
    (h : next? pending = some (event, rest)) : remaining pending = remaining rest + 1 := by
  fun_cases next? pending with
  | case1 => cases h
  | case2 node rest =>
    cases h
    rfl
  | case3 node rest =>
    cases h
    obtain ⟨_, _, _, children⟩ := node
    simp only [remaining_append, remaining_unvisited, remaining, Node.size]
    omega

/-- The events of a walk that has come to a given point. -/
def walk (pending : Pending) : List Event :=
  match _h : next? pending with
  | none => []
  | some (event, rest) => event :: walk rest
termination_by remaining pending
decreasing_by
  rw [remaining_of_next? _h]
  exact Nat.lt_succ_self _

mutual

/-- The events of one node, by recursion on the tree. -/
def ofNode : Node → List Event
  | ⟨id, kind, span, children⟩ =>
    .enter ⟨id, kind, span, children⟩ :: (ofForest children ++ [.leave ⟨id, kind, span, children⟩])

/-- The events of a forest, by recursion on its trees. -/
def ofForest : List Node → List Event
  | [] => []
  | node :: rest => ofNode node ++ ofForest rest

end

end Event

/-- The events of a tree in the order of the walk. -/
def Tree.events (tree : Tree) : List Event :=
  Event.walk (Event.unvisited tree.nodes)

end Requisite.Code
