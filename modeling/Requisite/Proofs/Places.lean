import Requisite.Proofs.Counters

/-!
# Places

Nodes of a tree can look alike, so a node is told from others by its place. A `Spot` is an event of
the walk with the place of its node and the place of its home, which is the nearest node around it
that keeps aliases of its own. `Spot.ofForest` lists the spots of a forest by recursion, and their
events are those of the walk (`map_event_ofForest`).

`Met` says that some spot is met after some others. It has one case for each way to get to a spot,
so that what holds at every event of a walk is shown by going through these cases.
-/
namespace Requisite

namespace Code

/-- Where a node stands: the number of a tree in a forest, and then the numbers of the children to
go down to. The file itself is at the empty place. -/
abbrev Place := List Nat

def Event.node : Event → Node
  | .enter node | .leave node => node

structure Spot where
  place : Place
  home : Place
  event : Event

/-- The home of the nodes right inside a node at a place. -/
def NodeKind.homeInside (home place : Place) (kind : NodeKind) : Place :=
  if kind.keepsAliases then place else home

namespace Spot

mutual

/-- The spots of a node at a place. -/
def ofNode (home place : Place) : Node → List Spot
  | ⟨id, kind, span, children⟩ =>
    ⟨place, home, .enter ⟨id, kind, span, children⟩⟩
      :: (ofForest (kind.homeInside home place) place 0 children
        ++ [⟨place, home, .leave ⟨id, kind, span, children⟩⟩])

/-- The spots of the nodes inside the one at `around`, from the node with a given number on. -/
def ofForest (home around : Place) (number : Nat) : List Node → List Spot
  | [] => []
  | node :: rest =>
    ofNode home (around ++ [number]) node ++ ofForest home around (number + 1) rest

end

theorem ofNode_eq (home place : Place) (node : Node) :
    ofNode home place node = ⟨place, home, .enter node⟩
      :: (ofForest (node.kind.homeInside home place) place 0 node.children
        ++ [⟨place, home, .leave node⟩]) := by
  obtain ⟨id, kind, span, children⟩ := node
  rw [ofNode]

mutual

theorem map_event_ofNode (home place : Place) :
    (node : Node) → (ofNode home place node).map event = Event.ofNode node
  | ⟨id, kind, span, children⟩ => by
    simp [ofNode, Event.ofNode, map_event_ofForest _ place 0 children]

/-- The events are those of the walk, in their order. -/
theorem map_event_ofForest (home around : Place) (number : Nat) :
    (nodes : List Node) → (ofForest home around number nodes).map event = Event.ofForest nodes
  | [] => rfl
  | node :: rest => by
    simp [ofForest, Event.ofForest, map_event_ofNode home _ node,
      map_event_ofForest home around (number + 1) rest]

end

end Spot

/-- The spots of a tree in the order of the walk. -/
def Tree.spots (tree : Tree) : List Spot :=
  Spot.ofForest [] [] 0 tree.nodes

theorem Tree.map_event_spots (tree : Tree) : tree.spots.map Spot.event = tree.events := by
  rw [spots, Spot.map_event_ofForest, events, Event.walk_unvisited]

/-! ### Places and homes are inside the forest -/

namespace Spot

/-- The place of a node inside the one at `around`, in the tree below one of the nodes from `number`
on. -/
def Inside (around : Place) (number : Nat) (place : Place) : Prop :=
  ∃ n rest, number ≤ n ∧ place = around ++ n :: rest

theorem Inside.length_lt {around place : Place} {number : Nat} (h : Inside around number place) :
    around.length < place.length := by
  obtain ⟨n, rest, -, rfl⟩ := h
  simp

theorem Inside.ne_of_length_le {around place place' : Place} {number : Nat}
    (h : Inside around number place) (le : place'.length ≤ around.length) : place ≠ place' := by
  intro eq
  have lt := h.length_lt
  rw [eq] at lt
  omega

/-- Places in different trees of a forest differ. -/
theorem Inside.ne_of_earlier {around place : Place} {number : Nat}
    (h : Inside around (number + 1) place) (rest : Place) : place ≠ around ++ number :: rest := by
  obtain ⟨n, rest', le, rfl⟩ := h
  intro eq
  have same := (List.cons.inj (List.append_cancel_left eq)).1
  omega

mutual

theorem inside_of_mem_ofNode {home around : Place} {number : Nat} {spot : Spot} :
    (node : Node) → spot ∈ ofNode home (around ++ [number]) node →
      (∃ rest, spot.place = around ++ number :: rest)
        ∧ (spot.home = home ∨ ∃ rest, spot.home = around ++ number :: rest)
  | ⟨id, kind, span, children⟩, h => by
    simp only [ofNode, List.mem_cons, List.mem_append, List.not_mem_nil, or_false] at h
    rcases h with rfl | inner | rfl
    · exact ⟨⟨[], rfl⟩, Or.inl rfl⟩
    · obtain ⟨⟨n, rest, -, place⟩, home⟩ := inside_of_mem_ofForest children inner
      refine ⟨⟨n :: rest, by simp [place]⟩, ?_⟩
      rcases home with own | ⟨n, rest, -, below⟩
      · unfold NodeKind.homeInside at own
        split at own
        · exact Or.inr ⟨[], own⟩
        · exact Or.inl own
      · exact Or.inr ⟨n :: rest, by simp [below]⟩
    · exact ⟨⟨[], rfl⟩, Or.inl rfl⟩

/-- The spots of a forest have places inside it, and homes inside it or the one given for all. -/
theorem inside_of_mem_ofForest {home around : Place} {number : Nat} {spot : Spot} :
    (nodes : List Node) → spot ∈ ofForest home around number nodes →
      Inside around number spot.place
        ∧ (spot.home = home ∨ Inside around number spot.home)
  | [], h => by simp [ofForest] at h
  | node :: rest, h => by
    rcases List.mem_append.1 h with first | later
    · obtain ⟨⟨below, place⟩, home⟩ := inside_of_mem_ofNode node first
      refine ⟨⟨number, below, Nat.le_refl _, place⟩, home.imp_right ?_⟩
      rintro ⟨below, home⟩
      exact ⟨number, below, Nat.le_refl _, home⟩
    · have weaken {place : Place} (h : Inside around (number + 1) place) :
          Inside around number place := by
        obtain ⟨n, rest, le, eq⟩ := h
        exact ⟨n, rest, by omega, eq⟩
      obtain ⟨place, home⟩ := inside_of_mem_ofForest rest later
      exact ⟨weaken place, home.imp_right weaken⟩

end

/-! ### Ways to get to a spot -/

/-- In the walk of a forest `spot` is met when `before` lies behind. -/
inductive Met : (home around : Place) → (number : Nat) → (nodes : List Node) →
    (before : List Spot) → (spot : Spot) → Prop where
  /-- The first node is entered. -/
  | entering (home around : Place) (number : Nat) (node : Node) (rest : List Node) :
    Met home around number (node :: rest) [] ⟨around ++ [number], home, .enter node⟩
  /-- Something inside the first node is met. -/
  | inside {home around : Place} {number : Nat} {node : Node} {before : List Spot} {spot : Spot}
    (rest : List Node)
    (inner : Met (node.kind.homeInside home (around ++ [number])) (around ++ [number]) 0
      node.children before spot) :
    Met home around number (node :: rest)
      (⟨around ++ [number], home, .enter node⟩ :: before) spot
  /-- The first node is left. -/
  | leaving (home around : Place) (number : Nat) (node : Node) (rest : List Node) :
    Met home around number (node :: rest)
      (⟨around ++ [number], home, .enter node⟩
        :: ofForest (node.kind.homeInside home (around ++ [number])) (around ++ [number]) 0
          node.children)
      ⟨around ++ [number], home, .leave node⟩
  /-- Something after the first node is met. -/
  | later {home around : Place} {number : Nat} {rest : List Node} {before : List Spot}
    {spot : Spot} (node : Node) (later : Met home around (number + 1) rest before spot) :
    Met home around number (node :: rest) (ofNode home (around ++ [number]) node ++ before) spot

/-- A member of two lists in a row is in the first or in the second. -/
theorem split_append {α : Type} {xs ys before after : List α} {a : α}
    (h : xs ++ ys = before ++ a :: after) :
    (∃ mid, xs = before ++ a :: mid) ∨ ∃ mid, before = xs ++ mid ∧ ys = mid ++ a :: after := by
  rcases List.append_eq_append_iff.1 h with ⟨mid, here, later⟩ | ⟨mid, first, last⟩
  · exact Or.inr ⟨mid, here, later⟩
  · cases mid with
    | nil => exact Or.inr ⟨[], by simp_all, by simp_all⟩
    | cons b mid =>
      obtain rfl := (List.cons.inj last).1
      exact Or.inl ⟨mid, first⟩

mutual

theorem met_of_ofNode {home around : Place} {number : Nat} (others : List Node)
    {before after : List Spot} {spot : Spot} :
    (node : Node) → ofNode home (around ++ [number]) node = before ++ spot :: after →
      Met home around number (node :: others) before spot
  | ⟨id, kind, span, children⟩, h => by
    rw [ofNode] at h
    rcases List.cons_eq_append_iff.1 h with ⟨rfl, first⟩ | ⟨before, rfl, rest⟩
    · obtain rfl := (List.cons.inj first).1
      exact .entering ..
    · rcases split_append rest with ⟨mid, inner⟩ | ⟨mid, rfl, last⟩
      · let node : Node := ⟨id, kind, span, children⟩
        have inner : Met (node.kind.homeInside home (around ++ [number])) (around ++ [number]) 0
            node.children before spot := met_of_ofForest children inner
        exact .inside others inner
      · cases mid with
        | nil =>
          obtain rfl := (List.cons.inj last).1
          rw [List.append_nil]
          exact .leaving home around number ⟨id, kind, span, children⟩ others
        | cons head mid => simp at last

theorem met_of_ofForest {home around : Place} {number : Nat} {before after : List Spot}
    {spot : Spot} :
    (nodes : List Node) → ofForest home around number nodes = before ++ spot :: after →
      Met home around number nodes before spot
  | [], h => by simp [ofForest] at h
  | node :: rest, h => by
    rcases split_append h with ⟨mid, first⟩ | ⟨mid, rfl, later⟩
    · exact met_of_ofNode rest node first
    · exact .later node (met_of_ofForest rest later)

end

/-- A spot that is met divides the walk. -/
theorem Met.split {home around : Place} {number : Nat} {nodes : List Node} {before : List Spot}
    {spot : Spot} (h : Met home around number nodes before spot) :
    ∃ after, ofForest home around number nodes = before ++ spot :: after := by
  induction h with
  | entering home around number node rest => exact ⟨_, by rw [ofForest, ofNode_eq]; rfl⟩
  | @inside home around number node before spot rest inner ih =>
    obtain ⟨after, split⟩ := ih
    refine ⟨after ++ ⟨around ++ [number], home, .leave node⟩
      :: ofForest home around (number + 1) rest, ?_⟩
    rw [ofForest, ofNode_eq, split]
    simp
  | leaving home around number node rest =>
    refine ⟨ofForest home around (number + 1) rest, ?_⟩
    rw [ofForest, ofNode_eq]
    simp
  | later node later ih =>
    obtain ⟨after, split⟩ := ih
    exact ⟨after, by rw [ofForest, split, List.append_assoc]⟩

section

variable {home around : Place} {number : Nat} {nodes : List Node} {before : List Spot} {spot : Spot}

theorem Met.mem (h : Met home around number nodes before spot) :
    spot ∈ ofForest home around number nodes := by
  obtain ⟨after, split⟩ := h.split
  simp [split]

/-- What lies behind a spot belongs to the walk. -/
theorem Met.mem_of_mem_before (h : Met home around number nodes before spot) {earlier : Spot}
    (behind : earlier ∈ before) : earlier ∈ ofForest home around number nodes := by
  obtain ⟨after, split⟩ := h.split
  simp [split, behind]

end

end Spot

end Code

namespace Analyzer

open Code (Event Node Place Spot Tree)

namespace State

/-- The state after some spots of a walk. -/
def along (env : Env) (s : State) (spots : List Spot) : State :=
  spots.foldl (fun s spot => step env s spot.event) s

theorem along_append (env : Env) (s : State) (spots more : List Spot) :
    s.along env (spots ++ more) = (s.along env spots).along env more :=
  List.foldl_append

theorem along_eq (env : Env) (s : State) (spots : List Spot) :
    s.along env spots = (spots.map Spot.event).foldl (step env) s :=
  List.foldl_map.symm

theorem along_ofNode (env : Env) (s : State) (home place : Place) (node : Node) :
    s.along env (Spot.ofNode home place node) = (Event.ofNode node).foldl (step env) s := by
  rw [along_eq, Spot.map_event_ofNode]

theorem along_ofForest (env : Env) (s : State) (home around : Place) (number : Nat)
    (nodes : List Node) :
    s.along env (Spot.ofForest home around number nodes)
      = (Event.ofForest nodes).foldl (step env) s := by
  rw [along_eq, Spot.map_event_ofForest]

end State

/-- A tree is analyzed along its spots. -/
theorem analyze_eq (env : Env) (s : State) (tree : Tree) :
    analyze env s tree = ((s.beginFile tree).along env tree.spots).endFile := by
  rw [State.along_eq, Tree.map_event_spots]
  rfl

end Analyzer

end Requisite
