import Requisite.Proofs.Lookups

/-!
# Obscured guards

A tree with its guards obscured is the same tree, but its guards ask for something that is only
known when the code runs: the literal that each of them names is replaced by another expression. If
ids are distinct, the outline of such a tree is the outline of the tree with the guards taken out of
it (`outline_obscure`). Nothing else in the outline depends on the literals of guards.
-/
namespace Requisite

namespace Text

theorem foldCase_eq (s : String) : foldCase s = String.ofList (s.toList.map Char.toLower) := by
  rw [foldCase, ← String.toList_map, String.ofList_toList]

theorem sameFold_eq (a b : String) :
    sameFold a b = decide (a.toList.map Char.toLower = b.toList.map Char.toLower) := by
  have iff : foldCase a = foldCase b ↔ a.toList.map Char.toLower = b.toList.map Char.toLower := by
    rw [foldCase_eq, foldCase_eq]
    exact ⟨fun h => by simpa using congrArg String.toList h, congrArg String.ofList⟩
  rw [Bool.eq_iff_iff, sameFold, beq_iff_eq, decide_eq_true_iff]
  exact iff

end Text

namespace Guard

/-- No guard goes by the name of `define`. -/
theorem not_define {function : String} {guard : Guard} (h : ofFunction? function = some guard) :
    Text.sameFold function "define" = false := by
  have called : Text.sameFold guard.function function := by
    simpa using List.find?_some h
  have other : guard.function.toList.map Char.toLower ≠ "define".toList.map Char.toLower := by
    cases guard <;> decide
  rw [Text.sameFold_eq, decide_eq_true_iff] at called
  rw [Text.sameFold_eq, decide_eq_false_iff_not, ← called]
  exact other

end Guard

namespace Code

/-- The arguments of a call with `hidden` in place of the literal that a guard asks for. -/
def obscureArgs (hidden : Expr) (function : String) : List Expr → List Expr
  | [] => []
  | first :: rest =>
    if (Guard.ofFunction? function).isSome ∧ first.literal?.isSome then hidden :: rest
    else first :: rest

theorem length_obscureArgs (hidden : Expr) (function : String) (args : List Expr) :
    (obscureArgs hidden function args).length = args.length := by
  unfold obscureArgs
  split
  · rfl
  · split <;> rfl

theorem obscureArgs_of_not_guard {function : String} (h : Guard.ofFunction? function = none)
    (hidden : Expr) (args : List Expr) : obscureArgs hidden function args = args := by
  cases args <;> simp [obscureArgs, h]

/-- What a node is, with `hidden` in place of the literal that a guard asks for. -/
def NodeKind.obscure (hidden : Expr) : NodeKind → NodeKind
  | .call (some name) args => .call (some name) (obscureArgs hidden name.toString args)
  | kind => kind

namespace Node

mutual

/-- The node with its guards obscured: an expression that may depend on the call stands in place of
each literal. -/
def obscure (hidden : UInt32 → Expr) : Node → Node
  | ⟨id, kind, span, children⟩ =>
    ⟨id, kind.obscure (hidden id), span, obscureForest hidden children⟩

/-- The forest with its guards obscured. -/
def obscureForest (hidden : UInt32 → Expr) : List Node → List Node
  | [] => []
  | node :: rest => obscure hidden node :: obscureForest hidden rest

end

end Node

/-- The tree with its guards obscured. -/
def Tree.obscure (hidden : UInt32 → Expr) (tree : Tree) : Tree :=
  { tree with nodes := Node.obscureForest hidden tree.nodes }

theorem NodeKind.itemIds_obscure (hidden : Expr) (kind : NodeKind) :
    (kind.obscure hidden).itemIds = kind.itemIds := by
  unfold NodeKind.obscure
  split <;> rfl

mutual

theorem Node.ids_obscure (hidden : UInt32 → Expr) :
    (node : Node) → (node.obscure hidden).ids = node.ids
  | ⟨id, kind, span, children⟩ => by
    rw [Node.obscure, Node.ids, Node.ids, NodeKind.itemIds_obscure,
      Node.forestIds_obscureForest hidden children]

theorem Node.forestIds_obscureForest (hidden : UInt32 → Expr) :
    (nodes : List Node) → Node.forestIds (Node.obscureForest hidden nodes) = Node.forestIds nodes
  | [] => rfl
  | node :: rest => by
    rw [Node.obscureForest, Node.forestIds, Node.forestIds, Node.ids_obscure hidden node,
      Node.forestIds_obscureForest hidden rest]

end

end Code

namespace Analyzer

open Code (Expr Name Node NodeKind Span Tree)

/-- The action with a guard that asks for what is only known when the code runs in place of a
guard. -/
def Action.obscure : Action → Action
  | .guard .. => .dynamicGuard
  | action => action

/-- Actions and the memory after them, with guards obscured. -/
def obscureActions (made : List Action × Memory) : List Action × Memory :=
  (made.1.map .obscure, made.2)

namespace Memory

variable {env : Env} {m : Memory}

theorem obscure_constants (items : List Code.ConstItem) :
    obscureActions (m.constants env items) = m.constants env items := by
  induction items generalizing m with
  | nil => rfl
  | cons item rest ih =>
    let learned := m.learn env ⟨item.id, .constants, item.name⟩
      (Construct.constDecl item.value.isScalar).contribution
    have later := congrArg Prod.fst (ih (m := learned.2))
    exact Prod.ext (congrArg (Action.reference .constants item.name learned.1 :: ·) later) rfl

theorem ask_obscure (node : UInt32) {hidden : Expr} (hb : hidden.literal? = none)
    {function : String} {guard : Guard} (h : Guard.ofFunction? function = some guard)
    (args : List Expr) :
    m.ask env.forgetful node guard (Code.obscureArgs hidden function args)
      = obscureActions (m.ask env.forgetful node guard args) := by
  have ask_none {args : List Expr} (none : State.firstLiteral? args = none) :
      m.ask env.forgetful node guard args = ([.dynamicGuard], m) := by
    rw [ask, none]
  cases args with
  | nil => rfl
  | cons first rest =>
    cases literal : first.literal? with
    | none =>
      have dynamic : State.firstLiteral? (first :: rest) = none := literal
      have same : Code.obscureArgs hidden function (first :: rest) = first :: rest := by
        simp [Code.obscureArgs, literal]
      rw [same, ask_none dynamic]
      rfl
    | some element =>
      have asked : State.firstLiteral? (first :: rest) = some element := literal
      have obscured : Code.obscureArgs hidden function (first :: rest) = hidden :: rest := by
        simp [Code.obscureArgs, h, literal]
      have dynamic : State.firstLiteral? (hidden :: rest) = none := hb
      rw [obscured, ask_none dynamic, ask, asked]
      rfl

/-- A guard whose literal is obscured asks for nothing that is known. -/
theorem inspect_obscure (node : UInt32) {hidden : Expr} (hb : hidden.literal? = none)
    (function : String) (args : List Expr) :
    m.inspect env.forgetful node function (Code.obscureArgs hidden function args)
      = obscureActions (m.inspect env.forgetful node function args) := by
  cases guard : Guard.ofFunction? function with
  | none =>
    rw [Code.obscureArgs_of_not_guard guard]
    unfold inspect
    rw [guard]
    split
    · cases State.firstLiteral? args <;> rfl
    · rfl
  | some g =>
    unfold inspect
    rw [Guard.not_define guard, guard]
    exact ask_obscure node hb guard args

theorem leaving_obscure (node : UInt32) {hidden : Expr} (hb : hidden.literal? = none)
    (span : Span) (kind : NodeKind) :
    m.leaving env.forgetful node span (kind.obscure hidden)
      = obscureActions (m.leaving env.forgetful node span kind) := by
  cases kind with
  | call name args =>
    cases name with
    | none => rfl
    | some name =>
      have reference (args : List Expr) :
          m.leaving env.forgetful node span (.call (some name) args) =
            let rest := m.inspect env.forgetful node name.toString args
            (.reference .functions name.toString
              (env.find .functions name.toString (some args.length)) :: rest.1, rest.2) := rfl
      rw [NodeKind.obscure, reference, reference, Code.length_obscureArgs, inspect_obscure node hb]
      rfl
  | constDecl items => exact (obscure_constants items).symm
  | methodCall receiver name argCount =>
    cases name with
    | none => rfl
    | some method =>
      change m.leaving env.forgetful node span (.methodCall receiver (some method) argCount) = _
      rw [leaving]
      cases m.aliases.resolve? receiver <;> rfl
  | new className argCount => cases className <;> rfl
  | _ => rfl

theorem entering_obscure (hidden : Expr) (kind : NodeKind) :
    m.entering (kind.obscure hidden) = obscureActions (m.entering kind) := by
  cases kind with
  | call name args => cases name <;> rfl
  | param param =>
    refine Prod.ext ?_ rfl
    change _ = List.map _ (_ :: _)
    simp [Action.obscure, entering, NodeKind.obscure]
  | _ => rfl

end Memory

theorem Declaration.ofKind?_obscure (env : Env) (owner : String) (span : Span) (hidden : Expr)
    (kind : NodeKind) :
    ofKind? env owner span (kind.obscure hidden) = ofKind? env owner span kind := by
  unfold NodeKind.obscure
  split <;> rfl

/-- An outline and the memory after it, with guards obscured. -/
def obscureOutline (made : Outline × Memory) : Outline × Memory :=
  (made.1.map .obscure, made.2)

mutual

/-- Without remembering, the outline of a node with its guards obscured is its outline with the
guards obscured. -/
theorem outlineNode_obscure (env : Env) {hidden : UInt32 → Expr}
    (hh : ∀ i, (hidden i).literal? = none) (m : Memory) :
    (node : Node) → outlineNode env.forgetful m (node.obscure hidden)
      = obscureOutline (outlineNode env.forgetful m node)
  | ⟨i, kind, span, children⟩ => by
    rw [Node.obscure, outlineNode, outlineNode, Declaration.ofKind?_obscure]
    cases Declaration.ofKind? env.forgetful m.owner span kind with
    | none =>
      rw [Memory.entering_obscure]
      dsimp only [obscureActions]
      rw [outlineForest_obscure env hh _ children]
      dsimp only [obscureOutline]
      rw [Memory.leaving_obscure i (hh i)]
      simp only [obscureActions, Outline.map, Outline.map_ofList]
    | some d =>
      dsimp only
      rw [outlineForest_obscure env hh (m.inside d) children]
      rfl

/-- Without remembering, the outline of a forest with its guards obscured is its outline with the
guards obscured. -/
theorem outlineForest_obscure (env : Env) {hidden : UInt32 → Expr}
    (hh : ∀ i, (hidden i).literal? = none) (m : Memory) :
    (nodes : List Node) → outlineForest env.forgetful m (Node.obscureForest hidden nodes)
      = obscureOutline (outlineForest env.forgetful m nodes)
  | [] => rfl
  | node :: rest => by
    rw [Node.obscureForest, outlineForest, outlineForest, outlineNode_obscure env hh m node]
    dsimp only [obscureOutline]
    rw [outlineForest_obscure env hh _ rest]
    rfl

end

namespace Outline

theorem obscure_eq_of_blank {o p : Outline} (h : o.map .blank = p.map .blank) :
    o.map .obscure = p.map .obscure := by
  have forget : Action.obscure ∘ Action.blank = Action.obscure :=
    funext fun action => by cases action <;> rfl
  rw [← forget, ← map_map, h, map_map]

theorem obscure_obscure (o : Outline) : (o.map .obscure).map .obscure = o.map .obscure := by
  have twice : Action.obscure ∘ Action.obscure = Action.obscure :=
    funext fun action => by cases action <;> rfl
  rw [map_map, twice]

/-- An outline without guards has none to obscure. -/
theorem map_obscure_of_guarded {o : Outline} (h : o.guarded = []) : o.map .obscure = o := by
  induction o with
  | nothing => rfl
  | act action =>
    cases action with
    | guard g element range => cases h
    | _ => rfl
  | seq first second ihf ihs =>
    obtain ⟨hf, hs⟩ := List.append_eq_nil_iff.1 h
    rw [map, ihf hf, ihs hs]
  | scope d body ih => rw [map, ih h]

theorem guarded_map_obscure (o : Outline) : (o.map .obscure).guarded = [] := by
  induction o with
  | nothing => rfl
  | act action => cases action <;> rfl
  | seq first second ihf ihs => rw [map, guarded, ihf, ihs]; rfl
  | scope d body ih => exact ih

/-- The guarded elements do not depend on what was found for them. -/
theorem guarded_map_blank (o : Outline) :
    (o.map .blank).guarded.map (·.1) = o.guarded.map (·.1) := by
  induction o with
  | nothing => rfl
  | act action => cases action <;> rfl
  | seq first second ihf ihs =>
    rw [map, guarded, guarded, List.map_append, List.map_append, ihf, ihs]
  | scope d body ih => exact ih

end Outline

/-- The outline of a tree with its guards obscured is its outline with the guards obscured. -/
theorem outline_obscure (env : Env) {hidden : UInt32 → Expr} (hh : ∀ i, (hidden i).literal? = none)
    (tree : Tree) (distinct : tree.ids.Nodup) :
    outline env (tree.obscure hidden) = (outline env tree).map .obscure := by
  have plain : outline env.forgetful (tree.obscure hidden)
      = (outline env.forgetful tree).map .obscure :=
    congrArg Prod.fst (outlineForest_obscure env hh { source := tree.source } tree.nodes)
  have ids : (tree.obscure hidden).ids.Nodup := by
    rw [Tree.ids, Tree.obscure, Node.forestIds_obscureForest]
    exact distinct
  have agree := outline_forgetful env tree distinct
  have agree' := outline_forgetful env (tree.obscure hidden) ids
  have unguarded : (outline env (tree.obscure hidden)).guarded = [] := by
    rw [← List.map_eq_nil_iff, ← Outline.guarded_map_blank, agree', Outline.guarded_map_blank,
      plain, Outline.guarded_map_obscure]
    rfl
  calc outline env (tree.obscure hidden)
      = (outline env (tree.obscure hidden)).map .obscure :=
        (Outline.map_obscure_of_guarded unguarded).symm
    _ = (outline env.forgetful (tree.obscure hidden)).map .obscure :=
        Outline.obscure_eq_of_blank agree'
    _ = (outline env.forgetful tree).map .obscure := by rw [plain, Outline.obscure_obscure]
    _ = (outline env tree).map .obscure := (Outline.obscure_eq_of_blank agree).symm

end Analyzer

end Requisite
