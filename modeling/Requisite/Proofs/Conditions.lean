import Requisite.Proofs.Counters
import Requisite.Proofs.Entries
import Requisite.Proofs.Text

/-!
# Guards and conditions

A guard leaves two traces in the table: what it asks for becomes optional, and the question itself
becomes a condition. Entries are made, widened and used by much else, before and after, but nothing
else sets or takes back these marks. So they say which guards were seen. The name of a condition is
written so that the guard and the literal can be told from it (`condition_inj`), whatever is in the
literal.
-/
namespace Requisite

namespace Guard

theorem foldCase_function (guard : Guard) : Text.foldCase guard.function = guard.function := by
  have small : guard.function.toList.map Char.toLower = guard.function.toList := by
    cases guard <;> decide
  rw [Text.foldCase_eq, small, String.ofList_toList]

/-- A guard is known by its function, however that is capitalized. -/
theorem ofFunction?_eq_some_iff {function : String} {guard : Guard} :
    ofFunction? function = some guard ↔ Text.foldCase function = guard.function := by
  have same (g : Guard) :
      Text.sameFold g.function function = (g.function == Text.foldCase function) := by
    rw [Text.sameFold, foldCase_function]
  unfold ofFunction?
  simp only [same]
  constructor
  · intro h
    have found := List.find?_some h
    exact (beq_iff_eq.1 found).symm
  · intro h
    rw [h]
    cases guard <;> decide

theorem function_inj {guard guard' : Guard} (h : guard.function = guard'.function) :
    guard = guard' := by
  have left := ofFunction?_eq_some_iff.2 (foldCase_function guard)
  have right := ofFunction?_eq_some_iff.2 (foldCase_function guard')
  rw [h, right] at left
  exact (Option.some.inj left).symm

theorem toList_condition (guard : Guard) (element : String) :
    (guard.condition element).toList
      = guard.function.toList ++ '(' :: (element.toList ++ [')']) := by
  simp [condition]

/-- The name of the function ends where the first parenthesis opens. -/
theorem takeWhile_condition (guard : Guard) (element : String) :
    (guard.condition element).toList.takeWhile (· != '(') = guard.function.toList := by
  rw [toList_condition]
  have plain : guard.function.toList.all (· != '(') := by
    cases guard <;> decide +kernel
  exact Text.takeWhile_append_of_head (List.all_eq_true.1 plain) (by simp)

/-- Different questions are different conditions. -/
theorem condition_inj {guard guard' : Guard} {element element' : String}
    (h : guard.condition element = guard'.condition element') :
    guard = guard' ∧ element = element' := by
  have functions : guard.function.toList = guard'.function.toList := by
    rw [← takeWhile_condition guard element, h, takeWhile_condition]
  obtain rfl := function_inj (String.toList_inj.1 functions)
  have texts := congrArg String.toList h
  rw [toList_condition, toList_condition] at texts
  have rest := (List.cons.inj (List.append_cancel_left texts)).2
  exact ⟨rfl, String.toList_inj.1 (List.append_cancel_right rest)⟩

theorem category_ne_conditions (guard : Guard) : guard.category ≠ .conditions := by
  cases guard <;> decide

end Guard

theorem Elements.optional_mark {t : Elements} {k : Category × String} :
    (t.mark k).optional ↔ ∃ r, t.get? k.1 k.2 = some r ∧ r.optional := by
  unfold mark
  cases t.get? k.1 k.2 <;> simp [Range.mark]

namespace Analyzer

open Code (Expr Name Node Tree)

/-! ### Guards in visits -/

namespace Visit

/-- Whether a visit is a call of the function of `guard`, in any case, with the string `element` as
its first argument. -/
def asks (guard : Guard) (element : String) (v : Visit) : Bool :=
  match v.kind with
  | .call (some name) (.string literal :: _) =>
    Text.foldCase name.toString == guard.function && literal == element
  | _ => false

theorem guards_of_asks {guard : Guard} {element : String} {v : Visit} (h : v.asks guard element) :
    v.guards = [(guard, element)] := by
  unfold asks at h
  split at h
  · rename_i name literal args here
    simp only [Bool.and_eq_true, beq_iff_eq] at h
    have known := Guard.ofFunction?_eq_some_iff.2 h.1
    have first : State.firstLiteral? (.string literal :: args) = some element := congrArg some h.2
    unfold guards guardsOf
    rw [here]
    simp only [known, first]
  · cases h

theorem asks_of_mem_guards {guard : Guard} {element : String} {v : Visit}
    (h : (guard, element) ∈ v.guards) : v.asks guard element := by
  unfold guards at h
  split at h
  · rename_i name args here
    unfold guardsOf at h
    split at h
    · rename_i known first
      cases List.mem_singleton.1 h
      have folded := Guard.ofFunction?_eq_some_iff.1 known
      cases args with
      | nil => cases first
      | cons arg rest =>
        cases arg with
        | string literal =>
          cases first
          simp [asks, here, folded]
        | _ => cases first
    · cases h
  · cases h

/-- A visit asks for what its guards ask for. -/
theorem mem_guards_iff {guard : Guard} {element : String} {v : Visit} :
    (guard, element) ∈ v.guards ↔ v.asks guard element :=
  ⟨asks_of_mem_guards, fun h => guards_of_asks h ▸ List.mem_singleton_self _⟩

/-- Conditions are used by guards only. -/
theorem count_uses_condition (v : Visit) (name : String) :
    v.uses.count (.conditions, name) = (v.guards.map conditionKey).count (.conditions, name) := by
  have unmentioned : (Category.conditions, name) ∉ v.mentions := by
    unfold mentions
    split <;> simp
  have unreferred : (Category.conditions, name) ∉ v.references := by
    unfold references
    split <;> simp
  rw [uses, List.count_append, List.count_append, List.count_eq_zero.2 unmentioned,
    List.count_eq_zero.2 unreferred, Nat.zero_add]

theorem mem_uses_condition {v : Visit} {name : String} :
    (.conditions, name) ∈ v.uses
      ↔ ∃ guard element, v.asks guard element ∧ guard.condition element = name := by
  rw [← List.count_pos_iff, count_uses_condition, List.count_pos_iff, List.mem_map]
  constructor
  · rintro ⟨⟨guard, element⟩, here, same⟩
    exact ⟨guard, element, mem_guards_iff.1 here, congrArg Prod.snd same⟩
  · rintro ⟨guard, element, asked, rfl⟩
    exact ⟨(guard, element), mem_guards_iff.2 asked, rfl⟩

theorem count_condition (v : Visit) (guard : Guard) (element : String) :
    v.uses.count (.conditions, guard.condition element) = (v.asks guard element).toNat := by
  rw [count_uses_condition]
  cases asked : v.asks guard element with
  | true =>
    rw [guards_of_asks asked]
    exact List.count_singleton_self ..
  | false =>
    refine List.count_eq_zero.2 fun mem => ?_
    obtain ⟨⟨guard', element'⟩, here, same⟩ := List.mem_map.1 mem
    obtain ⟨rfl, rfl⟩ := Guard.condition_inj (congrArg Prod.snd same)
    rw [mem_guards_iff, asked] at here
    cases here

end Visit

/-! ### Runs -/

/-- A condition has an entry only if it is used. -/
theorem Outline.mem_named_conditions {o : Outline} {name : String} :
    (.conditions, name) ∈ o.named ↔ (.conditions, name) ∈ o.uses := by
  induction o with
  | nothing => exact Iff.rfl
  | act action =>
    cases action with
    | reference category referred range =>
      simp only [named, uses, Action.named, Action.uses, List.mem_cons, List.not_mem_nil, or_false]
      split <;> simp
    | guard g element range =>
      have other : (Category.conditions, name) ≠ (g.category, element) := by
        intro same
        exact g.category_ne_conditions (congrArg Prod.fst same).symm
      simp [named, uses, Action.named, Action.uses, other]
    | _ => simp [named, uses, Action.named, Action.uses]
  | seq first second ihf ihs => simp only [named, uses, List.mem_append, ihf, ihs]
  | scope d body ih =>
    have scope : (Category.conditions, name) ≠ d.key := by
      intro same
      have category : .conditions = d.category := congrArg Prod.fst same
      have isScope := d.isScope
      rw [← category] at isScope
      cases isScope
    simp [named, uses, scope, ih]

/-- The conditions with an entry after a run are those that its visits use. -/
theorem has_condition_iff (env : Env) (trees : List Tree) (name : String) :
    (analyzeAll env {} trees).has (.conditions, name)
      ↔ ∃ v ∈ trees.flatMap visits, (.conditions, name) ∈ v.uses := by
  have fresh : ¬({} : State).has (.conditions, name) := fun ⟨_, found⟩ => by cases found
  have global : (Category.conditions, name) ≠ globalKey := fun same => by cases same
  have core : (Category.conditions, name) ≠ coreKey := fun same => by cases same
  have used (tree : Tree) : (.conditions, name) ∈ (outline env tree).named
      ↔ ∃ v ∈ visits tree, (.conditions, name) ∈ v.uses := by
    rw [Outline.mem_named_conditions, ← List.count_pos_iff, count_uses_outline, List.count_pos_iff,
      List.mem_flatMap]
  rw [has_analyzeAll State.between_fresh trees]
  simp only [fresh, global, core, used, false_or, List.mem_flatMap]
  grind

/-- An entry is optional after a run if and only if a guard asked for its element. -/
theorem optional_iff (env : Env) (trees : List Tree) (k : Key) :
    (∃ r, (analyzeAll env {} trees).metrics.elements.get? k.1 k.2 = some r ∧ r.optional)
      ↔ k ∈ ((trees.flatMap visits).flatMap Visit.guards).map guardKey := by
  have guarded : (trees.flatMap fun tree => (outline env tree).guarded.map (·.1))
      = ((trees.flatMap visits).flatMap Visit.guards).map guardKey := by
    simp only [guarded_outline]
    induction trees with
    | nil => rfl
    | cons tree rest ih => simp [ih]
  have fresh : (({} : State).metrics.elements.mark k).optional = false := rfl
  rw [← Elements.optional_mark, mark_analyzeAll, guarded, Mark.after, fresh, Bool.false_or,
    List.contains_iff_mem]

theorem countP_asks (visits : List Visit) (guard : Guard) (element : String) :
    (visits.flatMap Visit.uses).count (.conditions, guard.condition element)
      = visits.countP (Visit.asks guard element) := by
  induction visits with
  | nil => rfl
  | cons v rest ih =>
    rw [List.flatMap_cons, List.count_append, Visit.count_condition, ih, List.countP_cons]
    cases v.asks guard element <;> simp [Nat.add_comm]

/-- The table says which guards were seen. An entry is optional if and only if a guard of its
category asked for its name, and conditions never are. The conditions are the questions that were
asked, no two questions are one condition, and a condition was used as often as it was asked. -/
theorem conditions_are_questions_asked (env : Env) (trees : List Tree) :
    let run := analyzeAll env {} trees
    let sites := trees.flatMap visits
    (∀ category name,
        (∃ r, run.metrics.elements.get? category name = some r ∧ r.optional)
          ↔ ∃ v ∈ sites, ∃ guard : Guard, guard.category = category ∧ v.asks guard name)
      ∧ (∀ name, ¬∃ r, run.metrics.elements.get? .conditions name = some r ∧ r.optional)
      ∧ (∀ name, (∃ r, run.metrics.elements.get? .conditions name = some r)
        ↔ ∃ v ∈ sites, ∃ guard element, v.asks guard element ∧ guard.condition element = name)
      ∧ (∀ (guard guard' : Guard) (element element' : String),
        guard.condition element = guard'.condition element'
          ↔ guard = guard' ∧ element = element')
      ∧ ∀ guard element, run.usageCount (.conditions, guard.condition element)
        = sites.countP (Visit.asks guard element) := by
  intro run sites
  have optional (category : Category) (name : String) :
      (∃ r, run.metrics.elements.get? category name = some r ∧ r.optional)
        ↔ ∃ v ∈ sites, ∃ guard : Guard, guard.category = category ∧ v.asks guard name := by
    refine (optional_iff env trees (category, name)).trans ?_
    simp only [List.mem_map, List.mem_flatMap]
    constructor
    · rintro ⟨⟨guard, element⟩, ⟨v, here, asked⟩, same⟩
      cases same
      exact ⟨v, List.mem_flatMap.2 here, guard, rfl, Visit.mem_guards_iff.1 asked⟩
    · rintro ⟨v, here, guard, rfl, asked⟩
      exact ⟨(guard, name), ⟨v, List.mem_flatMap.1 here, Visit.mem_guards_iff.2 asked⟩, rfl⟩
  refine ⟨optional, fun name => ?_, fun name => ?_, fun guard guard' element element' => ?_,
    fun guard element => ?_⟩
  · rw [optional]
    rintro ⟨v, -, guard, category, -⟩
    exact guard.category_ne_conditions category
  · refine (has_condition_iff env trees name).trans ?_
    simp only [Visit.mem_uses_condition]
    rfl
  · constructor
    · exact Guard.condition_inj
    · rintro ⟨rfl, rfl⟩
      rfl
  · rw [usageCount_analyzeAll, countP_asks]

/-- A question that is asked twice, in two spellings, with a parenthesis in its literal. -/
def spelledTwice : Tree :=
  let ask (id : UInt32) (function : String) : Node :=
    ⟨id, .call (some (Name.ofParts [function])) [.string "f("], {}, []⟩
  { path := "a.php", nodes := [ask 0 "function_exists", ask 1 "Function_EXISTS"] }

theorem spelled_twice_one_condition :
    let run := analyzeAll { references := fun _ _ _ => none } {} [spelledTwice]
    run.usageCount (.conditions, "function_exists(f()") = 2
      ∧ ∃ r, run.metrics.elements.get? .functions "f(" = some r ∧ r.optional := by
  intro run
  have asked : ([spelledTwice].flatMap visits).countP (Visit.asks .functionExists "f(") = 2 := by
    decide +kernel
  obtain ⟨optional, -, -, -, counted⟩ :=
    conditions_are_questions_asked { references := fun _ _ _ => none } [spelledTwice]
  refine ⟨(counted .functionExists "f(").trans asked, (optional .functions "f(").2 ?_⟩
  obtain ⟨v, here, asks⟩ := List.countP_pos_iff.1 (Nat.lt_of_lt_of_eq Nat.zero_lt_two asked.symm)
  exact ⟨v, here, .functionExists, rfl, asks⟩

end Analyzer

end Requisite
