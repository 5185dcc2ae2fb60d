import Requisite.Proofs.Entries

/-!
# Credited extensions

Extensions get their entries in four ways: every file has an entry for the core extension when it
begins, and folds the global namespace into the extension of that when it ends; a reference is
credited to the extension of what it refers to; and a guard may ask for an extension. The core
extension is the one that every file ends with, so there are just three kinds of them, and what is
credited to an extension is never taken back (`extensions_exact`).
-/
namespace Requisite.Analyzer

open Code (Name Node Tree)

/-- The ranges with which references are recorded. -/
def Action.recorded : Action → List Range
  | .reference _ _ range => [range]
  | _ => []

/-- The ranges with which references are recorded, in their order. -/
def Outline.recorded : Outline → List Range
  | .nothing => []
  | .act action => action.recorded
  | .seq first second => first.recorded ++ second.recorded
  | .scope _ body => body.recorded

/-- The ranges with which the references of a run are recorded. -/
def recordedRanges (env : Env) (trees : List Tree) : List Range :=
  trees.flatMap fun tree => (outline env tree).recorded

/-! ### No other extensions -/

/-- An extension that is not used itself is named by a reference to one of its elements, or by a
guard. -/
theorem Outline.mem_named_extensions {o : Outline} {name : String}
    (unused : (.extensions, name) ∉ o.uses) :
    (.extensions, name) ∈ o.named
      ↔ (∃ r ∈ o.recorded, r.isUser = false ∧ r.extension = name)
        ∨ (.extensions, name) ∈ o.guarded.map (·.1) := by
  induction o with
  | nothing => simp [named, recorded, guarded]
  | act action =>
    cases action with
    | reference category referred range =>
      have other : (Category.extensions, name) ≠ (category, referred) := by
        simpa [uses, Action.uses] using unused
      simp only [named, recorded, guarded, Action.named, Action.recorded, Action.guarded,
        List.mem_cons, other, false_or, List.map_nil, List.not_mem_nil, or_false]
      have named : name = range.extension ↔ range.extension = name := eq_comm
      cases user : range.isUser with
      | true => simp [user]
      | false => simpa [user] using named
    | _ =>
      simp [named, recorded, guarded, Action.named, Action.recorded, Action.guarded, conditionKey]
  | seq first second ihf ihs =>
    simp only [uses, List.mem_append, not_or] at unused
    simp only [named, recorded, guarded, List.mem_append, List.map_append, ihf unused.1,
      ihs unused.2, or_and_right, exists_or]
    grind
  | scope d body ih =>
    simp only [uses, List.mem_append, not_or] at unused
    have scope : (Category.extensions, name) ≠ d.key := by
      intro eq
      have category : .extensions = d.category := congrArg Prod.fst eq
      have isScope := d.isScope
      rw [← category] at isScope
      cases isScope
    simp only [named, List.mem_append, List.mem_cons, unused.1, scope, false_or, ih unused.2]
    rfl

/-- The extensions that a guard asks for by name. -/
theorem mem_map_guardKey_extensions {guards : List (Guard × String)} {name : String} :
    (.extensions, name) ∈ guards.map guardKey ↔ (.extensionLoaded, name) ∈ guards := by
  constructor
  · intro mem
    obtain ⟨⟨g, element⟩, guarded, eq⟩ := List.mem_map.1 mem
    cases g <;> cases eq
    exact guarded
  · exact List.mem_map_of_mem

theorem mem_named_outline_extensions (env : Env) (tree : Tree) (name : String) :
    (.extensions, name) ∈ (outline env tree).named
      ↔ (∃ r ∈ (outline env tree).recorded, r.isUser = false ∧ r.extension = name)
        ∨ ∃ v ∈ visits tree, (.extensionLoaded, name) ∈ v.guards := by
  have unused : (Category.extensions, name) ∉ (outline env tree).uses := by
    intro used
    have counted := List.count_pos_iff.2 used
    rw [count_uses_outline] at counted
    obtain ⟨v, -, used⟩ := List.mem_flatMap.1 (List.count_pos_iff.1 counted)
    exact Visit.ne_extensions_of_mem_uses used rfl
  rw [Outline.mem_named_extensions unused, guarded_outline, mem_map_guardKey_extensions,
    List.mem_flatMap]

/-! ### What is credited -/

namespace State

/-- Whether the entry of its extension covers all bounds of a range. -/
def Credits (s : State) (r : Range) : Prop :=
  ∃ entry, s.metrics.elements.get? .extensions r.extension = some entry
    ∧ r.requirement ≤ entry.requirement ∧ Bound.atMost r.extensionMin entry.extensionMin
    ∧ Bound.atMost r.extensionMax entry.extensionMax

variable {s t : State} {r : Range}

theorem Credits.of_growsTo (h : s.Credits r) (grown : s.GrowsTo t) : t.Credits r := by
  obtain ⟨entry, found, requirement, extensionMin, extensionMax⟩ := h
  obtain ⟨entry', found', grownAt⟩ := grown.entries (.extensions, r.extension) entry found
  have other : (Category.extensions, r.extension) ≠ globalKey := fun eq => by cases eq
  exact ⟨entry', found', Requirement.le_trans requirement grownAt.requirement,
    Bound.atMost_trans extensionMin (grownAt.extensionMin other),
    Bound.atMost_trans extensionMax grownAt.extensionMax⟩

/-- A range that is merged into an entry is covered by it, whoever the entry belonged to. -/
theorem credits_update (user : r.isUser = false) :
    (s.update .extensions r.extension { r with excluded := ∅ }).Credits r := by
  let old := (s.metrics.elements.get? .extensions r.extension).getD
    { r with excluded := ∅, usageCount := 0, optional := false }
  have merged : (old.merge { r with excluded := ∅ }).extensionMin
        = raiseBound old.extensionMin r.extensionMin
      ∧ (old.merge { r with excluded := ∅ }).extensionMax
        = raiseBound old.extensionMax r.extensionMax := by
    have user' : ({ r with excluded := ∅ } : Range).isUser = false := user
    simp [Range.merge, user', Range.require]
  have requirement : r.requirement ≤ (old.merge { r with excluded := ∅ }).requirement :=
    Requirement.le_iff_reaches.2 fun l reaches => Range.reaches_merge.2 (Or.inr reaches)
  -- an entry that a guard has made belongs to no extension, but takes these bounds all the same
  refine ⟨_, Grouped.get?_alter_self _ _ _ _, requirement, ?_, ?_⟩
  · exact merged.1 ▸ Bound.atMost_raiseBound_right _ _
  · exact merged.2 ▸ Bound.atMost_raiseBound_right _ _

theorem credits_recordReference {category : Category} {name : String} (user : r.isUser = false) :
    (s.recordReference category name r).Credits r := by
  let counted := s.count fun stats =>
    { stats with referencesResolved := stats.referencesResolved + 1 }
  have credited : ((counted.use category name r).update .extensions r.extension
      { r with excluded := ∅ }).Credits r := credits_update user
  unfold recordReference
  rw [user]
  exact credited.of_growsTo (Moves.require _ r.runtimeBounds).growsTo

/-- Whatever an outline records is credited. -/
theorem credits_follow {o : Outline} (recorded : r ∈ o.recorded) (user : r.isUser = false) :
    (s.follow o).Credits r := by
  induction o generalizing s with
  | nothing => cases recorded
  | act action =>
    cases action with
    | reference category name range =>
      obtain rfl : r = range := List.mem_singleton.1 recorded
      exact credits_recordReference user
    | _ => cases recorded
  | seq first second ihf ihs =>
    rcases List.mem_append.1 recorded with here | there
    · exact (ihf here).of_growsTo (growsTo_follow _ second)
    · exact ihs there
  | scope d body ih => exact (ih recorded).of_growsTo (growsTo_leaveScope _)

end State

open State

theorem growsTo_analyze (env : Env) (s : State) (tree : Tree) : s.GrowsTo (analyze env s tree) :=
  ((growsTo_beginFile s tree).trans (growsTo_steps env _ tree.events)).trans (growsTo_endFile _)

theorem credits_analyze (env : Env) (s : State) {tree : Tree} {r : Range}
    (recorded : r ∈ (outline env tree).recorded) (user : r.isUser = false) :
    (analyze env s tree).Credits r := by
  have walked : ((begun s.metrics).follow (outline env tree)).Credits r :=
    credits_follow recorded user
  unfold Credits
  rw [metrics_analyze, afterFile_eq]
  exact walked.of_growsTo (growsTo_foldFile _)

/-- What one tree of a run records is still credited at the end. -/
theorem credits_analyzeAll (env : Env) (s : State) {trees : List Tree} {r : Range}
    (recorded : r ∈ recordedRanges env trees) (user : r.isUser = false) :
    (analyzeAll env s trees).Credits r := by
  have kept (rest : List Tree) {s : State} (h : s.Credits r) :
      (analyzeAll env s rest).Credits r := by
    induction rest generalizing s with
    | nil => exact h
    | cons tree rest ih => exact ih (h.of_growsTo (growsTo_analyze env s tree))
  obtain ⟨tree, ht, here⟩ := List.mem_flatMap.1 recorded
  obtain ⟨earlier, later, rfl⟩ := List.append_of_mem ht
  unfold analyzeAll
  rw [List.foldl_append, List.foldl_cons]
  exact kept later (credits_analyze env _ here user)

/-- The extensions of a run are the core extension, those that references are credited to, and those
that a guard asks for, and no others. To whatever extension a reference is credited, its entry
covers the bounds on the runtime and on the extension that the reference came with. -/
theorem extensions_exact (env : Env) (trees : List Tree) (nonempty : trees ≠ []) :
    let elements := (analyzeAll env {} trees).metrics.elements
    let recorded := recordedRanges env trees
    (∀ name, (∃ entry, elements.get? .extensions name = some entry)
        ↔ name = coreExtension ∨ (∃ r ∈ recorded, r.isUser = false ∧ r.extension = name)
          ∨ ∃ v ∈ trees.flatMap visits, (.extensionLoaded, name) ∈ v.guards)
      ∧ ∀ r ∈ recorded, r.isUser = false →
        ∃ entry, elements.get? .extensions r.extension = some entry
          ∧ r.requirement ≤ entry.requirement
          ∧ Bound.atMost r.extensionMin entry.extensionMin
          ∧ Bound.atMost r.extensionMax entry.extensionMax := by
  intro elements recorded
  refine ⟨fun name => ?_, fun r mem user => credits_analyzeAll env {} mem user⟩
  have fresh : ¬({} : State).has (.extensions, name) := fun ⟨_, found⟩ => by cases found
  have global : (Category.extensions, name) ≠ globalKey := fun eq => by cases eq
  have core : (Category.extensions, name) = coreKey ↔ name = coreExtension := by simp [coreKey]
  refine (has_analyzeAll (k := (.extensions, name)) between_fresh trees).trans ?_
  simp only [fresh, global, core, false_or, mem_named_outline_extensions]
  obtain ⟨first, hfirst⟩ := List.exists_mem_of_ne_nil trees nonempty
  simp only [recorded, recordedRanges, List.mem_flatMap]
  grind

/-- A function of an extension called inside another function, after a guard for another
extension. -/
def guardedAndCalled : Tree :=
  let call : Node := ⟨2, .call (some (Name.ofParts ["json_encode"])) [], {}, []⟩
  { path := "f.php"
    nodes :=
      [⟨0, .call (some (Name.ofParts ["extension_loaded"])) [.string "intl"], {}, []⟩,
        ⟨1, .functionDecl (Name.ofParts ["f"]), {}, [call]⟩] }

/-- One extension has its entry from the guard and the other one from the call, with the bounds that
were found for the function, and nothing else makes an extension. -/
theorem guarded_and_called_extensions :
    let found : Range := .ofExtension "json" (some (.release 1 2 0)) (.release 5 2 0)
    let env : Env :=
      { references := fun _ name _ => if name = "json_encode" then some found else none }
    let elements := (analyzeAll env {} [guardedAndCalled]).metrics.elements
    [guardedAndCalled] ≠ [] ∧ found ∈ recordedRanges env [guardedAndCalled]
      ∧ found.isUser = false
      ∧ (∃ entry, elements.get? .extensions "intl" = some entry)
      ∧ (¬∃ entry, elements.get? .extensions "f" = some entry)
      ∧ ∃ entry, elements.get? .extensions "json" = some entry
        ∧ found.requirement ≤ entry.requirement
        ∧ Bound.atMost found.extensionMin entry.extensionMin := by
  intro found env elements
  have recorded : found ∈ recordedRanges env [guardedAndCalled] := by decide +kernel
  have nonempty : [guardedAndCalled] ≠ [] := List.cons_ne_nil _ _
  obtain ⟨keys, credited⟩ := extensions_exact env [guardedAndCalled] nonempty
  obtain ⟨entry, present, requirement, extensionMin, -⟩ := credited found recorded (by decide)
  refine ⟨nonempty, recorded, by decide, (keys "intl").2 (Or.inr (Or.inr ?_)), ?_,
    entry, present, requirement, extensionMin⟩
  · decide +kernel
  · exact fun present => absurd ((keys "f").1 present) (by decide +kernel)

end Requisite.Analyzer
