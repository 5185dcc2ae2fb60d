import Requisite.Proofs.Sites
import Requisite.Proofs.Summaries

/-!
# Entries

Which elements have an entry in the table. An outline names elements by what it refers to, hints at,
guards, defines or declares, and a reference names the extension it is credited to. Following the
outline makes entries for those, and for no others (`has_follow`): what passes from entry to entry
passes between scopes that have entries already. Every file adds the global namespace and the core
extension. So the elements with an entry after a run are found by going through the outlines of its
trees, in any order (`has_analyzeAll`).
-/
namespace Requisite

/-- Whether an element has an entry. -/
def Elements.has (t : Elements) (k : Category × String) : Prop :=
  ∃ r, t.get? k.1 k.2 = some r

/-- Every range reaches some level. -/
theorem Range.exists_reaches (r : Range) : ∃ l, r.reaches l :=
  ⟨.lower r.min, Std.le_refl _⟩

theorem Range.exists_and_reaches (r : Range) (p : Prop) : (∃ l, p ∧ r.reaches l) ↔ p := by
  rw [exists_and_left]
  exact and_iff_left r.exists_reaches

theorem Elements.has_iff_holds {t : Elements} {k : Category × String} :
    t.has k ↔ ∃ l, t.holds l k := by
  constructor
  · rintro ⟨r, found⟩
    obtain ⟨l, reached⟩ := r.exists_reaches
    exact ⟨l, r, found, reached⟩
  · rintro ⟨l, r, found, -⟩
    exact ⟨r, found⟩

namespace Analyzer

open Code (Tree)

theorem exists_marked {k : Key} {writes : List (Key × Range)} :
    (∃ l, marked l k writes) ↔ k ∈ writes.map (·.1) := by
  constructor
  · rintro ⟨l, r, mem, -⟩
    exact List.mem_map.2 ⟨(k, r), mem, rfl⟩
  · intro mem
    obtain ⟨⟨_, r⟩, written, rfl⟩ := List.mem_map.1 mem
    obtain ⟨l, reached⟩ := r.exists_reaches
    exact ⟨l, r, written, reached⟩

/-- The elements that an action names. -/
def Action.named : Action → List Key
  | .construct _ | .parameter _ | .assign _ _ | .dynamicGuard => []
  | .hint className => [(.classes, className)]
  | .reference category name range =>
    (category, name) :: if range.isUser then [] else [(.extensions, range.extension)]
  | .guard g element _ => [(g.category, element), conditionKey (g, element)]
  | .define constant => [(.constants, constant)]

/-- The elements that an outline names. -/
def Outline.named : Outline → List Key
  | .nothing => []
  | .act action => action.named
  | .seq first second => first.named ++ second.named
  | .scope d body => d.heads.map (·.1) ++ d.key :: body.named

/-- An action writes to what it names, and else only to the scope around it. -/
theorem Action.mem_writes_iff (action : Action) (owns : Bool) {around k : Key} (h : k ≠ around) :
    k ∈ (action.writes around owns).map (·.1) ↔ k ∈ action.named := by
  cases action with
  | construct c => cases significant : c.isSignificant <;> simp [writes, named, significant, h]
  | reference category name range =>
    cases owns <;> cases user : range.isUser <;> simp [writes, named, user, h]
  | hint className => simp [writes, named, h]
  | parameter | assign | dynamicGuard | guard | define => rfl

namespace State

variable {s : State} {k : Key}

/-- Whether an element has an entry. -/
def has (s : State) (k : Key) : Prop :=
  s.metrics.elements.has k

theorem has_iff_holds : s.has k ↔ ∃ l, s.holds l k := Elements.has_iff_holds

theorem has_perform {action : Action} (h : s.has s.scopes.current) :
    (s.perform action).has k ↔ s.has k ∨ k ∈ action.named := by
  have written : (s.perform action).has k ↔ s.has k
      ∨ k ∈ (action.writes s.scopes.current s.scopes.ownsLocals).map (·.1) := by
    rw [has_iff_holds, has_iff_holds, ← exists_marked, ← exists_or]
    exact exists_congr fun l => holds_perform
  by_cases current : k = s.scopes.current
  · rw [← current] at h
    rw [written]
    exact ⟨fun _ => Or.inl h, fun _ => Or.inl h⟩
  · rw [written, action.mem_writes_iff _ current]

theorem has_declare {d : Declaration} :
    (s.declare d).has k ↔ s.has k ∨ k ∈ d.heads.map (·.1) ∨ k = d.key := by
  have own : k = d.key ↔ ∃ l, k = d.key ∧ ∃ r ∈ d.ranges, r.reaches l := by
    obtain ⟨l, reached⟩ := d.own.exists_reaches
    exact ⟨fun eq => ⟨l, eq, d.own, List.mem_cons_self, reached⟩, fun ⟨_, eq, _⟩ => eq⟩
  rw [has_iff_holds, has_iff_holds, ← exists_marked, own, ← exists_or, ← exists_or]
  exact exists_congr fun l => holds_declare

/-- An outline makes entries for what it names, if the scope around it has one. -/
theorem has_follow {o : Outline} (h : s.has s.scopes.current) :
    (s.follow o).has k ↔ s.has k ∨ k ∈ o.named := by
  induction o generalizing s k with
  | nothing => simp [follow, Outline.named]
  | act action => exact has_perform h
  | seq first second ihf ihs =>
    have around : (s.follow first).has (s.follow first).scopes.current := by
      rw [current_follow]
      exact (ihf h).2 (Or.inl h)
    rw [follow, ihs around, ihf h, Outline.named, List.mem_append, or_assoc]
  | scope d body ih =>
    have inside : (s.declare d).has (s.declare d).scopes.current := by
      rw [current_declare]
      exact has_declare.2 (Or.inr (Or.inr rfl))
    have walked : ((s.declare d).follow body).has k
        ↔ s.has k ∨ k ∈ (Outline.scope d body).named := by
      rw [ih inside, has_declare, Outline.named, List.mem_append, List.mem_cons, or_assoc, or_assoc]
    rw [← walked, has_iff_holds, has_iff_holds]
    -- leaving the scope writes to it and to the one around it, and both have entries by then
    constructor
    · rintro ⟨l, held⟩
      rcases holds_scope.1 held with held | ⟨rfl | rfl, -⟩
      · exact ⟨l, held⟩
      · exact has_iff_holds.1 ((ih inside).2 (Or.inl (has_declare.2 (Or.inr (Or.inr rfl)))))
      · exact has_iff_holds.1 ((ih inside).2 (Or.inl (has_declare.2 (Or.inl h))))
    · rintro ⟨l, held⟩
      exact ⟨l, holds_scope.2 (Or.inl held)⟩

/-- The end of a file makes entries for the global namespace and for its extension. -/
theorem has_foldFile (closed : s.scopes.frames = []) :
    s.foldFile.has k
      ↔ s.has k ∨ k = globalKey ∨ k = (.extensions, s.flushFile.fileRange.extension) := by
  have flushed : s.flushFile.has k ↔ s.has k ∨ k = globalKey := by
    rw [has_iff_holds, has_iff_holds,
      ← s.scopes.locals.accumulator.exists_and_reaches (k = globalKey), ← exists_or]
    exact exists_congr fun l => holds_flushFile closed
  have updated {range : Range} :
      (s.flushFile.update .extensions range.extension range).has k
        ↔ s.flushFile.has k ∨ k = (.extensions, range.extension) := by
    rw [has_iff_holds, has_iff_holds,
      ← range.exists_and_reaches (k = (.extensions, range.extension)), ← exists_or]
    exact exists_congr fun l => holds_update
  rw [← or_assoc, ← flushed, ← updated, foldFile_eq]
  rfl

end State

open State

/-! ### Files and runs -/

/-- The core extension. -/
def coreKey : Key := (.extensions, coreExtension)

theorem has_begun {m : Metrics} {k : Key} :
    (begun m).has k ↔ m.elements.has k ∨ k = globalKey ∨ k = coreKey := by
  rw [has_iff_holds, Elements.has_iff_holds,
    ← Range.user.exists_and_reaches (k = globalKey ∨ k = coreKey), ← exists_or]
  exact exists_congr fun l => holds_begun

/-- The global namespace belongs to the core extension when a file is folded into it. -/
theorem extension_fileRange {env : Env} {s : State} (h : s.Between) (tree : Tree) :
    ((begun s.metrics).follow (outline env tree)).flushFile.fileRange.extension
      = coreExtension := by
  obtain ⟨global, _, closed⟩ := Session.closed_run env h ⟨tree, tree.events⟩
  have ended : (analyze env s tree).metrics.elements.get? .namespaces globalNamespace
      = some global := closed.global_found
  rw [metrics_analyze, afterFile_eq, foldFile_eq] at ended
  have flushed := (Grouped.get?_alter_of_ne _ _ (by simp)).symm.trans ended
  rw [fileRange, flushed]
  exact closed.extension

/-- A file makes entries for the global namespace, for the core extension, and for what its outline
names. -/
theorem has_analyze {env : Env} {s : State} (h : s.Between) (tree : Tree) {k : Key} :
    (analyze env s tree).has k
      ↔ s.has k ∨ k = globalKey ∨ k = coreKey ∨ k ∈ (outline env tree).named := by
  let walked := (begun s.metrics).follow (outline env tree)
  have around : (begun s.metrics).has (begun s.metrics).scopes.current :=
    has_begun.2 (Or.inr (Or.inl rfl))
  have named : walked.has k
      ↔ s.has k ∨ k = globalKey ∨ k = coreKey ∨ k ∈ (outline env tree).named := by
    rw [has_follow around, has_begun, or_assoc, or_assoc]
    rfl
  have folded : (analyze env s tree).has k ↔ walked.foldFile.has k := by
    unfold has
    rw [metrics_analyze, afterFile_eq]
  rw [folded, has_foldFile (frames_follow_begun _ _), extension_fileRange h, named]
  grind [coreKey]

/-- The elements with an entry after a run are those that had one before, those that its trees name,
and, if there was a tree at all, the global namespace and the core extension. -/
theorem has_analyzeAll {env : Env} {s : State} (h : s.Between) (trees : List Tree) {k : Key} :
    (analyzeAll env s trees).has k
      ↔ s.has k ∨ ∃ tree ∈ trees, k = globalKey ∨ k = coreKey ∨ k ∈ (outline env tree).named := by
  induction trees generalizing s with
  | nil => simp [analyzeAll]
  | cons tree rest ih =>
    obtain ⟨_, _, closed⟩ := Session.closed_run env h ⟨tree, tree.events⟩
    have later := ih (s := analyze env s tree) closed.between
    rw [has_analyze h] at later
    refine later.trans ?_
    simp only [List.mem_cons, exists_eq_or_imp, or_assoc]

end Analyzer

end Requisite
