import Requisite.Proofs.Upward

/-!
# The overall requirement

The overall requirement of a run is at least what every file requires, and nothing else gets into it
but what was found for guarded elements.

The first part is the upward flow of requirements into the global namespace. For the second part,
whatever stands in the state goes exactly as far as some of the ranges that were met, and which ones
these are does not depend on the level (`DrawnFrom`). Every step of the analysis keeps that, since
it only ever joins such sets of levels.
-/
namespace Requisite

/-- The levels of a set are those that some of the given ranges reach. -/
def DrawnFrom (ranges : List Range) (p : Level → Prop) : Prop :=
  ∃ sources, sources ⊆ ranges ∧ ∀ l, p l ↔ ∃ r ∈ sources, r.reaches l

namespace DrawnFrom

variable {ranges : List Range} {p q : Level → Prop}

theorem congr (h : DrawnFrom ranges p) (same : ∀ l, q l ↔ p l) : DrawnFrom ranges q := by
  obtain ⟨sources, sub, hp⟩ := h
  exact ⟨sources, sub, fun l => (same l).trans (hp l)⟩

theorem of_mem {r : Range} (h : r ∈ ranges) : DrawnFrom ranges r.reaches :=
  ⟨[r], by simpa using h, by simp⟩

theorem of_subset {sources : List Range} (h : sources ⊆ ranges) :
    DrawnFrom ranges fun l => ∃ r ∈ sources, r.reaches l :=
  ⟨sources, h, fun _ => Iff.rfl⟩

theorem or (hp : DrawnFrom ranges p) (hq : DrawnFrom ranges q) :
    DrawnFrom ranges fun l => p l ∨ q l := by
  obtain ⟨left, subl, hl⟩ := hp
  obtain ⟨right, subr, hr⟩ := hq
  refine ⟨left ++ right, List.append_subset.2 ⟨subl, subr⟩, fun l => ?_⟩
  simp [hl l, hr l, or_and_right, exists_or]

theorem and_const (c : Prop) (h : DrawnFrom ranges p) : DrawnFrom ranges fun l => c ∧ p l := by
  by_cases hc : c
  · exact h.congr fun l => and_iff_right hc
  · exact ⟨[], List.nil_subset _, fun l => by simp [hc]⟩

theorem ite_const (c : Prop) [Decidable c] (hp : DrawnFrom ranges p) (hq : DrawnFrom ranges q) :
    DrawnFrom ranges fun l => if c then p l else q l := by
  by_cases hc : c
  · exact hp.congr fun l => by simp [hc]
  · exact hq.congr fun l => by simp [hc]

end DrawnFrom

theorem Bound.eq_none_of_sameBound {a : Option Version} (h : Range.equiv.sameBound a none) :
    a = none := by
  cases a with
  | none => rfl
  | some v => cases h

/-- A requirement whose levels are drawn from some ranges has the bounds of two of them. -/
theorem Requirement.exists_isMaximum {q : Requirement} {ranges : List Range}
    (h : DrawnFrom ranges q.reaches) : ∃ sources, sources ⊆ ranges ∧ q.IsMaximum sources := by
  obtain ⟨sources, sub, hq⟩ := h
  refine ⟨sources, sub, isMaximum_of_reaches ?_ hq⟩
  rintro rfl
  have reaches : q.reaches (.lower q.min) := Std.le_refl q.min
  simp [hq] at reaches

namespace Analyzer

open Code (Name Node Tree)

theorem drawnFrom_marked {ranges : List Range} {k : Key} {writes : List (Key × Range)}
    (h : ∀ write ∈ writes, write.2 ∈ ranges) : DrawnFrom ranges fun l => marked l k writes := by
  induction writes with
  | nil => exact ⟨[], List.nil_subset _, by simp⟩
  | cons write rest ih =>
    have first := (DrawnFrom.of_mem (h write List.mem_cons_self)).and_const (k = write.1)
    have later := ih fun write hw => h write (List.mem_cons_of_mem _ hw)
    exact (first.or later).congr fun l => marked_cons

namespace Outline

/-- All ranges that are met when an outline is followed. -/
def met (o : Outline) : List Range :=
  o.required ++ o.guarded.map (·.2)

theorem mem_met_seq {first second : Outline} {r : Range} :
    r ∈ (seq first second).met ↔ r ∈ first.met ∨ r ∈ second.met := by
  simp only [met, guarded, List.map_append, List.mem_append, mem_required_seq]
  grind

theorem mem_met_scope {d : Declaration} {body : Outline} {r : Range} :
    r ∈ (scope d body).met ↔ r ∈ d.ranges ∨ r ∈ body.met := by
  simp only [met, guarded, List.mem_append, mem_required_scope, or_assoc]

end Outline

namespace Action

/-- An action writes no other ranges than those that it is about. -/
theorem mem_met_of_writes {action : Action} {around : Key} {owns : Bool} {write : Key × Range}
    (h : write ∈ action.writes around owns) : write.2 ∈ .user :: (Outline.act action).met := by
  simp only [Outline.met, Outline.required, Outline.asked, Outline.deferred, Outline.guarded]
  cases action with
  | construct c =>
    obtain ⟨-, rfl⟩ : c.isSignificant ∧ write = (around, c.contribution) := by
      simpa [writes] using h
    simp [asked]
  | parameter | assign | dynamicGuard => simp [writes] at h
  | hint className =>
    rcases (by simpa [writes] using h : write = _ ∨ write = _) with rfl | rfl <;> simp [asked]
  | reference category name range =>
    have same : write.2 = range := by
      rcases (by simpa [writes] using h :
        write = _ ∨ (_ ∧ write = _) ∨ (_ ∧ write = _)) with rfl | ⟨-, rfl⟩ | ⟨-, rfl⟩ <;> rfl
    simp [same, asked]
  | guard g element range =>
    rcases (by simpa [writes] using h : write = _ ∨ write = _) with rfl | rfl <;> simp [guarded]
  | define constant =>
    obtain rfl : write = ((.constants, constant), .user) := by simpa [writes] using h
    exact List.mem_cons_self

end Action

namespace State

variable {s : State} {ranges : List Range}

/-- Entries, locals and the overall requirement go exactly as far as some of the given ranges. -/
structure Drawn (s : State) (ranges : List Range) : Prop where
  entries : ∀ k : Key, k.1 ≠ .extensions → DrawnFrom ranges (s.holds · k)
  locals : DrawnFrom ranges s.pending
  versions : DrawnFrom ranges s.requires

theorem Drawn.gathered (h : s.Drawn ranges) (d : Declaration) :
    DrawnFrom ranges (s.gathered d) :=
  (h.entries d.key (ne_extensions_of_isScope d.isScope)).or (h.locals.and_const (d.keepsLocals))

theorem Drawn.perform {action : Action} (h : s.Drawn ranges) (user : .user ∈ ranges)
    (sub : (Outline.act action).met ⊆ ranges) : (s.perform action).Drawn ranges := by
  have sub' : .user :: (Outline.act action).met ⊆ ranges := List.cons_subset.2 ⟨user, sub⟩
  refine ⟨fun k hk => ?_, ?_, ?_⟩
  · have written : DrawnFrom ranges fun l =>
        marked l k (action.writes s.scopes.current s.scopes.ownsLocals) :=
      drawnFrom_marked fun write hw => sub' (Action.mem_met_of_writes hw)
    exact ((h.entries k hk).or written).congr fun l => holds_perform
  · have saved : DrawnFrom ranges fun l =>
        ∃ r ∈ action.saves s.scopes.ownsLocals, r.reaches l :=
      DrawnFrom.of_subset fun r hr =>
        sub (List.mem_append_left _ (Action.mem_required_of_saves hr))
    exact (h.locals.or saved).congr fun l => pending_perform
  · exact h.versions.congr fun l => by rw [requires, versions_perform]; rfl

theorem Drawn.declare {d : Declaration} (h : s.Drawn ranges) (user : .user ∈ ranges)
    (sub : d.ranges ⊆ ranges) : (s.declare d).Drawn ranges := by
  refine ⟨fun k hk => ?_, ?_, ?_⟩
  · have named : DrawnFrom ranges fun l => marked l k d.heads := drawnFrom_marked fun head hh =>
      sub (List.mem_cons_of_mem _ (List.mem_map_of_mem hh))
    have own := (DrawnFrom.of_subset sub).and_const (k = d.key)
    exact ((h.entries k hk).or (named.or own)).congr fun l => holds_declare
  · exact ((DrawnFrom.of_mem user).ite_const (d.keepsLocals) h.locals).congr fun l =>
      pending_declare
  · exact h.versions.congr fun l => by rw [requires, versions_declare]; rfl

theorem Drawn.follow {o : Outline} (h : s.Drawn ranges) (user : .user ∈ ranges)
    (sub : o.met ⊆ ranges) : (s.follow o).Drawn ranges := by
  induction o generalizing s with
  | nothing => exact h
  | act action => exact h.perform user sub
  | seq first second ihf ihs =>
    rw [State.follow]
    exact ihs (ihf h fun r hr => sub (Outline.mem_met_seq.2 (Or.inl hr)))
      fun r hr => sub (Outline.mem_met_seq.2 (Or.inr hr))
  | scope d body ih =>
    have own : d.ranges ⊆ ranges := fun r hr => sub (Outline.mem_met_scope.2 (Or.inl hr))
    have inner : body.met ⊆ ranges := fun r hr => sub (Outline.mem_met_scope.2 (Or.inr hr))
    have inside := ih (h.declare user own) inner
    refine ⟨fun k hk => ?_, ?_, ?_⟩
    · have passed := (inside.gathered d).and_const (k = d.key ∨ k = s.scopes.current)
      exact ((inside.entries k hk).or passed).congr fun l => holds_scope
    · exact (h.locals.ite_const d.keepsLocals inside.locals).congr fun l => pending_scope
    · have passed := (inside.gathered d).and_const (d.category = .namespaces)
      exact (inside.versions.or passed).congr fun l => requires_scope

end State

open State

/-! ### Files and runs -/

/-- Entries and the overall requirement go exactly as far as some of the given ranges. -/
structure MetricsDrawn (m : Metrics) (ranges : List Range) : Prop where
  entries : ∀ k : Key, k.1 ≠ .extensions → DrawnFrom ranges (m.elements.holds · k)
  versions : DrawnFrom ranges m.versions.reaches

namespace MetricsDrawn

variable {m : Metrics} {ranges : List Range}

theorem begun (h : MetricsDrawn m ranges) (user : .user ∈ ranges) :
    (State.begun m).Drawn ranges := by
  have core := DrawnFrom.of_mem user
  refine ⟨fun k hk => ?_, core, h.versions⟩
  exact ((h.entries k hk).or (core.and_const _)).congr fun l => holds_begun

theorem afterFile {o : Outline} (h : MetricsDrawn m ranges) (user : .user ∈ ranges)
    (sub : o.met ⊆ ranges) : MetricsDrawn (afterFile m o) ranges := by
  have walked := (h.begun user).follow user sub
  refine ⟨fun k hk => ?_, ?_⟩
  · exact ((walked.entries k hk).or (walked.locals.and_const (k = globalKey))).congr fun l =>
      holds_afterFile hk
  · have global := walked.entries globalKey (by decide)
    exact (walked.versions.or (global.or walked.locals)).congr fun l => reaches_versions_afterFile

theorem run {outlines : List Outline} (h : MetricsDrawn m ranges) (user : .user ∈ ranges)
    (sub : ∀ o ∈ outlines, o.met ⊆ ranges) :
    MetricsDrawn (outlines.foldl Analyzer.afterFile m) ranges := by
  induction outlines generalizing m with
  | nil => exact h
  | cons o rest ih =>
    exact ih (h.afterFile user (sub o List.mem_cons_self)) fun o ho =>
      sub o (List.mem_cons_of_mem _ ho)

theorem fresh (user : .user ∈ ranges) : MetricsDrawn {} ranges := by
  refine ⟨fun k _ => ⟨[], List.nil_subset _, fun l => ?_⟩, ?_⟩
  · have missing : ({} : Metrics).elements.get? k.1 k.2 = none := rfl
    simp [Elements.holds, missing]
  · exact (DrawnFrom.of_mem user).congr fun l => Iff.rfl

end MetricsDrawn

theorem versions_of_holds_global {m : Metrics} {o : Outline} {l : Level}
    (h : (afterFile m o).elements.holds l globalKey) : (afterFile m o).versions.reaches l := by
  rw [reaches_versions_afterFile]
  rcases (holds_afterFile (by decide)).1 h with holds | ⟨-, pending⟩
  · exact Or.inr (Or.inl holds)
  · exact Or.inr (Or.inr pending)

/-- What the overall requirement reaches is kept by all files that follow. -/
theorem versions_foldl_afterFile {m : Metrics} {outlines : List Outline} {l : Level}
    (h : m.versions.reaches l) : (outlines.foldl afterFile m).versions.reaches l := by
  induction outlines generalizing m with
  | nil => exact h
  | cons o rest ih =>
    have begun : (begun m).requires l := requires_begun.2 h
    exact ih (reaches_versions_afterFile.2 (Or.inl (requires_follow_of_requires begun)))

theorem versions_foldl_afterFile_of_mem {m : Metrics} {outlines : List Outline} {o : Outline}
    {l : Level} {r : Range} (ho : o ∈ outlines) (hr : r ∈ o.required) (reaches : r.reaches l) :
    (outlines.foldl afterFile m).versions.reaches l := by
  induction outlines generalizing m with
  | nil => simp at ho
  | cons first rest ih =>
    rw [List.foldl_cons]
    rcases List.mem_cons.1 ho with rfl | later
    · have global : (afterFile m o).elements.holds l globalKey :=
        holds_afterFile_of_mem List.mem_cons_self (List.mem_cons_of_mem _ hr) reaches
      exact versions_foldl_afterFile (versions_of_holds_global global)
    · exact ih later

/-! ### The overall requirement is exact -/

/-- All that the trees of a run require. -/
def requiredRanges (env : Env) (trees : List Tree) : List Range :=
  trees.flatMap fun tree => (outline env tree).required

/-- The ranges that were found for the guarded elements of a run. -/
def guardedRanges (env : Env) (trees : List Tree) : List Range :=
  trees.flatMap fun tree => (outline env tree).guarded.map (·.2)

theorem versions_covers (env : Env) (s : State) (trees : List Tree) :
    ∀ r ∈ requiredRanges env trees,
      r.requirement ≤ (analyzeAll env s trees).metrics.versions := by
  intro r hr
  obtain ⟨tree, ht, hr⟩ := List.mem_flatMap.1 hr
  rw [metrics_analyzeAll, Requirement.le_iff_reaches]
  intro l reaches
  exact versions_foldl_afterFile_of_mem (List.mem_map_of_mem ht) hr reaches

theorem baseline_le_versions (env : Env) (trees : List Tree) :
    .baseline ≤ (analyzeAll env {} trees).metrics.versions.min := by
  have start : ({} : Metrics).versions.reaches (.lower .baseline) := Std.le_refl Version.baseline
  rw [metrics_analyzeAll]
  exact versions_foldl_afterFile start

/-- The overall requirement has the bounds of two of the ranges that were met. -/
theorem versions_drawnFrom (env : Env) (trees : List Tree) :
    DrawnFrom (.user :: (requiredRanges env trees ++ guardedRanges env trees))
      (analyzeAll env {} trees).metrics.versions.reaches := by
  rw [metrics_analyzeAll]
  refine ((MetricsDrawn.fresh List.mem_cons_self).run List.mem_cons_self ?_).versions
  intro o ho r hr
  obtain ⟨tree, ht, rfl⟩ := List.mem_map.1 ho
  refine List.mem_cons_of_mem _ (List.mem_append.2 ?_)
  rcases List.mem_append.1 hr with required | guarded
  · exact Or.inl (List.mem_flatMap.2 ⟨tree, ht, required⟩)
  · exact Or.inr (List.mem_flatMap.2 ⟨tree, ht, guarded⟩)

/-- The overall requirement of a run is exact: it covers the baseline and all that the trees
require, each of its bounds is that of the baseline, of something required or of a guarded element,
and without guards it is the greatest of what is required. -/
theorem overall_requirement_exact (env : Env) (trees : List Tree) :
    let versions := (analyzeAll env {} trees).metrics.versions
    let required := requiredRanges env trees
    let guarded := guardedRanges env trees
    .baseline ≤ versions.min ∧ (∀ r ∈ required, r.requirement ≤ versions)
      ∧ (versions.min.equiv .baseline ∨ ∃ r ∈ required ++ guarded, versions.min.equiv r.min)
      ∧ (versions.max = none
        ∨ ∃ r ∈ required ++ guarded, Range.equiv.sameBound versions.max r.max)
      ∧ (guarded = [] → versions.IsMaximum (.user :: required)) := by
  intro versions required guarded
  have floor : .baseline ≤ versions.min := baseline_le_versions env trees
  have covers : ∀ r ∈ required, r.requirement ≤ versions := versions_covers env {} trees
  obtain ⟨sources, sub, maximum⟩ := Requirement.exists_isMaximum (versions_drawnFrom env trees)
  obtain ⟨low, hlow, min_eq⟩ := maximum.min_attained
  obtain ⟨high, hhigh, max_eq⟩ := maximum.max_attained
  have unguardedMet (h : guarded = []) {r : Range} (hr : r ∈ sources) : r ∈ .user :: required := by
    have met : r ∈ .user :: (required ++ guarded) := sub hr
    rwa [h, List.append_nil] at met
  refine ⟨floor, covers, ?_, ?_, fun unguarded => ⟨?_, ?_, ?_⟩⟩
  · rcases List.mem_cons.1 (sub hlow) with rfl | met
    · exact Or.inl min_eq
    · exact Or.inr ⟨low, met, min_eq⟩
  · rcases List.mem_cons.1 (sub hhigh) with rfl | met
    · exact Or.inl (Bound.eq_none_of_sameBound max_eq)
    · exact Or.inr ⟨high, met, max_eq⟩
  · intro r hr
    rcases List.mem_cons.1 hr with rfl | hr
    · exact ⟨floor, trivial⟩
    · exact covers r hr
  · exact ⟨low, unguardedMet unguarded hlow, min_eq⟩
  · exact ⟨high, unguardedMet unguarded hhigh, max_eq⟩

/-- The nested power has no guards, so its overall requirement is the greatest of all it
requires. -/
theorem nested_power_requirement_exact :
    let env : Env := { references := fun _ _ _ => none }
    guardedRanges env [nestedPower] = []
      ∧ Construct.exponentiation.contribution ∈ requiredRanges env [nestedPower]
      ∧ (analyzeAll env {} [nestedPower]).metrics.versions.IsMaximum
        (.user :: requiredRanges env [nestedPower]) :=
  ⟨rfl, by decide, (overall_requirement_exact _ [nestedPower]).2.2.2.2 rfl⟩

end Analyzer

end Requisite
