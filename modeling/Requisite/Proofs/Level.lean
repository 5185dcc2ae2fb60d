import Requisite.Metrics

/-!
# Levels

How far a requirement goes is asked one version at a time. A level is a version on the lower or on
the upper end of a stretch of releases, and a requirement reaches it if that end is no earlier. Of
two merged requirements the greater end wins, so together they reach just what one of them reaches:
`Requirement.reaches_widen` and `Range.reaches_merge` turn merging into a disjunction.

Requirements are compared end by end, where an absent bound is below every other. They are in order
when the one reaches all that the other reaches, and equal when they reach the same.
-/
namespace Requisite

namespace Version

instance : Std.IsLinearPreorder Version := Std.IsLinearPreorder.of_ord

theorem equiv_iff {v w : Version} : v.equiv w ↔ v ≤ w ∧ w ≤ v := by
  have swap : compare w v = (compare v w).swap := Std.OrientedCmp.eq_swap
  rw [equiv, ← Std.isLE_compare, ← Std.isLE_compare, swap]
  cases compare v w <;> simp

theorem le_raise_iff {u v w : Version} : u ≤ v.raise w ↔ u ≤ v ∨ u ≤ w := by
  unfold raise
  split
  · rename_i lt
    exact ⟨Or.inr, fun h => h.elim (fun hv => Std.le_trans hv (Std.le_of_lt lt)) id⟩
  · rename_i nlt
    exact ⟨Or.inl, fun h => h.elim id fun hw => Std.le_trans hw (Std.not_lt.1 nlt)⟩

end Version

/-! ### The order of bounds and requirements -/

namespace Bound

/-- Whether a bound is at most another one; an absent bound is below all others. -/
def atMost : Option Version → Option Version → Prop
  | none, _ => True
  | some _, none => False
  | some v, some w => v ≤ w

end Bound

namespace Requirement

instance : LE Requirement where
  le r q := r.min ≤ q.min ∧ Bound.atMost r.max q.max

/-- Whether two requirements agree at both ends, with versions compared by their place. -/
def equiv (r q : Requirement) : Bool :=
  r.min.equiv q.min && Range.equiv.sameBound r.max q.max

end Requirement

/-- The bounds of a range on the runtime. -/
def Range.requirement (r : Range) : Requirement :=
  { min := r.min, max := r.max }

/-! ### Levels -/

/-- A version, on the lower or on the upper end of a stretch of releases. -/
inductive Level where
  | lower (version : Version)
  | upper (version : Version)

/-- Whether a requirement goes at least as far as a level. -/
def Requirement.reaches (r : Requirement) : Level → Prop
  | .lower v => v ≤ r.min
  | .upper v => ∃ w, r.max = some w ∧ v ≤ w

/-- Whether a range goes at least as far as a level. -/
def Range.reaches (r : Range) (l : Level) : Prop :=
  r.requirement.reaches l

/-- The greater of two bounds is beyond a version just when one of them is. -/
theorem exists_raiseBound_iff {a b : Option Version} {v : Version} :
    (∃ w, raiseBound a b = some w ∧ v ≤ w) ↔
      (∃ w, a = some w ∧ v ≤ w) ∨ ∃ w, b = some w ∧ v ≤ w := by
  rcases a with _ | x <;> rcases b with _ | y <;> simp [raiseBound, Version.le_raise_iff]

namespace Requirement

theorem reaches_widen {q : Requirement} {r : Range} {l : Level} :
    (q.widen r).reaches l ↔ q.reaches l ∨ r.reaches l := by
  cases l with
  | lower v => exact Version.le_raise_iff
  | upper v => exact exists_raiseBound_iff

theorem le_iff_reaches {r q : Requirement} : r ≤ q ↔ ∀ l, r.reaches l → q.reaches l := by
  constructor
  · rintro ⟨hmin, hmax⟩ l hl
    cases l with
    | lower v => exact Std.le_trans hl hmin
    | upper v =>
      obtain ⟨w, hw, le⟩ := hl
      rw [hw] at hmax
      rcases hq : q.max with _ | x
      · rw [hq] at hmax
        exact hmax.elim
      · rw [hq] at hmax
        exact ⟨x, hq, Std.le_trans le hmax⟩
  · intro h
    refine ⟨h (.lower r.min) (Std.le_refl _), ?_⟩
    rcases hr : r.max with _ | w
    · trivial
    · obtain ⟨x, hx, le⟩ := h (.upper w) ⟨w, hr, Std.le_refl _⟩
      rw [hx]
      exact le

theorem equiv_iff_le {r q : Requirement} : r.equiv q ↔ r ≤ q ∧ q ≤ r := by
  have bounds : Range.equiv.sameBound r.max q.max ↔
      Bound.atMost r.max q.max ∧ Bound.atMost q.max r.max := by
    rcases r.max with _ | v <;> rcases q.max with _ | w <;>
      simp [Range.equiv.sameBound, Bound.atMost, Version.equiv_iff]
  rw [equiv, Bool.and_eq_true, Version.equiv_iff, bounds]
  exact and_and_and_comm

/-- Requirements that reach the same levels are equal. -/
theorem equiv_iff_reaches {r q : Requirement} :
    r.equiv q ↔ ∀ l, r.reaches l ↔ q.reaches l := by
  rw [equiv_iff_le, le_iff_reaches, le_iff_reaches]
  exact ⟨fun h l => ⟨h.1 l, h.2 l⟩, fun h => ⟨fun l => (h l).1, fun l => (h l).2⟩⟩

end Requirement

namespace Range

theorem requirement_merge (a b : Range) :
    (a.merge b).requirement = a.requirement.widen b := by
  unfold merge
  dsimp only
  split <;> rfl

theorem reaches_merge {a b : Range} {l : Level} :
    (a.merge b).reaches l ↔ a.reaches l ∨ b.reaches l := by
  rw [reaches, requirement_merge]
  exact Requirement.reaches_widen

theorem reaches_runtimeBounds {r : Range} {l : Level} :
    r.runtimeBounds.reaches l ↔ r.reaches l := Iff.rfl

end Range

/-! ### The greatest of several ranges -/

/-- A requirement goes exactly as far as a list of ranges: at both ends it is the greatest of their
bounds. -/
structure Requirement.IsMaximum (q : Requirement) (ranges : List Range) : Prop where
  covers : ∀ r ∈ ranges, r.requirement ≤ q
  min_attained : ∃ r ∈ ranges, q.min.equiv r.min
  max_attained : ∃ r ∈ ranges, Range.equiv.sameBound q.max r.max

theorem Requirement.isMaximum_of_reaches {q : Requirement} {ranges : List Range}
    (nonempty : ranges ≠ []) (h : ∀ l, q.reaches l ↔ ∃ r ∈ ranges, r.reaches l) :
    q.IsMaximum ranges := by
  have covers : ∀ r ∈ ranges, r.requirement ≤ q := fun r hr =>
    le_iff_reaches.2 fun l hl => (h l).2 ⟨r, hr, hl⟩
  refine ⟨covers, ?_, ?_⟩
  · obtain ⟨r, hr, le⟩ := (h (.lower q.min)).1 (Std.le_refl _)
    exact ⟨r, hr, Version.equiv_iff.2 ⟨le, (covers r hr).1⟩⟩
  · rcases hq : q.max with _ | w
    · obtain ⟨r, hr⟩ := List.exists_mem_of_ne_nil ranges nonempty
      have none : Bound.atMost r.max none := hq ▸ (covers r hr).2
      refine ⟨r, hr, ?_⟩
      rcases hx : r.max with _ | x
      · rfl
      · rw [hx] at none
        exact none.elim
    · obtain ⟨r, hr, x, hx, le⟩ := (h (.upper w)).1 ⟨w, hq, Std.le_refl _⟩
      have back : Bound.atMost r.max (some w) := hq ▸ (covers r hr).2
      have hx' : r.max = some x := hx
      rw [hx'] at back
      refine ⟨r, hr, ?_⟩
      rw [hx']
      exact Version.equiv_iff.2 ⟨le, back⟩

end Requisite
