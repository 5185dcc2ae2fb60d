import Mathlib.Order.Bounds.Basic
import Requisite.Proofs.Level

/-!
# Merging

A range that others are merged into keeps the greatest of all bounds, and keeps for itself what it
says beyond them. Each bound is handled alone, by an operation that keeps the greater of two, the
first if they are equal (`isGreatest_raise`, `isGreatest_raiseBound`); so a fold keeps the greatest
of all (`isGreatest_foldl`), and neither their order nor their number matters.

Only the bounds on an extension depend on where they come from: a range that belongs to no extension
brings none. `foldl_merge` has all of this in one equation.
-/
namespace Requisite

/-! ### Keeping the greater of two -/

section

variable {α : Type} [LE α] [Std.IsPreorder α]

/-- If each step keeps the greater of two, the greatest of all is kept in the end. -/
theorem isGreatest_foldl {keep : α → α → α} (h : ∀ a b, IsGreatest {a, b} (keep a b)) (base : α)
    (others : List α) : IsGreatest {a | a ∈ base :: others} (others.foldl keep base) := by
  induction others generalizing base with
  | nil => simp [IsGreatest, upperBounds, Std.le_refl]
  | cons a rest ih =>
    -- what is kept of the first two stands for both of them from then on
    have kept : keep base a = base ∨ keep base a = a := (h base a).1
    have above := (h base a).2
    obtain ⟨mem, covers⟩ := ih (keep base a)
    have reached : keep base a ≤ rest.foldl keep (keep base a) := covers List.mem_cons_self
    constructor
    · rcases List.mem_cons.1 mem with same | later
      · rw [List.foldl_cons, same]
        rcases kept with here | here <;> simp [here]
      · simp [later]
    · intro b hb
      rcases List.mem_cons.1 hb with rfl | hb
      · exact Std.le_trans (above (Or.inl rfl)) reached
      · rcases List.mem_cons.1 hb with rfl | later
        · exact Std.le_trans (above (Or.inr rfl)) reached
        · exact covers (List.mem_cons_of_mem _ later)

omit [Std.IsPreorder α] in
/-- Which elements there are decides about the greatest, up to its place in the order. -/
theorem le_and_ge_of_isGreatest {as bs : List α} {a b : α} (same : ∀ x, x ∈ as ↔ x ∈ bs)
    (ha : IsGreatest {x | x ∈ as} a) (hb : IsGreatest {x | x ∈ bs} b) : a ≤ b ∧ b ≤ a :=
  ⟨hb.2 ((same a).1 ha.1), ha.2 ((same b).2 hb.1)⟩

end

namespace Version

theorem isGreatest_raise (v w : Version) : IsGreatest {v, w} (v.raise w) := by
  constructor
  · unfold raise
    split <;> simp
  · rintro u (rfl | rfl)
    · exact le_raise_iff.2 (Or.inl (Std.le_refl _))
    · exact le_raise_iff.2 (Or.inr (Std.le_refl _))

theorem raise_eq_self {v w : Version} (h : w ≤ v) : v.raise w = v := by
  unfold raise
  grind

theorem raise_assoc (u v w : Version) : (u.raise v).raise w = u.raise (v.raise w) := by
  unfold raise
  grind

end Version

instance : Std.IsPreorder (Option Version) where
  le_refl a := by cases a <;> simp [Std.le_refl]
  le_trans a b c hab hbc := by
    cases a <;> cases b <;> cases c <;> grind [Std.le_trans]

namespace Bound

theorem isGreatest_raiseBound (a b : Option Version) : IsGreatest {a, b} (raiseBound a b) := by
  rcases a with _ | v <;> rcases b with _ | w
  · simp [raiseBound, IsGreatest, upperBounds]
  · simp [raiseBound, IsGreatest, upperBounds, Std.le_refl]
  · simp [raiseBound, IsGreatest, upperBounds, Std.le_refl]
  · have kept : v.raise w = v ∨ v.raise w = w := (Version.isGreatest_raise v w).1
    have above := (Version.isGreatest_raise v w).2
    constructor
    · rcases kept with here | here <;> simp [raiseBound, here]
    · rintro _ (rfl | rfl)
      · exact Option.some_le_some.2 (above (Or.inl rfl))
      · exact Option.some_le_some.2 (above (Or.inr rfl))

/-- The greatest of some bounds is absent only if all of them are. -/
theorem eq_none_iff {bound : Option Version} {bounds : List (Option Version)}
    (h : IsGreatest {b | b ∈ bounds} bound) : bound = none ↔ ∀ b ∈ bounds, b = none := by
  constructor
  · rintro rfl b mem
    exact Option.le_none.1 (h.2 mem)
  · intro all
    exact all bound h.1

theorem raiseBound_eq_self {a b : Option Version} (h : b ≤ a) : raiseBound a b = a := by
  cases a <;> cases b <;> simp_all [raiseBound, Version.raise_eq_self]

theorem raiseBound_assoc (a b c : Option Version) :
    raiseBound (raiseBound a b) c = raiseBound a (raiseBound b c) := by
  cases a <;> cases b <;> cases c <;> simp [raiseBound, Version.raise_assoc]

theorem sameBound_iff {a b : Option Version} :
    Range.equiv.sameBound a b ↔ a ≤ b ∧ b ≤ a := by
  cases a <;> cases b <;> simp [Range.equiv.sameBound, Version.equiv_iff]

end Bound

namespace Range

/-! ### Merging two -/

theorem merge_eq (r other : Range) :
    r.merge other = { r with
      min := r.min.raise other.min
      max := raiseBound r.max other.max
      extensionMin :=
        if other.isUser then r.extensionMin else raiseBound r.extensionMin other.extensionMin
      extensionMax :=
        if other.isUser then r.extensionMax
        else raiseBound r.extensionMax other.extensionMax } := by
  unfold merge require
  cases other.isUser <;> rfl

/-- What a range covers is merged into it without effect. -/
theorem merge_eq_self {r other : Range} (min : other.min ≤ r.min) (max : other.max ≤ r.max)
    (extensionMin : other.isUser = false → other.extensionMin ≤ r.extensionMin)
    (extensionMax : other.isUser = false → other.extensionMax ≤ r.extensionMax) :
    r.merge other = r := by
  rw [merge_eq, Version.raise_eq_self min, Bound.raiseBound_eq_self max]
  cases user : other.isUser with
  | true => rfl
  | false =>
    simp [Bound.raiseBound_eq_self (extensionMin user),
      Bound.raiseBound_eq_self (extensionMax user)]

theorem merge_self (r : Range) : r.merge r = r :=
  merge_eq_self (Std.le_refl _) (Std.le_refl _) (fun _ => Std.le_refl _) fun _ => Std.le_refl _

theorem merge_assoc {a b c : Range} (h : b.isUser = false ∨ c.isUser) :
    (a.merge b).merge c = a.merge (b.merge c) := by
  have owner : (b.merge c).isUser = b.isUser := by simp [merge_eq, isUser]
  rw [merge_eq (a.merge b), merge_eq a b, merge_eq a (b.merge c), owner, merge_eq b c]
  rcases h with user | user
  · cases c.isUser <;> simp [user, Version.raise_assoc, Bound.raiseBound_assoc]
  · cases b.isUser <;> simp [user, Version.raise_assoc, Bound.raiseBound_assoc]

/-! ### Merging all of a list -/

/-- Those of some ranges that belong to an extension. -/
def builtIn (ranges : List Range) : List Range :=
  ranges.filter fun r => !r.isUser

theorem foldl_merge (base : Range) (ranges : List Range) :
    ranges.foldl merge base = { base with
      min := (ranges.map min).foldl Version.raise base.min
      max := (ranges.map max).foldl raiseBound base.max
      extensionMin := ((builtIn ranges).map extensionMin).foldl raiseBound base.extensionMin
      extensionMax := ((builtIn ranges).map extensionMax).foldl raiseBound base.extensionMax } := by
  induction ranges generalizing base with
  | nil => rfl
  | cons r rest ih =>
    rw [List.foldl_cons, ih, merge_eq]
    cases user : r.isUser <;> simp [builtIn, user]

/-- What comes of merging `ranges` into `base`: the greatest of all bounds, where those on an
extension count only if their range belongs to one, and for the rest what `base` says. -/
structure IsMerged (merged base : Range) (ranges : List Range) : Prop where
  min : IsGreatest {v | v ∈ base.min :: ranges.map Range.min} merged.min
  max : IsGreatest {b | b ∈ base.max :: ranges.map Range.max} merged.max
  max_eq_none_iff : merged.max = none ↔ ∀ r ∈ base :: ranges, r.max = none
  extensionMin :
    IsGreatest {b | b ∈ base.extensionMin :: (builtIn ranges).map Range.extensionMin}
      merged.extensionMin
  extensionMax :
    IsGreatest {b | b ∈ base.extensionMax :: (builtIn ranges).map Range.extensionMax}
      merged.extensionMax
  extension : merged.extension = base.extension
  usageCount : merged.usageCount = base.usageCount
  optional : merged.optional = base.optional
  excluded : merged.excluded = base.excluded

theorem isMerged_foldl (base : Range) (ranges : List Range) :
    IsMerged (ranges.foldl merge base) base ranges := by
  have max := isGreatest_foldl Bound.isGreatest_raiseBound base.max (ranges.map Range.max)
  rw [foldl_merge]
  exact {
    min := isGreatest_foldl Version.isGreatest_raise _ _
    max := max
    max_eq_none_iff := by simpa using Bound.eq_none_iff max
    extensionMin := isGreatest_foldl Bound.isGreatest_raiseBound _ _
    extensionMax := isGreatest_foldl Bound.isGreatest_raiseBound _ _
    extension := rfl
    usageCount := rfl
    optional := rfl
    excluded := rfl }

theorem sameVersions_self (versions : List Version) : equiv.sameVersions versions versions := by
  induction versions with
  | nil => rfl
  | cons v rest ih => simp [equiv.sameVersions, ih, Version.equiv_iff, Std.le_refl]

/-- Ranges are equal if they differ in no more than how their bounds are written. -/
theorem equiv_of_bounds {a b : Range} (extension : a.extension = b.extension)
    (extensionMin : equiv.sameBound a.extensionMin b.extensionMin)
    (extensionMax : equiv.sameBound a.extensionMax b.extensionMax)
    (min : a.min.equiv b.min) (max : equiv.sameBound a.max b.max)
    (usageCount : a.usageCount = b.usageCount) (optional : a.optional = b.optional)
    (excluded : a.excluded = b.excluded) : a.equiv b := by
  simp [equiv, extension, extensionMin, extensionMax, min, max, usageCount, optional, excluded,
    sameVersions_self]

theorem equiv_with_min {r : Range} {v w : Version} (h : v.equiv w) :
    { r with min := v }.equiv { r with min := w } := by
  have self (b : Option Version) : equiv.sameBound b b :=
    Bound.sameBound_iff.2 ⟨Std.le_refl b, Std.le_refl b⟩
  exact equiv_of_bounds rfl (self _) (self _) h (self _) rfl rfl rfl

/-- Which ranges were merged decides about the outcome, up to how bounds are written. -/
theorem IsMerged.equiv {a b base : Range} {ranges others : List Range}
    (ha : IsMerged a base ranges) (hb : IsMerged b base others)
    (same : ∀ r, r ∈ ranges ↔ r ∈ others) : a.equiv b := by
  have same_builtIn : ∀ r, r ∈ builtIn ranges ↔ r ∈ builtIn others := by simp [builtIn, same]
  have spread {β : Type} (f : Range → β) {rs qs : List Range} (same : ∀ r, r ∈ rs ↔ r ∈ qs)
      (x y : β) : y ∈ x :: rs.map f ↔ y ∈ x :: qs.map f := by simp [same]
  have min := le_and_ge_of_isGreatest (spread _ same _) ha.min hb.min
  have max := le_and_ge_of_isGreatest (spread _ same _) ha.max hb.max
  have extensionMin :=
    le_and_ge_of_isGreatest (spread _ same_builtIn _) ha.extensionMin hb.extensionMin
  have extensionMax :=
    le_and_ge_of_isGreatest (spread _ same_builtIn _) ha.extensionMax hb.extensionMax
  exact equiv_of_bounds (ha.extension.trans hb.extension.symm)
    (Bound.sameBound_iff.2 extensionMin) (Bound.sameBound_iff.2 extensionMax)
    (Version.equiv_iff.2 min) (Bound.sameBound_iff.2 max)
    (ha.usageCount.trans hb.usageCount.symm) (ha.optional.trans hb.optional.symm)
    (ha.excluded.trans hb.excluded.symm)

/-- Merging a list of ranges into another keeps the greatest of all bounds, and what the other says
beyond them. So neither the order of the list matters nor how often a range is in it. Three ranges
may be merged from either side, unless the middle one keeps the bounds of the last from the first
because it belongs to no extension. Merging a range into itself changes nothing. -/
theorem merging_keeps_greatest (base : Range) (ranges : List Range) :
    IsMerged (ranges.foldl merge base) base ranges
      ∧ (∀ others : List Range, (∀ r, r ∈ others ↔ r ∈ ranges) →
          (others.foldl merge base).equiv (ranges.foldl merge base))
      ∧ (∀ a b c : Range, b.isUser = false ∨ c.isUser →
          (a.merge b).merge c = a.merge (b.merge c))
      ∧ ∀ a : Range, a.merge a = a :=
  ⟨isMerged_foldl base ranges,
    fun others same => (isMerged_foldl base others).equiv (isMerged_foldl base ranges) same,
    fun _ _ _ => merge_assoc, merge_self⟩

-- In the middle, a range that belongs to no extension keeps the bounds on one from going through.
example :
    let json := ofExtension "json" (some (.release 1 2 0)) .baseline
    ((user.merge user).merge json).extensionMin = some (.release 1 2 0)
      ∧ (user.merge (user.merge json)).extensionMin = none := by
  decide

end Range

end Requisite
