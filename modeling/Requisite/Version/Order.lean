import Requisite.Version

/-!
# Versions are ordered

The comparison of versions is oriented and transitive, so that `<` and `≤` on versions behave as on
numbers, with equality up to zeros that may be left out.
-/
namespace Requisite

/-- The second part of a two-part comparison matters only where the first is even. -/
theorem then_isLE_trans {α : Type} {cmp : α → α → Ordering} [Std.TransCmp cmp] {a b c : α}
    {p q r : Ordering} (h : p.isLE → q.isLE → r.isLE) (hab : ((cmp a b).then p).isLE)
    (hbc : ((cmp b c).then q).isLE) : ((cmp a c).then r).isLE := by
  rcases hb : cmp a b with _ | _ | _
  · rcases hc : cmp b c with _ | _ | _
    · simp [Std.TransCmp.lt_trans hb hc]
    · simp [Std.TransCmp.lt_of_lt_of_eq hb hc]
    · simp [hc] at hbc
  · rw [Std.TransCmp.congr_left hb]
    rcases hc : cmp b c with _ | _ | _
    · simp
    · simp only [hb, hc, Ordering.eq_then] at hab hbc ⊢
      exact h hab hbc
    · simp [hc] at hbc
  · simp [hb] at hab

namespace Version

theorem compare_zero_of_ne {b : UInt32} (hb : b ≠ 0) : compare 0 b = .lt := by
  have pos : 0 < b := UInt32.pos_iff_ne_zero.2 hb
  simp [compare, compareOfLessAndEq, pos]

/-- Both lists may be taken apart at once, whichever is the shorter. -/
theorem compareParts_step (as bs : List UInt32) :
    compareParts as bs
      = (compare (as.headD 0) (bs.headD 0)).then (compareParts as.tail bs.tail) := by
  cases as with
  | cons a as => rfl
  | nil =>
    cases bs with
    | nil => rfl
    | cons b bs =>
      rw [compareParts, List.all_cons, List.headD_nil, List.headD_cons]
      by_cases hb : b = 0
      · have even : compare (0 : UInt32) 0 = .eq := Std.ReflCmp.compare_self
        rw [hb, even, beq_self_eq_true, Bool.true_and, Ordering.eq_then]
        rfl
      · rw [compare_zero_of_ne hb, beq_false_of_ne hb, Bool.false_and]
        rfl

theorem compareParts_swap (as bs : List UInt32) :
    compareParts as bs = (compareParts bs as).swap := by
  have swap (a b : UInt32) : (compare b a).swap = compare a b := Std.OrientedCmp.eq_swap.symm
  induction as generalizing bs with
  | cons a as ih =>
    rw [compareParts_step, compareParts_step bs, Ordering.swap_then, swap]
    exact congrArg _ (ih bs.tail)
  | nil =>
    induction bs with
    | nil => rfl
    | cons b bs ih =>
      rw [compareParts_step, compareParts_step (b :: bs), Ordering.swap_then, swap]
      exact congrArg _ ih

theorem compareParts_trans {as bs cs : List UInt32} (hab : (compareParts as bs).isLE)
    (hbc : (compareParts bs cs).isLE) : (compareParts as cs).isLE := by
  induction as generalizing bs cs with
  | nil => rw [compareParts]; split <;> rfl
  | cons a as ih =>
    rw [compareParts_step] at hab hbc ⊢
    exact then_isLE_trans ih hab hbc

instance : Std.TransCmp compareParts where
  eq_swap := compareParts_swap _ _
  isLE_trans := compareParts_trans

theorem compare_def (v w : Version) :
    compare v w = (compareParts v.parts w.parts).then
      ((compare v.stability.rank w.stability.rank).then (compare v.number w.number)) := rfl

instance : Std.TransOrd Version where
  eq_swap {v w} := by
    have rank : (compare w.stability.rank v.stability.rank).swap
        = compare v.stability.rank w.stability.rank := Std.OrientedCmp.eq_swap.symm
    have number : (compare w.number v.number).swap = compare v.number w.number :=
      Std.OrientedCmp.eq_swap.symm
    rw [compare_def, compare_def, Ordering.swap_then, Ordering.swap_then, rank, number,
      ← compareParts_swap]
  isLE_trans {u v w} huv hvw := by
    rw [compare_def] at huv hvw ⊢
    exact then_isLE_trans (then_isLE_trans Std.TransCmp.isLE_trans) huv hvw

end Version

end Requisite
