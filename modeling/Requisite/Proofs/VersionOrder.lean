import Mathlib.Data.List.DropRight
import Requisite.Proofs.Level
import Requisite.Proofs.Tables

/-!
# Equal versions

Versions are compared as if their numbers went on with zeros, and hashed without the zeros at the
end. Either way nothing counts but the number at each place, which is zero where none is written:
lists of numbers are even just when they agree at all places, and then the same is left of them
without their last zeros (`compareParts_eq_eq_iff`, `rdropWhile_eq_iff`). So versions are equal just
when what is hashed of them is (`equiv_iff_hashKey`), and a set of versions has as many elements as
there are such keys, whether it is kept in order or hashed (`Represents.length_eq`).
-/
namespace Requisite

namespace Version

/-! ### Numbers place by place -/

theorem forall_getD_iff {as bs : List UInt32} :
    (∀ i, as.getD i 0 = bs.getD i 0)
      ↔ as.headD 0 = bs.headD 0 ∧ ∀ i, as.tail.getD i 0 = bs.tail.getD i 0 := by
  rw [← Nat.and_forall_add_one]
  cases as <;> cases bs <;> simp

theorem compareParts_eq_eq_of_tail {as bs : List UInt32}
    (h : compareParts as.tail bs.tail = .eq ↔ ∀ i, as.tail.getD i 0 = bs.tail.getD i 0) :
    compareParts as bs = .eq ↔ ∀ i, as.getD i 0 = bs.getD i 0 := by
  rw [compareParts_step, Ordering.then_eq_eq, Std.LawfulEqCmp.compare_eq_iff_eq, forall_getD_iff]
  exact and_congr_right fun _ => h

theorem compareParts_eq_eq_iff {as bs : List UInt32} :
    compareParts as bs = .eq ↔ ∀ i, as.getD i 0 = bs.getD i 0 := by
  -- the second list may be the longer one, so that it is gone through when the first has ended
  induction as generalizing bs with
  | cons a as ih => exact compareParts_eq_eq_of_tail ih
  | nil =>
    induction bs with
    | cons b bs ih => exact compareParts_eq_eq_of_tail ih
    | nil => exact iff_of_true rfl fun _ => rfl

/-- Zeros at the end are not seen at any place. -/
theorem getD_append_zeros (as : List UInt32) (n i : Nat) :
    (as ++ List.replicate n 0).getD i 0 = as.getD i 0 := by
  by_cases inside : i < as.length <;> grind

theorem getD_rdropWhile (as : List UInt32) (i : Nat) :
    (as.rdropWhile (· == 0)).getD i 0 = as.getD i 0 := by
  induction as using List.reverseRecOn with
  | nil => rfl
  | append_singleton as a ih =>
    by_cases zero : a = 0
    · rw [List.rdropWhile_concat_pos _ _ _ (by simp [zero]), ih, zero]
      exact (getD_append_zeros as 1 i).symm
    · rw [List.rdropWhile_concat_neg _ _ _ (by simp [zero])]

theorem getLast?_rdropWhile (as : List UInt32) : (as.rdropWhile (· == 0)).getLast? ≠ some 0 := by
  intro last
  have nonempty : as.rdropWhile (· == 0) ≠ [] := by
    intro empty
    simp [empty] at last
  have not_zero := List.rdropWhile_last_not _ _ nonempty
  rw [List.getLast?_eq_some_getLast nonempty, Option.some.injEq] at last
  simp [last] at not_zero

theorem length_le_of_getD_eq {as bs : List UInt32} (ha : as.getLast? ≠ some 0)
    (h : ∀ i, as.getD i 0 = bs.getD i 0) : as.length ≤ bs.length := by
  by_contra longer
  -- the other list has no number where the longer one has its last
  have last := h (as.length - 1)
  have nonempty : 0 < as.length := by omega
  grind

/-- Lists that do not end with zero are equal if they agree at all places. -/
theorem eq_of_getD_eq {as bs : List UInt32} (ha : as.getLast? ≠ some 0) (hb : bs.getLast? ≠ some 0)
    (h : ∀ i, as.getD i 0 = bs.getD i 0) : as = bs := by
  have same_length : as.length = bs.length :=
    Nat.le_antisymm (length_le_of_getD_eq ha h) (length_le_of_getD_eq hb fun i => (h i).symm)
  refine List.ext_getElem same_length fun i _ _ => ?_
  have here := h i
  grind

theorem rdropWhile_eq_iff {as bs : List UInt32} :
    as.rdropWhile (· == 0) = bs.rdropWhile (· == 0) ↔ ∀ i, as.getD i 0 = bs.getD i 0 := by
  constructor
  · intro same i
    rw [← getD_rdropWhile as, same, getD_rdropWhile]
  · intro h
    apply eq_of_getD_eq (getLast?_rdropWhile as) (getLast?_rdropWhile bs)
    simpa only [getD_rdropWhile] using h

/-! ### Equality and hashing -/

theorem compare_rank_eq_eq_iff {s t : Stability} : compare s.rank t.rank = .eq ↔ s = t := by
  rw [Std.LawfulEqCmp.compare_eq_iff_eq]
  cases s <;> cases t <;> decide

theorem compare_eq_eq_iff {v w : Version} :
    compare v w = .eq ↔ compareParts v.parts w.parts = .eq ∧ v.stability = w.stability
      ∧ v.number = w.number := by
  have number : compare v.number w.number = .eq ↔ v.number = w.number :=
    Std.LawfulEqCmp.compare_eq_iff_eq
  rw [compare_def, Ordering.then_eq_eq, Ordering.then_eq_eq, compare_rank_eq_eq_iff, number]

/-- Versions are equal just when what is hashed of them is the same. -/
theorem equiv_iff_hashKey {v w : Version} : v.equiv w ↔ v.hashKey = w.hashKey := by
  have parts : v.significantParts = w.significantParts
      ↔ compareParts v.parts w.parts = .eq := by
    rw [compareParts_eq_eq_iff, ← rdropWhile_eq_iff]
    rfl
  simp only [hashKey, Prod.mk.injEq, parts, equiv, beq_iff_eq, compare_eq_eq_iff]

theorem equiv_self (v : Version) : v.equiv v :=
  equiv_iff_hashKey.2 rfl

/-! ### Sets of versions -/

/-- A list has one version for each that is in another list, up to equality. -/
structure Represents (chosen versions : List Version) : Prop where
  distinct : chosen.Pairwise fun v w => ¬v.equiv w
  covers : ∀ v : Version, (∃ w ∈ chosen, v.equiv w) ↔ ∃ w ∈ versions, v.equiv w

theorem Represents.length_eq {chosen versions : List Version} (h : Represents chosen versions) :
    chosen.length = (versions.map hashKey).dedup.length := by
  have distinct : (chosen.map hashKey).Nodup :=
    List.pairwise_map.2 (h.distinct.imp fun ne same => ne (equiv_iff_hashKey.2 same))
  have carry {vs ws : List Version} (step : ∀ v ∈ vs, ∃ w ∈ ws, v.equiv w) {key}
      (mem : key ∈ vs.map hashKey) : key ∈ ws.map hashKey := by
    obtain ⟨v, hv, rfl⟩ := List.mem_map.1 mem
    obtain ⟨w, hw, equal⟩ := step v hv
    exact List.mem_map.2 ⟨w, hw, (equiv_iff_hashKey.1 equal).symm⟩
  rw [← List.length_map (f := hashKey)]
  refine length_eq_length_dedup distinct fun key => ⟨carry fun v hv => ?_, carry fun v hv => ?_⟩
  · exact (h.covers v).1 ⟨v, hv, v.equiv_self⟩
  · exact (h.covers v).2 ⟨v, hv, v.equiv_self⟩

theorem represents_keys (versions : List Version) :
    Represents (VersionSet.ofVersions versions).keys versions where
  distinct := by
    refine List.pairwise_map.2 ((VersionSet.ofVersions versions).sorted.imp fun lt => ?_)
    simp [equiv, lt]
  covers v := by
    simp only [equiv, beq_iff_eq]
    rw [← Table.isSome_get?_iff, VersionSet.ofVersions, Table.isSome_get?_ofList]
    simp

/-- Equality as a hash set asks for it. -/
@[reducible] def placeBEq : BEq Version := ⟨equiv⟩

/-- The hash of what equal versions have in common, for some way to hash that. -/
@[reducible] def placeHashable (hash : List UInt32 × Stability × UInt32 → UInt64) :
    Hashable Version :=
  ⟨fun v => hash v.hashKey⟩

/-- The hash set of the versions in a list, in which equal versions are one element. -/
def hashSet (hash : List UInt32 × Stability × UInt32 → UInt64) (versions : List Version) :
    @Std.HashSet Version placeBEq (placeHashable hash) :=
  @Std.HashSet.ofList Version placeBEq (placeHashable hash) versions

theorem equivBEq : @EquivBEq Version placeBEq :=
  letI := placeBEq
  { rfl := fun {v} => v.equiv_self
    symm := fun h => equiv_iff_hashKey.2 (equiv_iff_hashKey.1 h).symm
    trans := fun h h' =>
      equiv_iff_hashKey.2 ((equiv_iff_hashKey.1 h).trans (equiv_iff_hashKey.1 h')) }

theorem lawfulHashable (hash : List UInt32 × Stability × UInt32 → UInt64) :
    @LawfulHashable Version placeBEq (placeHashable hash) :=
  letI := placeBEq
  letI := placeHashable hash
  ⟨fun _ _ equal => congrArg hash (equiv_iff_hashKey.1 equal)⟩

theorem represents_toList_hashSet (hash : List UInt32 × Stability × UInt32 → UInt64)
    (versions : List Version) : Represents (hashSet hash versions).toList versions := by
  let _ := placeBEq
  let _ := placeHashable hash
  have _ := equivBEq
  have _ := lawfulHashable hash
  refine ⟨Std.HashSet.distinct_toList.imp Bool.eq_false_iff.1, fun v => ?_⟩
  calc (∃ w ∈ (hashSet hash versions).toList, v.equiv w)
      ↔ (hashSet hash versions).toList.contains v := List.contains_iff_exists_mem_beq.symm
    _ ↔ (hashSet hash versions).contains v := by rw [Std.HashSet.contains_toList]
    _ ↔ versions.contains v := by rw [hashSet, Std.HashSet.contains_ofList]
    _ ↔ ∃ w ∈ versions, v.equiv w := List.contains_iff_exists_mem_beq

theorem size_hashSet (hash : List UInt32 × Stability × UInt32 → UInt64) (versions : List Version) :
    (hashSet hash versions).size = (versions.map hashKey).dedup.length := by
  have _ := equivBEq
  have _ := lawfulHashable hash
  rw [← (represents_toList_hashSet hash versions).length_eq]
  exact Std.HashSet.length_toList.symm

theorem size_ofVersions (versions : List Version) :
    (VersionSet.ofVersions versions).size = (versions.map hashKey).dedup.length := by
  rw [← (represents_keys versions).length_eq, Table.keys, List.length_map, Table.size]

/-! ### The order of versions -/

/-- The version with more zeros behind its numbers. -/
def padded (v : Version) (zeros : Nat) : Version :=
  { v with minors := v.minors ++ List.replicate zeros 0 }

theorem compare_padded (v : Version) (zeros : Nat) : compare (v.padded zeros) v = .eq := by
  refine compare_eq_eq_iff.2 ⟨compareParts_eq_eq_iff.2 fun i => ?_, rfl, rfl⟩
  exact getD_append_zeros v.parts zeros i

/-- The comparison of versions is a total order up to equality, where the reverse comparison has the
reverse outcome. Equal versions are those of which the same is hashed. So the ordered set of the
versions in a list has as many elements as the hash set, whichever of equal versions is kept and
however their common part is hashed; and zeros behind the numbers of a version never matter. -/
theorem comparison_agrees_with_hashing :
    (∀ v : Version, compare v v = .eq)
      ∧ (∀ v w : Version, v ≤ w → w ≤ v → v.equiv w)
      ∧ (∀ u v w : Version, u ≤ v → v ≤ w → u ≤ w)
      ∧ (∀ (u v w : Version) (outcome : Ordering),
          compare u v = outcome → compare v w = outcome → compare u w = outcome)
      ∧ (∀ v w : Version, compare v w = (compare w v).swap)
      ∧ (∀ v w : Version, v ≤ w ∨ w ≤ v)
      ∧ (∀ v w : Version, v.equiv w ↔ v.hashKey = w.hashKey)
      ∧ (∀ (hash : List UInt32 × Stability × UInt32 → UInt64) (versions : List Version),
          (VersionSet.ofVersions versions).size = (hashSet hash versions).size
            ∧ (VersionSet.latest versions).size = (hashSet hash versions).size)
      ∧ ∀ (v w : Version) (zeros : Nat),
          compare (v.padded zeros) w = compare v w ∧ compare w (v.padded zeros) = compare w v := by
  refine ⟨fun v => Std.ReflCmp.compare_self, fun v w le ge => equiv_iff.2 ⟨le, ge⟩,
    fun u v w => Std.le_trans, ?_, fun v w => Std.OrientedCmp.eq_swap, fun v w => Std.le_total,
    fun v w => equiv_iff_hashKey, ?_, ?_⟩
  · rintro u v w (_ | _ | _) huv hvw
    · exact Std.TransCmp.lt_trans huv hvw
    · exact Std.TransCmp.eq_trans huv hvw
    · exact Std.TransCmp.gt_trans huv hvw
  · intro hash versions
    refine ⟨(size_ofVersions versions).trans (size_hashSet hash versions).symm, ?_⟩
    -- the set that keeps the last of equal versions is that of the list from its end
    have same : (versions.map hashKey).dedup.length
        = (versions.reverse.map hashKey).dedup.length := by
      rw [List.map_reverse]
      exact (List.reverse_perm _).symm.dedup.length_eq
    rw [size_hashSet, same]
    exact size_ofVersions versions.reverse
  · intro v w zeros
    have even := v.compare_padded zeros
    exact ⟨Std.TransCmp.congr_left even, Std.TransCmp.congr_right even⟩

end Version

end Requisite
