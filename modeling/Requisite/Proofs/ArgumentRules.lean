import Requisite.Proofs.CatalogBounds
import Requisite.Proofs.Merging

/-!
# Rules for arguments

How far the number of arguments raises the lower end of a range. The rules of an entry come in any
order, may be repeated, and may ask for less than the entry itself; those that apply raise the lower
end one after the other, so that it ends at the greatest of all that was asked for
(`isGreatest_min_toRange`). More arguments only make more rules apply.
-/
namespace Requisite.Catalog

namespace Entry

theorem isGreatest_min_toRange (e : Entry) (argCount : Option Nat) :
    IsGreatest {v | v ∈ e.phpMin :: (e.applying argCount).map ArgumentRule.phpMin}
      (e.toRange argCount).min := by
  rw [toRange_eq, ← List.foldl_map]
  exact isGreatest_foldl Version.isGreatest_raise e.phpMin _

theorem applying_mono {e : Entry} {fewer more : Nat} (h : fewer ≤ more) {rule : ArgumentRule}
    (mem : rule ∈ e.applying (some fewer)) : rule ∈ e.applying (some more) := by
  grind [mem_applying]

theorem min_toRange_mono (e : Entry) {fewer more : Nat} (h : fewer ≤ more) :
    (e.toRange (some fewer)).min ≤ (e.toRange (some more)).min := by
  have asked := (e.isGreatest_min_toRange (some fewer)).1
  refine (e.isGreatest_min_toRange (some more)).2 ?_
  grind [applying_mono]

/-- Only the lower end of a range depends on the number of arguments. -/
theorem toRange_with_min (e : Entry) (argCount : Option Nat) :
    { e.toRange argCount with min := e.phpMin } = e.toRange none := by
  rw [toRange_eq]
  rfl

/-- Which rules an entry has decides about its ranges, and not their order or number. -/
theorem toRange_equiv {e : Entry} {rules : List ArgumentRule}
    (same : ∀ rule, rule ∈ rules ↔ rule ∈ e.arguments) (argCount : Option Nat) :
    ({ e with arguments := rules }.toRange argCount).equiv (e.toRange argCount) := by
  have asked (v : Version) :
      v ∈ e.phpMin :: ({ e with arguments := rules }.applying argCount).map ArgumentRule.phpMin
        ↔ v ∈ e.phpMin :: (e.applying argCount).map ArgumentRule.phpMin := by
    simp [mem_applying, same]
  have min := Version.equiv_iff.2 (le_and_ge_of_isGreatest asked
    ({ e with arguments := rules }.isGreatest_min_toRange argCount)
    (e.isGreatest_min_toRange argCount))
  rw [toRange_eq] at min ⊢
  rw [toRange_eq e] at min ⊢
  exact Range.equiv_with_min min

end Entry

/-- A number of arguments raises the lower end of the range of a known symbol to the greatest of
what is asked for, by its entry and by the rules for so many arguments. If their number is unknown,
only the entry asks. The lower end never falls with more arguments, and the order of the rules and
how often they are there do not matter. Nothing else in the range depends on the arguments. -/
theorem argument_rules_raise_to_greatest {c : Catalog} {category : Category} {name : String}
    {entry : Entry} (known : c.get? category name = some entry) :
    (∀ count, IsGreatest
        {v | v = entry.phpMin
          ∨ ∃ rule ∈ entry.arguments, rule.minCount.toNat ≤ count ∧ rule.phpMin = v}
        (c.find category name (some count)).min)
      ∧ (c.find category name none).min = entry.phpMin
      ∧ (∀ fewer more, fewer ≤ more →
          (c.find category name (some fewer)).min ≤ (c.find category name (some more)).min)
      ∧ (∀ argCount,
          { c.find category name argCount with min := entry.phpMin } = c.find category name none)
      ∧ ∀ (c' : Catalog) (name' : String) (rules : List ArgumentRule),
          (∀ rule, rule ∈ rules ↔ rule ∈ entry.arguments) →
          c'.get? category name' = some { entry with arguments := rules } →
          ∀ argCount, (c'.find category name' argCount).equiv (c.find category name argCount) := by
  simp only [find_of_known known]
  refine ⟨fun count => ?_, rfl, fun fewer more => entry.min_toRange_mono,
    entry.toRange_with_min, fun c' name' rules same known' argCount => ?_⟩
  · have asked : {v | v ∈ entry.phpMin :: (entry.applying (some count)).map ArgumentRule.phpMin}
        = {v | v = entry.phpMin
          ∨ ∃ rule ∈ entry.arguments, rule.minCount.toNat ≤ count ∧ rule.phpMin = v} := by
      ext v
      simp [Entry.mem_applying, and_assoc]
    exact asked ▸ entry.isGreatest_min_toRange (some count)
  · rw [find_of_known known']
    exact Entry.toRange_equiv same argCount

/-- A function with rules that are out of order, repeated, and lower than the entry. -/
def unsorted : Entry :=
  { phpMin := .release 5 3 0
    phpMax := some (.release 8 0 0)
    arguments :=
      [⟨3, .release 7 0 0⟩, ⟨1, .release 5 0 0⟩, ⟨2, .release 5 6 0⟩, ⟨3, .release 7 0 0⟩] }

theorem unsorted_rules_raise_to_greatest :
    ∃ c, ofEntries [(.functions, "f", unsorted)] = .ok c ∧ c.get? .functions "\\F" = some unsorted
      ∧ IsGreatest
          {v | v = Version.release 5 3 0
            ∨ ∃ rule ∈ unsorted.arguments, rule.minCount.toNat ≤ 2 ∧ rule.phpMin = v}
          (c.find .functions "\\F" (some 2)).min
      ∧ (c.find .functions "\\F" (some 2)).min = .release 5 6 0 := by
  obtain ⟨c, accepted, stored⟩ : ∃ c, ofEntries [(.functions, "f", unsorted)] = .ok c
      ∧ c.get? .functions "f" = some unsorted := ⟨_, rfl, by decide +kernel⟩
  have spelled : normalize .functions "\\F" = "f" := by decide +kernel
  have plain : normalize .functions "f" = "f" := by decide +kernel
  have known : c.get? .functions "\\F" = some unsorted := by rwa [get?, spelled, ← plain]
  refine ⟨c, accepted, known, (argument_rules_raise_to_greatest known).1 2, ?_⟩
  rw [find_of_known known]
  decide +kernel

end Requisite.Catalog
