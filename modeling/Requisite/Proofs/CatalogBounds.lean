import Requisite.Catalog
import Requisite.Proofs.Level

/-!
# Bounds of what a catalog finds

An entry whose bounds are the wrong way round is refused, so all entries of a catalog have theirs
the right way round, however it came about (`Sound.insertAll`). The range of a use is made of
its entry later, and then the rules for its arguments raise the lower end. When the entry was
accepted, nobody looked at those rules. So the bounds on the extension are always the right way
round, and those on the runtime are unless a rule that applies goes beyond the upper end
(`min_toRange_le_iff`).
-/
namespace Requisite

theorem Version.raise_le_iff {u v w : Version} : v.raise w ≤ u ↔ v ≤ u ∧ w ≤ u := by
  unfold raise
  split
  · rename_i lt
    exact ⟨fun h => ⟨Std.le_trans (Std.le_of_lt lt) h, h⟩, And.right⟩
  · rename_i nlt
    exact ⟨fun h => ⟨h, Std.le_trans (Std.not_lt.1 nlt) h⟩, And.left⟩

namespace Catalog

namespace Entry

theorem inverted?_eq_none_iff {e : Entry} :
    e.inverted? = none ↔ (∀ hi, e.phpMax = some hi → e.phpMin ≤ hi)
      ∧ ∀ lo hi, e.extMin = some lo → e.extMax = some hi → lo ≤ hi := by
  unfold inverted?
  rcases e.phpMax with _ | phpMax <;> rcases e.extMin with _ | extMin <;>
    rcases e.extMax with _ | extMax <;> simp [Std.not_lt]

/-! ### Rules for arguments -/

/-- The rules that apply to a use with `argCount` arguments; none do if their number is unknown. -/
def applying (e : Entry) (argCount : Option Nat) : List ArgumentRule :=
  argCount.elim [] fun count => e.arguments.filter fun rule => rule.minCount.toNat ≤ count

theorem mem_applying {e : Entry} {argCount : Option Nat} {rule : ArgumentRule} :
    rule ∈ e.applying argCount
      ↔ rule ∈ e.arguments ∧ ∃ count, argCount = some count ∧ rule.minCount.toNat ≤ count := by
  cases argCount <;> simp [applying]

/-- Rules raise the lower end of a range one after the other, and leave the rest alone. -/
theorem foldl_require (rules : List ArgumentRule) (range : Range) :
    rules.foldl (fun range rule => range.require rule.phpMin) range
      = { range with min := rules.foldl (fun min rule => min.raise rule.phpMin) range.min } := by
  induction rules generalizing range with
  | nil => rfl
  | cons rule rest ih => exact ih (range.require rule.phpMin)

theorem toRange_eq (e : Entry) (argCount : Option Nat) :
    e.toRange argCount = { e.toRange none with
      min := (e.applying argCount).foldl (fun min rule => min.raise rule.phpMin) e.phpMin } := by
  cases argCount with
  | none => rfl
  | some count => exact foldl_require (e.applying (some count)) (e.toRange none)

theorem foldl_raise_le_iff {rules : List ArgumentRule} {v u : Version} :
    rules.foldl (fun min rule => min.raise rule.phpMin) v ≤ u
      ↔ v ≤ u ∧ ∀ rule ∈ rules, rule.phpMin ≤ u := by
  induction rules generalizing v with
  | nil => simp
  | cons rule rest ih => simp [ih, Version.raise_le_iff, and_assoc]

/-- The lower end of a use is below a version if that of the entry is, and so are all rules that
apply. -/
theorem min_toRange_le_iff {e : Entry} {argCount : Option Nat} {u : Version} :
    (e.toRange argCount).min ≤ u
      ↔ e.phpMin ≤ u ∧ ∀ rule ∈ e.applying argCount, rule.phpMin ≤ u := by
  rw [toRange_eq]
  exact foldl_raise_le_iff

end Entry

/-! ### Ranges that are found -/

theorem find_of_known {c : Catalog} {category : Category} {name : String} {entry : Entry}
    (known : c.get? category name = some entry) (argCount : Option Nat) :
    c.find category name argCount = entry.toRange argCount := by
  simp [find, find?, known]

theorem find_of_unknown {c : Catalog} {category : Category} {name : String}
    (unknown : c.get? category name = none) (argCount : Option Nat) :
    c.find category name argCount = .user := by
  simp [find, find?, unknown]

/-! ### Entries that were accepted -/

/-- All entries have their bounds the right way round. -/
def Sound (c : Catalog) : Prop :=
  ∀ category name entry, c.get? category name = some entry → entry.inverted? = none

theorem sound_empty : ({} : Catalog).Sound := by
  intro category name entry found
  cases found

section Insert

variable {c c' : Catalog} {category : Category} {name : String} {entry : Entry}
  {entries : List (Category × String × Entry)}

theorem run_insert_of_upright (h : entry.inverted? = none) :
    (insert category name entry).run c
      = .ok () ⟨c.entries.insert category (normalize category name) entry⟩ := by
  rw [insert, Entry.validate, h]
  rfl

/-- A refusal names the bounds, and the catalog that it leaves behind is as before. -/
theorem run_insert_of_inverted {lo hi : Version} (h : entry.inverted? = some (lo, hi)) :
    (insert category name entry).run c = .error (.invertedRange category name lo hi) c := by
  rw [insert, Entry.validate, h]
  rfl

theorem insert_eq_ok_iff :
    (insert category name entry).run c = .ok () c'
      ↔ entry.inverted? = none
        ∧ c' = ⟨c.entries.insert category (normalize category name) entry⟩ := by
  rcases bounds : entry.inverted? with _ | ⟨lo, hi⟩
  · simp [run_insert_of_upright bounds, eq_comm]
  · simp [run_insert_of_inverted bounds]

theorem insertAll_cons_eq_ok_iff {e : Category × String × Entry} :
    (insertAll (e :: entries)).run c = .ok () c'
      ↔ ∃ next, (insert e.1 e.2.1 e.2.2).run c = .ok () next
        ∧ (insertAll entries).run next = .ok () c' := by
  rw [insertAll, List.forM_cons, EStateM.run_bind]
  cases (insert e.1 e.2.1 e.2.2).run c with
  | ok _ next => simp [insertAll]
  | error refusal left => simp

theorem ofEntries_eq_ok_iff_insertAll :
    ofEntries entries = .ok c ↔ (insertAll entries).run {} = .ok () c := by
  unfold ofEntries
  cases (insertAll entries).run {} <;> simp

theorem Sound.insert (h : c.Sound) (accepted : (insert category name entry).run c = .ok () c') :
    c'.Sound := by
  obtain ⟨upright, rfl⟩ := insert_eq_ok_iff.1 accepted
  intro category' name' entry' found
  unfold get? Grouped.insert at found
  by_cases here : category' = category ∧ normalize category' name' = normalize category name
  · obtain ⟨rfl, same⟩ := here
    rw [same, Grouped.get?_alter_self] at found
    exact Option.some.inj found ▸ upright
  · rw [Grouped.get?_alter_of_ne _ _ here] at found
    exact h category' name' entry' found

theorem Sound.insertAll (h : c.Sound) (accepted : (insertAll entries).run c = .ok () c') :
    c'.Sound := by
  induction entries generalizing c with
  | nil =>
    cases accepted
    exact h
  | cons e rest ih =>
    obtain ⟨next, first, others⟩ := insertAll_cons_eq_ok_iff.1 accepted
    exact ih (h.insert first) others

theorem sound_ofEntries (h : ofEntries entries = .ok c) : c.Sound :=
  sound_empty.insertAll (ofEntries_eq_ok_iff_insertAll.1 h)

end Insert

theorem exists_ofEntries_of_ofJsonText {c : Catalog} {text : String} (h : ofJsonText text = .ok c) :
    ∃ entries, ofEntries entries = .ok c := by
  unfold ofJsonText at h
  split at h
  · cases h
  · exact ⟨_, h⟩

/-- In a catalog of accepted entries, or read from a text, every range that is found has its bounds
on the extension the right way round. Its bounds on the runtime are the right way round just when no
rule for as many arguments goes beyond the upper end, so they always are where the number of
arguments is unknown, and for names that the catalog does not know. -/
theorem inverted_only_by_argument_rules (c : Catalog)
    (built : (∃ entries, ofEntries entries = .ok c) ∨ ∃ text, ofJsonText text = .ok c)
    (category : Category) (name : String) (argCount : Option Nat) :
    let range := c.find category name argCount
    (∀ lo hi, range.extensionMin = some lo → range.extensionMax = some hi → lo ≤ hi)
      ∧ ((∀ hi, range.max = some hi → range.min ≤ hi)
        ↔ ∀ entry hi count, c.get? category name = some entry → entry.phpMax = some hi →
          argCount = some count → ∀ rule ∈ entry.arguments, rule.minCount.toNat ≤ count →
            rule.phpMin ≤ hi) := by
  intro range
  have sound : c.Sound := by
    rcases built with ⟨entries, accepted⟩ | ⟨text, read⟩
    · exact sound_ofEntries accepted
    · obtain ⟨entries, accepted⟩ := exists_ofEntries_of_ofJsonText read
      exact sound_ofEntries accepted
  have here : range = ((c.get? category name).map (Entry.toRange · argCount)).getD .user := rfl
  clear_value range
  cases known : c.get? category name with
  | none =>
    obtain rfl : range = .user := by rw [here, known]; rfl
    simp [Range.user]
  | some entry =>
    obtain rfl : range = entry.toRange argCount := by rw [here, known]; rfl
    obtain ⟨upright, extension⟩ := Entry.inverted?_eq_none_iff.1 (sound category name entry known)
    have max : (entry.toRange argCount).max = entry.phpMax := by rw [Entry.toRange_eq]; rfl
    have extensionMin : (entry.toRange argCount).extensionMin = entry.extMin := by
      rw [Entry.toRange_eq]; rfl
    have extensionMax : (entry.toRange argCount).extensionMax = entry.extMax := by
      rw [Entry.toRange_eq]; rfl
    rw [max, extensionMin, extensionMax]
    refine ⟨extension, ?_⟩
    simp only [Entry.min_toRange_le_iff, Entry.mem_applying]
    grind

/-- A function that went away with 5.3.0, and needed 5.5.0 for its first argument. -/
def narrowed : Entry :=
  { phpMax := some (.release 5 3 0), arguments := [⟨1, .release 5 5 0⟩] }

/-- The entry is accepted, though a call with an argument is found to need 5.5.0 up to 5.3.0. -/
theorem argument_rule_inverts :
    ∃ c, ofEntries [(.functions, "f", narrowed)] = .ok c
      ∧ (c.find .functions "f" (some 1)).max = some (.release 5 3 0)
      ∧ ¬(c.find .functions "f" (some 1)).min ≤ .release 5 3 0 := by
  refine ⟨_, rfl, ?_, ?_⟩ <;> decide +kernel

/-- No rule applies to a call without arguments, and the bounds of the same entry are the right way
round there. -/
theorem narrowed_upright_without_arguments :
    ∃ c, ofEntries [(.functions, "f", narrowed)] = .ok c ∧ c.get? .functions "f" = some narrowed
      ∧ ∀ hi, (c.find .functions "f" (some 0)).max = some hi →
        (c.find .functions "f" (some 0)).min ≤ hi := by
  obtain ⟨c, accepted, known⟩ : ∃ c, ofEntries [(.functions, "f", narrowed)] = .ok c
      ∧ c.get? .functions "f" = some narrowed := ⟨_, rfl, by decide +kernel⟩
  refine ⟨c, accepted, known, (inverted_only_by_argument_rules c (Or.inl ⟨_, accepted⟩)
    .functions "f" (some 0)).2.2 ?_⟩
  intro entry hi count found _ none rule mem applies
  obtain rfl : narrowed = entry := Option.some.inj (known.symm.trans found)
  obtain rfl : rule = ⟨1, .release 5 5 0⟩ := List.mem_singleton.1 mem
  obtain rfl : 0 = count := Option.some.inj none
  exact absurd applies (by decide)

end Catalog

end Requisite
