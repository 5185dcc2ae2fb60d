import Requisite.Metrics
import Requisite.Proofs.ByteOrder
import Requisite.Proofs.Merging
import Requisite.Proofs.Tables

/-!
# Updates of the elements

A table of elements is updated under one key at a time, and keys do not disturb each other. So what
a run of updates leaves under a key depends on what was there and on the ranges given for that key,
in their order (`get?_foldl_apply`). The first of these makes the entry if there is none, all others
are merged into it.

An entry covers every range that was merged into it (`merge_foldl_merge`). Therefore an update that
was already made changes nothing when it is made again, however long ago that was
(`apply_foldl_apply`).
-/
namespace Requisite

namespace Range

/-- A range covers every range that was merged into it. -/
theorem merge_foldl_merge {ranges : List Range} {r : Range} (mem : r ∈ ranges) (base : Range) :
    (ranges.foldl merge base).merge r = ranges.foldl merge base := by
  have merged := isMerged_foldl base ranges
  have builtIn (native : r.isUser = false) : r ∈ builtIn ranges := by
    simp [Range.builtIn, mem, native]
  apply merge_eq_self
  · exact merged.min.2 (List.mem_cons_of_mem _ (List.mem_map_of_mem mem))
  · exact merged.max.2 (List.mem_cons_of_mem _ (List.mem_map_of_mem mem))
  · intro native
    exact merged.extensionMin.2 (List.mem_cons_of_mem _ (List.mem_map_of_mem (builtIn native)))
  · intro native
    exact merged.extensionMax.2 (List.mem_cons_of_mem _ (List.mem_map_of_mem (builtIn native)))

end Range

namespace Elements

/-! ### Updates one after the other -/

/-- A range that is given for an element. -/
structure Update where
  category : Category
  name : String
  range : Range

/-- Creates or widens the entry that an update is for. -/
def apply (t : Elements) (u : Update) : Elements :=
  t.update u.category u.name u.range

/-- The ranges that are given for an element, in their order. -/
def rangesFor (category : Category) (name : String) (updates : List Update) : List Range :=
  (updates.filter fun u => u.category = category ∧ u.name = name).map Update.range

/-- The entry that ranges make where there was none: the first one without its uses, and all others
merged into it. -/
def created : List Range → Option Range
  | [] => none
  | first :: later =>
    some (later.foldl Range.merge { first with usageCount := 0, optional := false })

variable {t : Elements} {category : Category} {name : String}

theorem mem_rangesFor {updates : List Update} {u : Update} (mem : u ∈ updates) :
    u.range ∈ rangesFor u.category u.name updates :=
  List.mem_map_of_mem (List.mem_filter.2 ⟨mem, by simp⟩)

theorem rangesFor_eq_nil_iff {updates : List Update} :
    rangesFor category name updates = []
      ↔ ∀ u ∈ updates, ¬(u.category = category ∧ u.name = name) := by
  simp [rangesFor]

/-- An entry after ranges were given for it, one after the other. -/
def widenedBy (entry : Option Range) (ranges : List Range) : Option Range :=
  ranges.foldl (fun entry range => some (widened range entry)) entry

theorem widenedBy_some (entry : Range) (ranges : List Range) :
    widenedBy (some entry) ranges = some (ranges.foldl Range.merge entry) := by
  induction ranges generalizing entry with
  | nil => rfl
  | cons r rest ih => exact ih (entry.merge r)

/-- The first range is merged into the entry that it has made as well. -/
theorem widenedBy_cons (entry : Option Range) (first : Range) (later : List Range) :
    widenedBy entry (first :: later) = some ((first :: later).foldl Range.merge
      (entry.getD { first with usageCount := 0, optional := false })) :=
  widenedBy_some (widened first entry) later

theorem widenedBy_none (ranges : List Range) : widenedBy none ranges = created ranges := by
  cases ranges with
  | nil => rfl
  | cons first later =>
    -- but there it finds its own bounds
    have covered : Range.merge { first with usageCount := 0, optional := false } first
        = { first with usageCount := 0, optional := false } :=
      Range.merge_eq_self (Std.le_refl _) (Std.le_refl _) (fun _ => Std.le_refl _)
        fun _ => Std.le_refl _
    rw [widenedBy_cons, Option.getD_none, List.foldl_cons, covered, created]

/-! ### Lookups after updates -/

theorem get?_apply (t : Elements) (u : Update) :
    (t.apply u).get? category name
      = widenedBy (t.get? category name) (rangesFor category name [u]) := by
  by_cases here : u.category = category ∧ u.name = name
  · obtain ⟨rfl, rfl⟩ := here
    simp [apply, update, updateWith, rangesFor, widenedBy]
  · have elsewhere : ¬(category = u.category ∧ name = u.name) := by grind
    simp [apply, update, updateWith, rangesFor, widenedBy, here,
      Grouped.get?_alter_of_ne t _ elsewhere]

/-- Only the ranges that are given for an element matter for its entry. -/
theorem get?_foldl_apply (t : Elements) (updates : List Update) :
    (updates.foldl apply t).get? category name
      = widenedBy (t.get? category name) (rangesFor category name updates) := by
  induction updates generalizing t with
  | nil => rfl
  | cons u rest ih =>
    have split : rangesFor category name (u :: rest)
        = rangesFor category name [u] ++ rangesFor category name rest := by
      simp [rangesFor, ← List.map_append, ← List.filter_append]
    rw [List.foldl_cons, ih, get?_apply, split, widenedBy, widenedBy, widenedBy, List.foldl_append]

theorem isSome_get?_foldl_apply {updates : List Update} :
    ((updates.foldl apply t).get? category name).isSome
      ↔ (t.get? category name).isSome ∨ ∃ u ∈ updates, u.category = category ∧ u.name = name := by
  rw [get?_foldl_apply]
  cases given : rangesFor category name updates with
  | nil =>
    have none_given := rangesFor_eq_nil_iff.1 given
    simp only [widenedBy, List.foldl_nil]
    grind
  | cons first later =>
    have some_given : ∃ u ∈ updates, u.category = category ∧ u.name = name := by
      by_contra none_given
      simp [rangesFor_eq_nil_iff.2 fun u mem same => none_given ⟨u, mem, same⟩] at given
    simp [widenedBy_cons, some_given]

/-- An update that was made already changes nothing. -/
theorem apply_foldl_apply {updates : List Update} {u : Update} (mem : u ∈ updates) (t : Elements) :
    (updates.foldl apply t).apply u = updates.foldl apply t := by
  obtain ⟨first, later, given⟩ :=
    List.exists_cons_of_ne_nil (List.ne_nil_of_mem (mem_rangesFor mem))
  have found : (updates.foldl apply t).get? u.category u.name = _ := get?_foldl_apply t updates
  rw [given, widenedBy_cons] at found
  refine Grouped.alter_eq_self found ?_
  exact Range.merge_foldl_merge (given ▸ mem_rangesFor mem) _

/-! ### Categories -/

theorem group?_apply (t : Elements) (u : Update) :
    (t.apply u).group? category = if category = u.category
      then some (((t.group? u.category).getD ∅).alter u.name fun entry => widened u.range entry)
      else t.group? category := by
  unfold apply update updateWith Grouped.alter Grouped.group?
  split
  · rename_i here
    rw [here, Table.get?_alter_self]
    rfl
  · rename_i elsewhere
    exact Table.get?_alter_of_ne _ _ fun same =>
      elsewhere (Std.LawfulEqCmp.eq_of_compare same)

theorem group?_foldl_apply_of_untouched {updates : List Update}
    (untouched : ∀ u ∈ updates, u.category ≠ category) (t : Elements) :
    (updates.foldl apply t).group? category = t.group? category := by
  induction updates generalizing t with
  | nil => rfl
  | cons u rest ih =>
    obtain ⟨here, later⟩ := List.forall_mem_cons.1 untouched
    rw [List.foldl_cons, ih later, group?_apply, if_neg (Ne.symm here)]

theorem isSome_group?_foldl_apply {updates : List Update} :
    ((updates.foldl apply t).group? category).isSome
      ↔ (t.group? category).isSome ∨ ∃ u ∈ updates, u.category = category := by
  induction updates generalizing t with
  | nil => simp
  | cons u rest ih =>
    rw [List.foldl_cons, ih, group?_apply]
    by_cases here : category = u.category
    · simp [here]
    · simp [here, Ne.symm here]

/-- Categories are listed in the order of reports and the names of each in the order of their bytes,
and none of them twice. -/
structure Ascends (t : Elements) : Prop where
  categories : t.groups.keys.Pairwise fun a b => a.rank < b.rank
  categories_nodup : t.groups.keys.Nodup
  names : ∀ category group, t.group? category = some group →
    group.keys.Pairwise Text.precedesInBytes
  names_nodup : ∀ category group, t.group? category = some group → group.keys.Nodup

theorem ascends (t : Elements) : t.Ascends where
  categories := List.pairwise_map.2 (t.groups.sorted.imp fun lt => Nat.compare_eq_lt.1 lt)
  categories_nodup := List.pairwise_map.2 (t.groups.sorted.imp fun lt same => by simp [same] at lt)
  names _ group _ :=
    List.pairwise_map.2 (group.sorted.imp fun lt => Text.precedesInBytes_iff_compare.2 lt)
  names_nodup _ group _ :=
    List.pairwise_map.2 (group.sorted.imp fun lt same => by simp [same] at lt)

/-- Whatever is in a table and however updates of its entries are mixed: an entry that was missing
is made of the first range that is given for it, without uses and not optional, with all later ones
merged into it in their order; one that was there has all of them merged into it; and where none is
given nothing changes, be it an entry or a whole category. The table lists just what was in it and
what was updated, still in order and without repetitions. An update that is made again changes
nothing. -/
theorem updates_merge_by_key (t : Elements) (updates : List Update) :
    let final := updates.foldl apply t
    (∀ category name, t.get? category name = none →
        final.get? category name = created (rangesFor category name updates))
      ∧ (∀ category name entry, t.get? category name = some entry →
          final.get? category name
            = some ((rangesFor category name updates).foldl Range.merge entry))
      ∧ (∀ category name, (∀ u ∈ updates, ¬(u.category = category ∧ u.name = name)) →
          final.get? category name = t.get? category name)
      ∧ (∀ category, (∀ u ∈ updates, u.category ≠ category) →
          final.group? category = t.group? category)
      ∧ final.Ascends
      ∧ (∀ category, category ∈ final.groups.keys
          ↔ category ∈ t.groups.keys ∨ ∃ u ∈ updates, u.category = category)
      ∧ (∀ key, key ∈ final.keys
          ↔ key ∈ t.keys ∨ ∃ u ∈ updates, u.category = key.1 ∧ u.name = key.2)
      ∧ ∀ u ∈ updates, final.apply u = final := by
  refine ⟨fun category name missing => ?_, fun category name entry found => ?_,
    fun category name untouched => ?_, fun category untouched => ?_, ascends _,
    fun category => ?_, fun key => ?_, fun u mem => apply_foldl_apply mem t⟩
  · rw [get?_foldl_apply, missing, widenedBy_none]
  · rw [get?_foldl_apply, found, widenedBy_some]
  · rw [get?_foldl_apply, rangesFor_eq_nil_iff.2 untouched, widenedBy, List.foldl_nil]
  · exact group?_foldl_apply_of_untouched untouched t
  · rw [Table.mem_keys_iff, Table.mem_keys_iff]
    exact isSome_group?_foldl_apply
  · rw [Grouped.mem_keys_iff, Grouped.mem_keys_iff]
    exact isSome_get?_foldl_apply

end Elements

end Requisite
