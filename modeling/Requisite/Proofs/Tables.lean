import Mathlib.Data.List.Dedup
import Requisite.Grouped

/-!
# What tables hold

What is found in a table, what it lists and how much it holds are three views of the same entries.
A key is found just when an entry with an equal key is listed, entries are listed in ascending order
and so never twice, and the size of a table by category and name is the number of its keys.
-/
namespace Requisite

/-- A list without repetitions is as long as any list with the same elements is without its own. -/
theorem length_eq_length_dedup {α : Type} [DecidableEq α] {as bs : List α} (nodup : as.Nodup)
    (same : ∀ a, a ∈ as ↔ a ∈ bs) : as.length = bs.dedup.length := by
  have perm : as.Perm bs.dedup := by
    refine (List.perm_ext_iff_of_nodup nodup bs.nodup_dedup).2 fun a => ?_
    rw [List.mem_dedup, same]
  exact perm.length_eq

/-- In a list that ascends, the last is the one that all others come before. -/
theorem getLast?_eq_some_iff_of_pairwise {α : Type} {before : α → α → Prop}
    (asymm : ∀ a b, before a b → ¬before b a) {l : List α} (ascending : l.Pairwise before) {a : α} :
    l.getLast? = some a ↔ a ∈ l ∧ ∀ b ∈ l, b = a ∨ before b a := by
  have forth {a : α} (last : l.getLast? = some a) : a ∈ l ∧ ∀ b ∈ l, b = a ∨ before b a := by
    obtain ⟨front, rfl⟩ := List.getLast?_eq_some_iff.1 last
    have behind := (List.pairwise_append.1 ascending).2.2
    refine ⟨by simp, fun b mem => ?_⟩
    rcases List.mem_append.1 mem with mem | mem
    · exact Or.inr (behind b mem a List.mem_cons_self)
    · exact Or.inl (List.mem_singleton.1 mem)
  refine ⟨forth, fun ⟨mem, behind⟩ => ?_⟩
  cases last : l.getLast? with
  | none => simp_all
  | some z =>
    obtain ⟨z_mem, z_behind⟩ := forth last
    grind

/-! ### Sorted tables -/

namespace Table

variable {κ ν : Type} [Ord κ]

theorem isSome_get?_iff {t : Table κ ν} {key : κ} :
    (t.get? key).isSome ↔ ∃ k ∈ t.keys, compare key k = .eq := by
  unfold get? keys
  induction t.entries with
  | nil => simp [find?]
  | cons e rest ih => by_cases here : compare key e.1 = .eq <;> simp [find?, here, ih]

theorem get?_of_mem [Std.TransOrd κ] {t : Table κ ν} {e : κ × ν} (mem : e ∈ t.entries) :
    t.get? e.1 = some e.2 := by
  obtain ⟨entries, sorted⟩ := t
  unfold get?
  induction entries with
  | nil => cases mem
  | cons head rest ih =>
    obtain ⟨below, sorted⟩ := List.pairwise_cons.1 sorted
    rcases List.mem_cons.1 mem with rfl | mem
    · simp [find?]
    · have gt : compare e.1 head.1 = .gt := Std.OrientedCmp.gt_of_lt (below e mem)
      simpa [find?, gt] using ih sorted mem

theorem mem_of_find? [Std.LawfulEqOrd κ] {entries : List (κ × ν)} {key : κ} {value : ν}
    (found : find? key entries = some value) : (key, value) ∈ entries := by
  induction entries with
  | nil => simp [find?] at found
  | cons e rest ih =>
    by_cases here : compare key e.1 = .eq
    · have same : key = e.1 := Std.LawfulEqCmp.eq_of_compare here
      have held : e.2 = value := by simpa [find?, here] using found
      simp [same, ← held]
    · exact List.mem_cons_of_mem _ (ih (by simpa [find?, here] using found))

theorem get?_eq_some_iff [Std.TransOrd κ] [Std.LawfulEqOrd κ] {t : Table κ ν} {key : κ}
    {value : ν} : t.get? key = some value ↔ (key, value) ∈ t.entries :=
  ⟨mem_of_find?, get?_of_mem⟩

theorem mem_keys_iff [Std.LawfulEqOrd κ] {t : Table κ ν} {key : κ} :
    key ∈ t.keys ↔ (t.get? key).isSome := by
  simp [isSome_get?_iff]

variable [Std.TransOrd κ]

theorem isSome_get?_insert {t : Table κ ν} {key other : κ} {value : ν} :
    ((t.insert key value).get? other).isSome
      ↔ compare other key = .eq ∨ (t.get? other).isSome := by
  by_cases here : compare other key = .eq
  · have found : ((t.insert key value).get? key).isSome := by simp [insert]
    obtain ⟨k, mem, eq⟩ := isSome_get?_iff.1 found
    simp only [here, true_or, iff_true]
    exact isSome_get?_iff.2 ⟨k, mem, Std.TransCmp.eq_trans here eq⟩
  · simp [insert, get?_alter_of_ne t _ here, here]

theorem isSome_get?_ofList {entries : List (κ × ν)} {key : κ} :
    ((ofList entries).get? key).isSome ↔ ∃ e ∈ entries, compare key e.1 = .eq := by
  have run (t : Table κ ν) : ((entries.foldl (fun t e => t.insert e.1 e.2) t).get? key).isSome
      ↔ (∃ e ∈ entries, compare key e.1 = .eq) ∨ (t.get? key).isSome := by
    induction entries generalizing t with
    | nil => simp
    | cons e rest ih =>
      rw [List.foldl_cons, ih, isSome_get?_insert]
      simp [or_assoc, or_left_comm]
  simpa [ofList] using run empty

end Table

/-! ### Tables by category and name -/

namespace Grouped

variable {α : Type} {t : Grouped α}

theorem mem_elements_iff {category : Category} {name : String} {value : α} :
    (category, name, value) ∈ t.elements ↔ t.get? category name = some value := by
  simp only [elements, get?, group?, List.mem_flatMap, List.mem_map, Prod.exists, Prod.mk.injEq,
    Option.bind_eq_some_iff, Table.get?_eq_some_iff]
  grind

/-- Elements are listed by category, and by name where the category is the same. -/
def precedes (a b : Category × String × α) : Prop :=
  compare a.1 b.1 = .lt ∨ a.1 = b.1 ∧ compare a.2.1 b.2.1 = .lt

theorem precedes_asymm {a b : Category × String × α} (h : precedes a b) : ¬precedes b a := by
  rintro (lt' | ⟨same, lt'⟩) <;> rcases h with lt | ⟨same, lt⟩
  · simp [Std.OrientedCmp.gt_of_lt lt] at lt'
  · simp [same] at lt'
  · simp [same] at lt
  · simp [Std.OrientedCmp.gt_of_lt lt] at lt'

theorem elements_ascending : t.elements.Pairwise precedes := by
  unfold elements
  rw [List.pairwise_flatMap]
  constructor
  · intro group _
    rw [List.pairwise_map]
    exact group.2.sorted.imp fun lt => Or.inr ⟨rfl, lt⟩
  · refine t.groups.sorted.imp fun lt a ha b hb => ?_
    obtain ⟨_, -, rfl⟩ := List.mem_map.1 ha
    obtain ⟨_, -, rfl⟩ := List.mem_map.1 hb
    exact Or.inl lt

/-- The category and the name of every element. -/
def keys (t : Grouped α) : List (Category × String) :=
  t.elements.map fun e => (e.1, e.2.1)

theorem mem_keys_iff {key : Category × String} :
    key ∈ t.keys ↔ (t.get? key.1 key.2).isSome := by
  simp [keys, Option.isSome_iff_exists, ← mem_elements_iff, Prod.ext_iff]

theorem nodup_keys (t : Grouped α) : t.keys.Nodup := by
  refine List.pairwise_map.2 (elements_ascending.imp fun before same => ?_)
  obtain ⟨category, name⟩ := Prod.mk.inj same
  rcases before with lt | ⟨-, lt⟩
  · simp [category] at lt
  · simp [name] at lt

theorem length_keys (t : Grouped α) : t.keys.length = t.size := by
  simp only [keys, elements, size, List.length_map]
  induction t.groups.entries with
  | nil => rfl
  | cons e rest ih => simp [ih, Table.size]

end Grouped

end Requisite
