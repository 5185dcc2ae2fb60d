import Requisite.Proofs.ByteOrder
import Requisite.Proofs.Merging
import Requisite.Proofs.Tables
import Requisite.Report

/-!
# What a report lists

A report has a summary for each category with elements. What a summary has to say is put in terms of
lookups in the table: `Lists` says that a list has the elements of a category that pass some test,
each once and in the order of the bytes of their names. The figures of a summary are the lengths of
such lists, where the filter is no part of the test, and its rows are such a list, where the filter
is the test. A summary comes out of one loop over the elements, and `Summary.foldl_add` is what that
loop has put together at any time.

A comparison and its opposite divide the versions between them (`accepts_opposite`), and so they
divide the rows.
-/
namespace Requisite

/-! ### The first of the greatest -/

section

variable {α : Type} [LE α]

/-- `a` is the greatest of a list, and of equal ones the first: none before it is as great, and none
after it is greater. -/
def FirstGreatest (as : List α) (a : α) : Prop :=
  ∃ before after, as = before ++ a :: after ∧ (∀ b ∈ before, ¬a ≤ b) ∧ ∀ b ∈ after, b ≤ a

theorem firstGreatest_cons_iff {a m : α} {as : List α} :
    FirstGreatest (a :: as) m ↔ (m = a ∧ ∀ b ∈ as, b ≤ a) ∨ (¬m ≤ a ∧ FirstGreatest as m) := by
  constructor
  · rintro ⟨before, after, split, below, above⟩
    cases before with
    | nil =>
      obtain ⟨rfl, rfl⟩ := List.cons.inj split
      exact Or.inl ⟨rfl, above⟩
    | cons b before =>
      obtain ⟨rfl, rfl⟩ := List.cons.inj split
      have rest : ∀ b ∈ before, ¬m ≤ b := fun b hb => below b (List.mem_cons_of_mem _ hb)
      exact Or.inr ⟨below a List.mem_cons_self, before, after, rfl, rest, above⟩
  · rintro (⟨rfl, above⟩ | ⟨not_le, before, after, rfl, below, above⟩)
    · exact ⟨[], as, rfl, by simp, above⟩
    · refine ⟨a :: before, after, rfl, ?_, above⟩
      simpa using ⟨not_le, below⟩

/-- If each step keeps the first of two unless the second is greater, the first of the greatest is
kept in the end. -/
theorem firstGreatest_foldl [Std.IsLinearPreorder α] {keep : α → α → α}
    (first : ∀ a b, b ≤ a → keep a b = a) (second : ∀ a b, ¬b ≤ a → keep a b = b) (base : α)
    (others : List α) : FirstGreatest (base :: others) (others.foldl keep base) := by
  induction others generalizing base with
  | nil => exact ⟨[], [], rfl, by simp, by simp⟩
  | cons a rest ih =>
    rw [List.foldl_cons]
    by_cases le : a ≤ base
    · rw [first base a le]
      rcases firstGreatest_cons_iff.1 (ih base) with ⟨same, above⟩ | ⟨not_base, later⟩
      · exact firstGreatest_cons_iff.2 (Or.inl ⟨same, by simpa using ⟨le, above⟩⟩)
      · have not_a : ¬rest.foldl keep base ≤ a := fun le' => not_base (Std.le_trans le' le)
        refine firstGreatest_cons_iff.2 (Or.inr ⟨not_base, ?_⟩)
        exact firstGreatest_cons_iff.2 (Or.inr ⟨not_a, later⟩)
    · rw [second base a le]
      have ge : base ≤ a := (Std.le_total (a := base) (b := a)).resolve_right le
      have not_base : ¬rest.foldl keep a ≤ base := by
        rcases firstGreatest_cons_iff.1 (ih a) with ⟨same, -⟩ | ⟨not_a, -⟩
        · rwa [same]
        · exact fun le' => not_a (Std.le_trans le' ge)
      exact firstGreatest_cons_iff.2 (Or.inr ⟨not_base, ih a⟩)

end

instance : Std.IsLinearPreorder (Option Version) where
  le_total a b := by
    cases a <;> cases b <;> simp
    exact Std.le_total

theorem firstGreatest_raise (base : Version) (others : List Version) :
    FirstGreatest (base :: others) (others.foldl Version.raise base) :=
  firstGreatest_foldl (fun _ _ le => if_neg (Std.not_lt.2 le))
    (fun _ _ nle => if_pos (Std.not_le.1 nle)) base others

theorem firstGreatest_raiseBound (base : Option Version) (others : List (Option Version)) :
    FirstGreatest (base :: others) (others.foldl raiseBound base) := by
  refine firstGreatest_foldl ?_ ?_ base others
  · intro a b le
    cases a <;> cases b <;> simp_all [raiseBound, Version.raise, Std.not_lt]
  · intro a b nle
    cases a <;> cases b <;> simp_all [raiseBound, Version.raise, Std.not_le]

/-! ### Comparisons -/

namespace Comparison

/-- The relation to the version of a filter that a comparison stands for. -/
def Relates : Comparison → Version → Version → Prop
  | .less, v, w => v < w
  | .lessOrEqual, v, w => v ≤ w
  | .greater, v, w => w < v
  | .greaterOrEqual, v, w => w ≤ v
  | .equal, v, w => v ≤ w ∧ w ≤ v
  | .notEqual, v, w => ¬(v ≤ w ∧ w ≤ v)

theorem holds_compare_iff {c : Comparison} {v w : Version} :
    c.holds (compare v w) ↔ c.Relates v w := by
  have lt : compare v w = .lt ↔ v < w := Std.compare_eq_lt
  have gt : compare v w = .gt ↔ w < v := Std.compare_eq_gt
  have le : v ≤ w ↔ compare v w ≠ .gt := by rw [ne_eq, gt, Std.not_lt]
  have ge : w ≤ v ↔ compare v w ≠ .lt := by rw [ne_eq, lt, Std.not_lt]
  cases c <;> simp only [Relates, le, ge, ← lt, ← gt] <;> cases compare v w <;> simp [holds]

/-- The comparison that holds just where another does not. -/
def opposite : Comparison → Comparison
  | .less => .greaterOrEqual
  | .lessOrEqual => .greater
  | .greater => .lessOrEqual
  | .greaterOrEqual => .less
  | .equal => .notEqual
  | .notEqual => .equal

theorem holds_opposite (c : Comparison) (o : Ordering) : c.opposite.holds o = !c.holds o := by
  cases c <;> cases o <;> rfl

end Comparison

namespace Filter

/-- The filter that accepts what another one does not. -/
def opposite (f : Filter) : Filter :=
  { f with comparison := f.comparison.opposite }

theorem accepts_opposite (f : Filter) (v : Version) : f.opposite.accepts v = !f.accepts v :=
  f.comparison.holds_opposite _

end Filter

/-! ### Lists of elements -/

namespace Elements

/-- The elements of a category whose ranges pass a test, each once, in the order of the bytes of
their names. -/
structure Lists (t : Elements) (category : Category) (test : Range → Prop)
    (listed : List (String × Range)) : Prop where
  ascending : listed.Pairwise fun a b => Text.precedesInBytes a.1 b.1
  mem_iff : ∀ name range,
    (name, range) ∈ listed ↔ t.get? category name = some range ∧ test range

/-- How many elements of a category pass a test. -/
def Counts (t : Elements) (category : Category) (test : Range → Prop) (n : Nat) : Prop :=
  ∃ listed, Lists t category test listed ∧ n = listed.length

variable {t : Elements} {category : Category} {group : Table String Range}

theorem lists_filter (h : t.group? category = some group) {test : Range → Prop}
    {p : Range → Bool} (same : ∀ r, p r ↔ test r) :
    Lists t category test (group.entries.filter fun e => p e.2) where
  ascending := by
    refine (group.sorted.imp fun lt => ?_).filter _
    exact Text.precedesInBytes_iff_compare.2 lt
  mem_iff name range := by
    rw [List.mem_filter, ← Table.get?_eq_some_iff, same, Grouped.get?, h, Option.bind_some]

theorem lists_entries (h : t.group? category = some group) :
    Lists t category (fun _ => True) group.entries := by
  have all : Lists t category (fun _ => True) (group.entries.filter fun _ => true) :=
    lists_filter h (p := fun _ => true) (by simp)
  rwa [List.filter_true] at all

theorem counts_countP (h : t.group? category = some group) {test : Range → Prop}
    {p : Range → Bool} (same : ∀ r, p r ↔ test r) :
    Counts t category test (group.entries.countP fun e => p e.2) :=
  ⟨_, lists_filter h same, List.countP_eq_length_filter⟩

end Elements

/-! ### Summaries -/

namespace Report

/-- Whether a range is to be listed: if there is a filter, its first release has to stand in the
right relation to the version of the filter. -/
def Passes (filter : Option Filter) (range : Range) : Prop :=
  ∀ f ∈ filter, f.comparison.Relates range.min f.version

theorem passes_iff {filter : Option Filter} {range : Range} :
    passes filter range ↔ Passes filter range := by
  cases filter <;> simp [passes, Passes, Filter.accepts, Comparison.holds_compare_iff]

namespace Summary

/-- What a summary says about the elements of its category. -/
structure Describes (s : Summary) (t : Elements) (filter : Option Filter) : Prop where
  total : t.Counts s.category (fun _ => True) s.total
  conditional : t.Counts s.category (fun r => r.optional) s.conditional
  excluded : t.Counts s.category (fun r => r.excluded.keys ≠ []) s.excluded
  band : ∃ all lo hi, t.Lists s.category (fun _ => True) all
    ∧ FirstGreatest (.release 4 0 0 :: all.map fun e => e.2.min) lo
    ∧ FirstGreatest (none :: all.map fun e => e.2.max) hi
    ∧ s.band = Requisite.band (some lo) hi
  rows : ∃ chosen, t.Lists s.category (Passes filter) chosen
    ∧ s.rows = chosen.map fun e => Row.ofRange e.1 e.2
  shown : s.shown = s.rows.length

/-- A summary without what a filter decides. -/
def figures (s : Summary) : Summary :=
  { s with shown := 0, rows := [] }

/-- The rows of the elements that pass a filter. -/
def rowsOf (filter : Option Filter) (elements : List (String × Range)) : List Row :=
  (elements.filter fun e => passes filter e.2).map fun e => Row.ofRange e.1 e.2

theorem foldl_widen (r : Requirement) (elements : List (String × Range)) :
    elements.foldl (fun (r : Requirement) e => r.widen e.2) r
      = { min := (elements.map fun e => e.2.min).foldl Version.raise r.min
          max := (elements.map fun e => e.2.max).foldl raiseBound r.max } := by
  induction elements generalizing r with
  | nil => rfl
  | cons e rest ih => exact ih (r.widen e.2)

/-- All elements count towards the figures, and those that pass the filter become rows, wherever
the loop stands. -/
theorem foldl_add (filter : Option Filter) (elements : List (String × Range)) (p : Progress) :
    elements.foldl (Progress.add filter) p
      = { rows := p.rows ++ (rowsOf filter elements).toArray
          total := p.total + elements.length
          conditional := p.conditional + elements.countP fun e => e.2.optional
          excluded := p.excluded + elements.countP fun e => !e.2.excluded.isEmpty
          overall := elements.foldl (fun r e => r.widen e.2) p.overall } := by
  induction elements generalizing p with
  | nil => simp [rowsOf]
  | cons e rest ih =>
    rw [List.foldl_cons, ih, Progress.mk.injEq]
    refine ⟨?_, ?_, ?_, ?_, rfl⟩
    -- the filter decides about the row only
    · by_cases passed : passes filter e.2 <;> simp [Progress.add, rowsOf, passed]
    · simp only [Progress.add, List.length_cons]
      omega
    · cases conditional : e.2.optional <;>
        simp [Progress.add, conditional, Nat.add_assoc, Nat.add_comm 1]
    · cases unbroken : e.2.excluded.isEmpty <;>
        simp [Progress.add, unbroken, Nat.add_assoc, Nat.add_comm 1]

theorem build_eq (category : Category) (elements : List (String × Range))
    (filter : Option Filter) :
    build category elements filter
      = { category
          shown := (rowsOf filter elements).length
          total := elements.length
          conditional := elements.countP fun e => e.2.optional
          excluded := elements.countP fun e => !e.2.excluded.isEmpty
          band := (elements.foldl (fun (r : Requirement) e => r.widen e.2) {}).band
          rows := rowsOf filter elements } := by
  simp [build, foldl_add]

theorem describes_build {t : Elements} {category : Category} {group : Table String Range}
    (h : t.group? category = some group) (filter : Option Filter) :
    (build category group.entries filter).Describes t filter := by
  rw [build_eq]
  exact {
    total := ⟨_, Elements.lists_entries h, rfl⟩
    conditional := Elements.counts_countP h (p := fun r => r.optional) (by simp)
    excluded := Elements.counts_countP h (p := fun r => !r.excluded.isEmpty)
      (by simp [Table.isEmpty, Table.keys])
    band := ⟨_, _, _, Elements.lists_entries h, firstGreatest_raise _ _,
      firstGreatest_raiseBound _ _, congrArg Requirement.band (foldl_widen {} group.entries)⟩
    rows := ⟨_, Elements.lists_filter h fun _ => passes_iff, rfl⟩
    shown := rfl }

end Summary

/-! ### Reports -/

variable {m : Metrics} {filter : Option Filter}

theorem mem_summaries_iff {s : Summary} :
    s ∈ (build m filter).summaries
      ↔ ∃ group, m.elements.group? s.category = some group ∧ group.entries ≠ []
          ∧ s = Summary.build s.category group.entries filter := by
  simp only [build, Grouped.nonempty, Grouped.group?, Table.get?_eq_some_iff, List.mem_map,
    List.mem_filter]
  constructor
  · rintro ⟨⟨category, group⟩, ⟨mem, some_name⟩, rfl⟩
    exact ⟨group, mem, by simpa [Table.isEmpty] using some_name, rfl⟩
  · rintro ⟨group, mem, some_name, same⟩
    exact ⟨(s.category, group), ⟨mem, by simpa [Table.isEmpty] using some_name⟩, same.symm⟩

/-- There is one summary for each category with elements, in the order of categories. -/
theorem summaries_ascending (m : Metrics) (filter : Option Filter) :
    (build m filter).summaries.Pairwise fun a b => compare a.category b.category = .lt := by
  refine List.pairwise_map.2 (List.Pairwise.imp ?_ (m.elements.groups.sorted.filter _))
  exact fun lt => lt

theorem exists_summary_iff {category : Category} :
    (∃ s ∈ (build m filter).summaries, s.category = category)
      ↔ ∃ name range, m.elements.get? category name = some range := by
  simp only [mem_summaries_iff]
  constructor
  · rintro ⟨s, ⟨group, found, some_name, -⟩, rfl⟩
    obtain ⟨⟨name, range⟩, rest, entries⟩ := List.exists_cons_of_ne_nil some_name
    have mem : (name, range) ∈ group.entries := by simp [entries]
    refine ⟨name, range, ?_⟩
    rw [Grouped.get?, found, Option.bind_some]
    exact Table.get?_of_mem mem
  · rintro ⟨name, range, found⟩
    obtain ⟨group, found, held⟩ := Option.bind_eq_some_iff.1 found
    have some_name : group.entries ≠ [] := List.ne_nil_of_mem (Table.get?_eq_some_iff.1 held)
    exact ⟨Summary.build category group.entries filter, ⟨group, found, some_name, rfl⟩, rfl⟩

theorem Summary.Describes.nodup_rows {s : Summary} {t : Elements} (h : s.Describes t filter) :
    s.rows.Nodup := by
  obtain ⟨chosen, lists, rows⟩ := h.rows
  rw [rows]
  refine List.pairwise_map.2 (lists.ascending.imp fun before same => ?_)
  have name := congrArg Row.name same
  have lt := Text.precedesInBytes_iff_compare.1 before
  simp_all [Row.ofRange]

/-- What a filter and its opposite list is together what is listed without a filter. -/
theorem rows_append_opposite_perm (category : Category) (elements : List (String × Range))
    (f : Filter) :
    ((Summary.build category elements (some f)).rows
        ++ (Summary.build category elements (some f.opposite)).rows).Perm
      (Summary.build category elements none).rows := by
  simp only [Summary.build_eq, Summary.rowsOf, passes, Option.all_some, Option.all_none,
    Filter.accepts_opposite, ← List.map_append, List.filter_true]
  exact (List.filter_append_perm _ elements).map _

theorem length_rows_eq_total (category : Category) (elements : List (String × Range)) :
    (Summary.build category elements none).rows.length
      = (Summary.build category elements none).total := by
  simp [Summary.build_eq, Summary.rowsOf, passes]

theorem figures_build (m : Metrics) (filter : Option Filter) :
    (build m filter).summaries.map Summary.figures
      = (build m none).summaries.map Summary.figures := by
  simp [build, Summary.figures, Summary.build_eq, Function.comp_def]

theorem describes_of_mem {s : Summary} (mem : s ∈ (build m filter).summaries) :
    s.Describes m.elements filter := by
  obtain ⟨group, found, -, same⟩ := mem_summaries_iff.1 mem
  rw [same]
  exact Summary.describes_build found filter

theorem exists_opposite {all : Summary} (mem : all ∈ (build m none).summaries) (f : Filter) :
    ∃ s ∈ (build m (some f)).summaries, ∃ s' ∈ (build m (some f.opposite)).summaries,
      s.category = all.category ∧ s'.category = all.category
        ∧ s.rows.Disjoint s'.rows ∧ (s.rows ++ s'.rows).Perm all.rows
        ∧ s.shown + s'.shown = all.total := by
  have nodup := (describes_of_mem mem).nodup_rows
  obtain ⟨group, found, some_name, same⟩ := mem_summaries_iff.1 mem
  have present (filter : Option Filter) :
      Summary.build all.category group.entries filter ∈ (build m filter).summaries :=
    mem_summaries_iff.2 ⟨group, found, some_name, rfl⟩
  have perm := rows_append_opposite_perm all.category group.entries f
  have total := length_rows_eq_total all.category group.entries
  rw [← same] at perm total
  refine ⟨_, present (some f), _, present (some f.opposite), rfl, rfl, ?_, perm, ?_⟩
  · exact List.disjoint_of_nodup_append (perm.nodup_iff.2 nodup)
  · have count := perm.length_eq
    rw [List.length_append, total] at count
    exact count

/-- A filter only chooses the rows. Whether there is one or not, a report has one summary for each
category with elements, in the order of categories, and its figures are those of all elements. The
rows are the elements whose first release passes the filter, each once, in the order of the bytes of
their names. A filter and its opposite have no row in common, and together have all of them. -/
theorem filter_chooses_rows_only (m : Metrics) :
    (∀ filter,
      ((build m filter).summaries.Pairwise fun a b => compare a.category b.category = .lt)
        ∧ (∀ category, (∃ s ∈ (build m filter).summaries, s.category = category)
            ↔ ∃ name range, m.elements.get? category name = some range)
        ∧ (∀ s ∈ (build m filter).summaries, s.Describes m.elements filter)
        ∧ (build m filter).summaries.map Summary.figures
            = (build m none).summaries.map Summary.figures)
      ∧ ∀ f, ∀ all ∈ (build m none).summaries,
          ∃ s ∈ (build m (some f)).summaries, ∃ s' ∈ (build m (some f.opposite)).summaries,
            s.category = all.category ∧ s'.category = all.category
              ∧ s.rows.Disjoint s'.rows ∧ (s.rows ++ s'.rows).Perm all.rows
              ∧ s.shown + s'.shown = all.total := by
  constructor
  · intro filter
    exact ⟨summaries_ascending m filter, fun _ => exists_summary_iff, fun _ => describes_of_mem,
      figures_build m filter⟩
  · intro f all mem
    exact exists_opposite mem f

end Report

end Requisite
