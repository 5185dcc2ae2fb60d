import Requisite.Proofs.Exact
import Requisite.Proofs.Guarded

/-!
# What earlier files leave behind

All files of a run share one table, and entries go by name. A scope that is left passes on whatever
stands under its name, so what an earlier file has left there gets into the scopes around it.

The run of a tree after other trees is compared with the run of that tree alone. From which elements
something gets where is a matter of the tree alone, and is computed by `Outline.carried`; this is
the whole difference. So a tree is judged by itself if none of its scopes goes by a name that occurs
in the earlier files. For names that are written in the code this is up to the code. Closures are
named after their lines, and closures of unrelated files can share a name.
-/
namespace Requisite.Analyzer

open Code (Name Tree)

namespace Outline

/-- Where the entries from before a file get to, after an outline was followed inside the scope
`around`: pairs of an element and one whose entry has got into that of the first. A scope that is
left passes on its own entry, with what has got into it. -/
def carried (around : Key) (before : List (Key × Key)) : Outline → List (Key × Key)
  | .nothing | .act _ => before
  | .seq first second => second.carried around (first.carried around before)
  | .scope d body =>
    let inner := body.carried d.key before
    inner ++ (around, d.key) :: (inner.filter (·.1 = d.key)).map fun pair => (around, pair.2)

variable {k source : Key}

theorem mem_carried_scope {around : Key} {before : List (Key × Key)} {d : Declaration}
    {body : Outline} :
    (k, source) ∈ (scope d body).carried around before
      ↔ (k, source) ∈ body.carried d.key before
        ∨ (k = around ∧ (source = d.key ∨ (d.key, source) ∈ body.carried d.key before)) := by
  simp only [carried, List.mem_append, List.mem_cons, List.mem_map, List.mem_filter,
    Prod.mk.injEq, Prod.exists, decide_eq_true_eq]
  grind

theorem mem_keys_of_mem_nested {o : Outline} {around : Key} (h : (k, source) ∈ o.nested around) :
    source ∈ o.keys := by
  induction o generalizing around with
  | nothing => simp [nested] at h
  | act action => simp [nested] at h
  | seq first second ihf ihs =>
    rw [keys_seq, List.mem_append]
    exact (List.mem_append.1 h).imp ihf ihs
  | scope d body ih =>
    rcases List.mem_cons.1 h with same | inner
    · exact (Prod.mk.inj same).2 ▸ List.mem_cons_self
    · exact List.mem_cons_of_mem _ (ih inner)

/-- Entries are carried outwards, from scope to scope: what holds between a scope and the scopes
right inside it, and is transitive, holds between where an entry gets and where it comes from. -/
theorem rel_of_mem_carried {P : Key → Key → Prop} (trans : ∀ {a b c}, P a b → P b c → P a c)
    {o : Outline} {around : Key} {before : List (Key × Key)}
    (inside : ∀ {a b}, (a, b) ∈ o.nested around → P a b)
    (start : ∀ {a b}, (a, b) ∈ before → P a b)
    (h : (k, source) ∈ o.carried around before) : P k source := by
  induction o generalizing around before k source with
  | nothing => exact start h
  | act action => exact start h
  | seq first second ihf ihs =>
    refine ihs (fun pair => inside (List.mem_append_right _ pair)) (fun between => ?_) h
    exact ihf (fun pair => inside (List.mem_append_left _ pair)) start between
  | scope d body ih =>
    have deeper {a b : Key} (h : (a, b) ∈ body.carried d.key before) : P a b :=
      ih (fun pair => inside (List.mem_cons_of_mem _ pair)) start h
    rcases mem_carried_scope.1 h with inner | ⟨rfl, rfl | passed⟩
    · exact deeper inner
    -- the entry of the scope itself, and what had got into it from further inside
    · exact inside List.mem_cons_self
    · exact trans (inside List.mem_cons_self) (deeper passed)

end Outline

/-- Whether an entry from before that has been brought to an element reaches a level. -/
def brought (left : Elements) (carried : List (Key × Key)) (l : Level) (k : Key) : Prop :=
  ∃ source, (source = k ∨ (k, source) ∈ carried) ∧ left.holds l source

namespace State

/-- Two states that agree but for what the first one has in its entries besides. -/
structure Besides (extra : Level → Key → Prop) (s t : State) : Prop where
  current : s.scopes.current = t.scopes.current
  ownsLocals : s.scopes.ownsLocals = t.scopes.ownsLocals
  pending : ∀ l, s.pending l ↔ t.pending l
  entries : ∀ l k, s.holds l k ↔ t.holds l k ∨ extra l k

namespace Besides

variable {extra : Level → Key → Prop} {s t : State}

theorem congr {extra' : Level → Key → Prop} (h : s.Besides extra t)
    (same : ∀ l k, extra l k ↔ extra' l k) : s.Besides extra' t :=
  ⟨h.current, h.ownsLocals, h.pending, fun l k => (h.entries l k).trans (or_congr_right (same l k))⟩

theorem perform (h : s.Besides extra t) (action : Action) :
    (s.perform action).Besides extra (t.perform action) := by
  refine ⟨?_, ?_, fun l => ?_, fun l k => ?_⟩
  · rw [current_perform, current_perform, h.current]
  · rw [ownsLocals_perform, ownsLocals_perform, h.ownsLocals]
  · rw [pending_perform, pending_perform, h.pending l, h.ownsLocals]
  · rw [holds_perform, holds_perform, h.entries l k, h.current, h.ownsLocals, or_right_comm]

theorem declare (h : s.Besides extra t) (d : Declaration) :
    (s.declare d).Besides extra (t.declare d) := by
  refine ⟨?_, ?_, fun l => ?_, fun l k => ?_⟩
  · rw [current_declare, current_declare]
  · rw [ownsLocals_declare, ownsLocals_declare]
  · rw [pending_declare, pending_declare, h.pending l]
  · rw [holds_declare, holds_declare, h.entries l k, or_right_comm]

/-- What the entry of a scope has besides gets into the entry around it. -/
theorem scope {d : Declaration} {body : Outline} {before : Level → Key → Prop}
    (h : s.Besides before t)
    (inside : ((s.declare d).follow body).Besides extra ((t.declare d).follow body)) :
    (s.follow (.scope d body)).Besides
      (fun l k => extra l k ∨ (k = s.scopes.current ∧ extra l d.key))
      (t.follow (.scope d body)) := by
  have gathered (l : Level) : ((s.declare d).follow body).gathered d l
      ↔ ((t.declare d).follow body).gathered d l ∨ extra l d.key := by
    unfold State.gathered
    rw [inside.entries l d.key, inside.pending l, or_right_comm]
  refine ⟨?_, ?_, fun l => ?_, fun l k => ?_⟩
  · rw [current_follow, current_follow, h.current]
  · rw [ownsLocals_follow, ownsLocals_follow, h.ownsLocals]
  · rw [pending_scope, pending_scope, h.pending l, inside.pending l]
  · rw [holds_scope, holds_scope, inside.entries l k, gathered l, ← h.current]
    by_cases here : k = d.key
    · subst here
      grind
    · grind

theorem follow {left : Elements} {before : List (Key × Key)} (h : s.Besides (brought left before) t)
    (o : Outline) :
    (s.follow o).Besides (brought left (o.carried s.scopes.current before)) (t.follow o) := by
  induction o generalizing s t before with
  | nothing => exact h
  | act action => exact h.perform action
  | seq first second ihf ihs =>
    have after := ihs (ihf h)
    rwa [current_follow] at after
  | scope d body ih =>
    have inside := ih (h.declare d)
    rw [current_declare] at inside
    refine (h.scope inside).congr fun l k => ?_
    unfold brought
    simp only [Outline.mem_carried_scope]
    grind

end Besides

end State

open State

/-! ### Files -/

theorem besides_begun (m : Metrics) :
    (begun m).Besides (brought m.elements []) (begun {}) := by
  refine ⟨rfl, rfl, fun l => Iff.rfl, fun l k => ?_⟩
  have own : brought m.elements [] l k ↔ m.elements.holds l k := by simp [brought]
  have fresh : ¬({} : Metrics).elements.holds l k := fun ⟨_, found, _⟩ => by cases found
  rw [holds_begun, holds_begun, own, or_iff_right fresh, or_comm]

/-- A file after others: its entries are those of the file alone, with what was brought to them. -/
theorem holds_afterFile_iff_alone (m : Metrics) (o : Outline) {l : Level} {k : Key}
    (h : k.1 ≠ .extensions) :
    (afterFile m o).elements.holds l k
      ↔ (afterFile {} o).elements.holds l k
        ∨ brought m.elements (o.carried globalKey []) l k := by
  have walked := (besides_begun m).follow o
  rw [current_begun] at walked
  rw [holds_afterFile h, holds_afterFile h, walked.entries l k, walked.pending l, or_right_comm]

/-- Elements that a file neither declares nor names get nothing, the global namespace apart. -/
theorem holds_of_holds_foldl_afterFile {m : Metrics} {outlines : List Outline} {l : Level} {k : Key}
    (isScope : k.1.isScope) (named : k ≠ globalKey)
    (unnamed : ∀ o ∈ outlines, k ∉ o.keys ∧ k ∉ o.targets)
    (h : (outlines.foldl afterFile m).elements.holds l k) : m.elements.holds l k := by
  have other := ne_extensions_of_isScope isScope
  induction outlines generalizing m with
  | nil => exact h
  | cons o rest ih =>
    have between := ih (fun o mem => unnamed o (List.mem_cons_of_mem _ mem)) h
    obtain ⟨undeclared, untargeted⟩ := unnamed o List.mem_cons_self
    rcases (holds_afterFile other).1 between with walked | ⟨global, -⟩
    · have start : (begun m).holds l k :=
        holds_of_holds_follow isScope untargeted undeclared named walked
      rcases holds_begun.1 start with before | ⟨global | extension, -⟩
      · exact before
      · exact absurd global named
      · exact absurd (congrArg Prod.fst extension) other
    · exact absurd global named

/-! ### A tree after others, and the tree alone -/

/-- Where a tree carries the entries that were there before it. -/
def carriedKeys (env : Env) (tree : Tree) : List (Key × Key) :=
  (outline env tree).carried globalKey []

section Compared

variable {env : Env} {earlier : List Tree} {tree : Tree} {k : Key}

theorem holds_analyzeAll_append (env : Env) (earlier : List Tree) (tree : Tree) (l : Level)
    (h : k.1 ≠ .extensions) :
    (analyzeAll env {} (earlier ++ [tree])).metrics.elements.holds l k
      ↔ (analyzeAll env {} [tree]).metrics.elements.holds l k
        ∨ brought (analyzeAll env {} earlier).metrics.elements (carriedKeys env tree) l k := by
  rw [metrics_analyzeAll, metrics_analyzeAll, metrics_analyzeAll, List.map_append,
    List.foldl_append]
  exact holds_afterFile_iff_alone _ _ h

/-- Among the scopes of a tree the global namespace is a special case: every file has an entry for
it. Unless it is declared inside other scopes, its entry gets nowhere. -/
theorem mem_keys_of_mem_carriedKeys {source : Key}
    (outermost : ∀ k, (k, globalKey) ∈ (outline env tree).nested globalKey → k = globalKey)
    (h : (k, source) ∈ carriedKeys env tree) :
    source ∈ (outline env tree).keys ∧ (source = globalKey → k = globalKey) := by
  refine Outline.rel_of_mem_carried
    (P := fun k source => source ∈ (outline env tree).keys ∧ (source = globalKey → k = globalKey))
    (fun outer inner => ⟨inner.1, outer.2 ∘ inner.2⟩) (fun {a b} pair => ?_) (fun none => ?_) h
  · refine ⟨Outline.mem_keys_of_mem_nested pair, ?_⟩
    rintro rfl
    exact outermost a pair
  · cases none

/-- If no scope of a tree goes by a name that occurs in the earlier ones, nothing is brought to a
scope with a name. -/
theorem not_brought {l : Level} (mem : k ∈ (outline env tree).keys) (named : k ≠ globalKey)
    (apart : ∀ k ∈ (outline env tree).keys, k ≠ globalKey → ∀ other ∈ earlier,
      k ∉ (outline env other).keys ∧ k ∉ (outline env other).targets)
    (outermost : ∀ k, (k, globalKey) ∈ (outline env tree).nested globalKey → k = globalKey) :
    ¬brought (analyzeAll env {} earlier).metrics.elements (carriedKeys env tree) l k := by
  rintro ⟨source, way, holds⟩
  obtain ⟨inside, other⟩ : source ∈ (outline env tree).keys ∧ source ≠ globalKey := by
    rcases way with rfl | carried
    · exact ⟨mem, named⟩
    · obtain ⟨inside, global⟩ := mem_keys_of_mem_carriedKeys outermost carried
      exact ⟨inside, named ∘ global⟩
  rw [metrics_analyzeAll] at holds
  have unnamed : ∀ o ∈ earlier.map (outline env), source ∉ o.keys ∧ source ∉ o.targets := by
    intro o ho
    obtain ⟨tree', ht, rfl⟩ := List.mem_map.1 ho
    exact apart source inside other tree' ht
  obtain ⟨r, found, -⟩ := holds_of_holds_foldl_afterFile (Outline.isScope_of_mem_keys inside) other
    unnamed holds
  cases found

/-- The entry of a scope after other trees, beside the one of the tree alone. -/
theorem entries_compared (earlier : List Tree) (h : k ∈ declaredKeys env [tree]) :
    ∃ entry entry',
      (analyzeAll env {} (earlier ++ [tree])).metrics.elements.get? k.1 k.2 = some entry
      ∧ (analyzeAll env {} [tree]).metrics.elements.get? k.1 k.2 = some entry'
      ∧ ∀ l, entry.reaches l ↔ entry'.reaches l
        ∨ brought (analyzeAll env {} earlier).metrics.elements (carriedKeys env tree) l k := by
  have later : k ∈ declaredKeys env (earlier ++ [tree]) := by
    unfold declaredKeys
    rw [List.flatMap_append]
    exact List.mem_append_right _ h
  obtain ⟨entry, found⟩ := exists_entry_of_declared later
  obtain ⟨entry', found'⟩ := exists_entry_of_declared h
  refine ⟨entry, entry', found, found', fun l => ?_⟩
  have holds := holds_analyzeAll_append env earlier tree l
    (ne_extensions_of_isScope (isScope_of_mem_declaredKeys h))
  unfold Elements.holds at holds
  rw [found, found'] at holds
  simpa using holds

end Compared

/-- A requirement that differs from another one by what was brought is unchanged if, and only if,
the other one covers what was brought. -/
theorem equiv_iff_covers_brought {q q' : Requirement} {left : Elements} {carried : List (Key × Key)}
    {k : Key} (h : ∀ l, q.reaches l ↔ q'.reaches l ∨ brought left carried l k) :
    q.equiv q' ↔ ∀ source r, (source = k ∨ (k, source) ∈ carried) →
      left.get? source.1 source.2 = some r → r.requirement ≤ q' := by
  rw [Requirement.equiv_iff_reaches]
  constructor
  · intro same source r way found
    rw [Requirement.le_iff_reaches]
    exact fun l reaches => (same l).1 ((h l).2 (Or.inr ⟨source, way, r, found, reaches⟩))
  · intro covers l
    refine ⟨fun reaches => ?_, fun reaches => (h l).2 (Or.inl reaches)⟩
    rcases (h l).1 reaches with alone | ⟨source, way, r, found, reaches⟩
    · exact alone
    · exact Requirement.le_iff_reaches.1 (covers source r way found) l reaches

/-- A tree that is analyzed after others is judged by itself and by what was left in the entries
that it carries along. The requirement of a scope is the one of the tree alone if, and only if, that
one covers what stood before under its own name and under the names it is carried from. If no scope
of the tree, closures among them, goes by a name that is declared or named in the earlier trees, and
the global namespace is not declared inside other scopes, all scopes with names are judged by the
tree alone. -/
theorem judged_by_tree_and_what_was_left (env : Env) (earlier : List Tree) (tree : Tree) :
    let before := (analyzeAll env {} earlier).metrics.elements
    let together := (analyzeAll env {} (earlier ++ [tree])).metrics.elements
    let alone := (analyzeAll env {} [tree]).metrics.elements
    (∀ k ∈ declaredKeys env [tree], ∃ entry entry',
      together.get? k.1 k.2 = some entry ∧ alone.get? k.1 k.2 = some entry'
        ∧ (entry.requirement.equiv entry'.requirement
          ↔ ∀ source r, (source = k ∨ (k, source) ∈ carriedKeys env tree) →
            before.get? source.1 source.2 = some r → r.requirement ≤ entry'.requirement))
      ∧ ((∀ k ∈ (outline env tree).keys, k ≠ globalKey → ∀ other ∈ earlier,
          k ∉ (outline env other).keys ∧ k ∉ (outline env other).targets) →
        (∀ k, (k, globalKey) ∈ (outline env tree).nested globalKey → k = globalKey) →
        ∀ k ∈ (outline env tree).keys, k ≠ globalKey → ∃ entry entry',
          together.get? k.1 k.2 = some entry ∧ alone.get? k.1 k.2 = some entry'
            ∧ entry.requirement.equiv entry'.requirement) := by
  intro before together alone
  refine ⟨fun k hk => ?_, fun apart outermost k hk named => ?_⟩
  · obtain ⟨entry, entry', found, found', reaches⟩ := entries_compared earlier hk
    exact ⟨entry, entry', found, found', equiv_iff_covers_brought reaches⟩
  · have declared : k ∈ declaredKeys env [tree] :=
      List.mem_flatMap.2 ⟨tree, List.mem_singleton_self _, List.mem_cons_of_mem _ hk⟩
    obtain ⟨entry, entry', found, found', reaches⟩ := entries_compared earlier declared
    refine ⟨entry, entry', found, found', Requirement.equiv_iff_reaches.2 fun l => ?_⟩
    exact (reaches l).trans (or_iff_left (not_brought hk named apart outermost))

/-- A file with a closure and in it a power. -/
def powerClosure : Tree :=
  { path := "b.php"
    nodes := [⟨0, .closure false, { startLine := 3, endLine := 5 }, [⟨1, .pow, {}, []⟩]⟩] }

/-- A file with a function and in it an empty closure that begins on the given line. -/
def closureFunction (line : UInt32) : Tree :=
  { path := "a.php"
    nodes :=
      [⟨0, .functionDecl (Name.ofParts ["f"]), {},
        [⟨1, .closure false, { startLine := line, endLine := line + 2 }, []⟩]⟩] }

/-- Files can meet in their closures: the function is taken to require the power that stands in
another file, in a closure on the same lines. -/
theorem closures_meet_across_files :
    let env : Env := { references := fun _ _ _ => none }
    (∀ k ∈ (outline env (closureFunction 3)).keys, k ≠ (.functions, "closure-3-5") →
        k ∉ (outline env powerClosure).keys ∧ k ∉ (outline env powerClosure).targets)
      ∧ ((analyzeAll env {} [powerClosure, closureFunction 3]).metrics.elements.get? .functions
        "f").map Range.min = some (.release 5 6 0)
      ∧ ((analyzeAll env {} [closureFunction 3]).metrics.elements.get? .functions "f").map Range.min
        = some (.release 5 3 0) := by
  decide +kernel

/-- Where the closures stand on other lines, the function is judged by its own file, and where they
stand on the same lines, it is so only if it requires what was left by the closure of the other
file. -/
theorem closures_judged_by_lines :
    let env : Env := { references := fun _ _ _ => none }
    (∃ entry entry',
      (analyzeAll env {} [powerClosure, closureFunction 7]).metrics.elements.get? .functions "f"
        = some entry
      ∧ (analyzeAll env {} [closureFunction 7]).metrics.elements.get? .functions "f" = some entry'
      ∧ entry.requirement.equiv entry'.requirement)
    ∧ ((.functions, "f"), (.functions, "closure-3-5")) ∈ carriedKeys env (closureFunction 3)
    ∧ ∃ entry entry',
      (analyzeAll env {} [powerClosure, closureFunction 3]).metrics.elements.get? .functions "f"
        = some entry
      ∧ (analyzeAll env {} [closureFunction 3]).metrics.elements.get? .functions "f" = some entry'
      ∧ (entry.requirement.equiv entry'.requirement → ∀ r,
        (analyzeAll env {} [powerClosure]).metrics.elements.get? .functions "closure-3-5" = some r →
          r.requirement ≤ entry'.requirement) := by
  intro env
  have carried : ((.functions, "f"), (.functions, "closure-3-5"))
      ∈ carriedKeys env (closureFunction 3) := by decide +kernel
  refine ⟨?_, carried, ?_⟩
  · have outermost : ∀ pair ∈ (outline env (closureFunction 7)).nested globalKey,
        pair.2 = globalKey → pair.1 = globalKey := by decide +kernel
    exact (judged_by_tree_and_what_was_left env [powerClosure] (closureFunction 7)).2
      (by decide +kernel) (fun k pair => outermost _ pair rfl) (.functions, "f")
      (by decide +kernel) (by decide)
  · obtain ⟨entry, entry', found, found', unchanged⟩ :=
      (judged_by_tree_and_what_was_left env [powerClosure] (closureFunction 3)).1
        (.functions, "f") (by decide +kernel)
    exact ⟨entry, entry', found, found', fun same r => unchanged.1 same _ r (Or.inr carried)⟩

end Requisite.Analyzer
