import Requisite.Proofs.Obscured
import Requisite.Proofs.Upward

/-!
# What guards raise

A guard asks nothing of the scope around it, but it writes what it finds under the name of the
guarded element. Where an element of that name is declared as a scope, as a substitute for a
built-in one is, the scope passes its entry on when it is left, and what the guard has found goes
along.

The analysis of some trees is compared with that of the same trees with their guards obscured. The
difference is computed by `Outline.leaks`, and it is the whole difference: a requirement is
unchanged if, and only if, it covers what has leaked into it. Nothing leaks where no guarded element
is declared.
-/
namespace Requisite.Analyzer

open Code (Expr Name Node Tree)

namespace Outline

/-- The ranges found by guards, each with an element whose entry it has got into, after an outline
was followed inside the scope `around`; `held` are those from before. A scope that is left passes on
what has got into its entry. -/
def leaks (around : Key) (held : List (Key × Range)) : Outline → List (Key × Range)
  | .nothing => held
  | .act action => held ++ action.guarded
  | .seq first second => second.leaks around (first.leaks around held)
  | .scope d body =>
    let inner := body.leaks d.key held
    inner ++ (inner.filter (·.1 = d.key)).map fun leak => (around, leak.2)

end Outline

variable {l : Level} {k : Key}

theorem marked_passed_on {around here : Key} {held : List (Key × Range)} :
    marked l k ((held.filter (·.1 = here)).map fun leak => (around, leak.2))
      ↔ k = around ∧ marked l here held := by
  unfold marked
  constructor
  · rintro ⟨r, mem, reaches⟩
    obtain ⟨⟨k', r'⟩, kept, same⟩ := List.mem_map.1 mem
    obtain ⟨rfl, rfl⟩ := Prod.mk.inj same
    obtain ⟨leak, hk⟩ : (k', r') ∈ held ∧ k' = here := by simpa using kept
    exact ⟨rfl, r', hk ▸ leak, reaches⟩
  · rintro ⟨rfl, r, leak, reaches⟩
    exact ⟨r, List.mem_map.2 ⟨(here, r), by simp [leak], rfl⟩, reaches⟩

/-- What has leaked into an entry stays there. -/
theorem Outline.marked_leaks_of_marked (o : Outline) {around : Key} {held : List (Key × Range)}
    (h : marked l k held) : marked l k (o.leaks around held) := by
  induction o generalizing around held with
  | nothing => exact h
  | act action => exact marked_append.2 (Or.inl h)
  | seq first second ihf ihs => exact ihs (ihf h)
  | scope d body ih => exact marked_append.2 (Or.inl (ih h))

/-- What an action writes under the name of a scope is what it writes with guards obscured, and what
it found for a guarded element. -/
theorem Action.marked_writes_iff {action : Action} {around : Key} {owns : Bool}
    (hk : k.1.isScope) :
    marked l k (action.writes around owns)
      ↔ marked l k (action.obscure.writes around owns) ∨ marked l k action.guarded := by
  cases action with
  | guard g element range =>
    have condition : k ≠ (.conditions, g.condition element) := by
      rintro rfl
      cases hk
    simp [writes, obscure, guarded, condition]
  | _ => simp [obscure, guarded]

theorem Action.saves_obscure (owns : Bool) (action : Action) :
    action.obscure.saves owns = action.saves owns := by
  cases action <;> rfl

namespace State

/-- Two states that agree but for what has leaked into entries of the first one. -/
structure Leaked (s t : State) (held : List (Key × Range)) : Prop where
  current : s.scopes.current = t.scopes.current
  ownsLocals : s.scopes.ownsLocals = t.scopes.ownsLocals
  pending : ∀ l, s.pending l ↔ t.pending l
  entries : ∀ l (k : Key), k.1.isScope → (s.holds l k ↔ t.holds l k ∨ marked l k held)

namespace Leaked

variable {s t : State} {held : List (Key × Range)}

theorem gathered (h : s.Leaked t held) (d : Declaration) (l : Level) :
    s.gathered d l ↔ t.gathered d l ∨ marked l d.key held := by
  unfold State.gathered
  rw [h.entries l d.key d.isScope, h.pending l, or_right_comm]

theorem perform (h : s.Leaked t held) (action : Action) :
    (s.perform action).Leaked (t.perform action.obscure) (held ++ action.guarded) := by
  refine ⟨?_, ?_, fun l => ?_, fun l k hk => ?_⟩
  · rw [current_perform, current_perform, h.current]
  · rw [ownsLocals_perform, ownsLocals_perform, h.ownsLocals]
  · rw [pending_perform, pending_perform, h.pending l, h.ownsLocals, Action.saves_obscure]
  · rw [holds_perform, holds_perform, h.entries l k hk, Action.marked_writes_iff hk, h.current,
      h.ownsLocals, marked_append]
    grind

theorem declare (h : s.Leaked t held) (d : Declaration) :
    (s.declare d).Leaked (t.declare d) held := by
  refine ⟨?_, ?_, fun l => ?_, fun l k hk => ?_⟩
  · rw [current_declare, current_declare]
  · rw [ownsLocals_declare, ownsLocals_declare]
  · rw [pending_declare, pending_declare, h.pending l]
  · rw [holds_declare, holds_declare, h.entries l k hk, or_right_comm]

theorem follow (h : s.Leaked t held) (o : Outline) :
    (s.follow o).Leaked (t.follow (o.map .obscure)) (o.leaks s.scopes.current held) := by
  induction o generalizing s t held with
  | nothing => exact h
  | act action => exact h.perform action
  | seq first second ihf ihs =>
    have between := ihf h
    have after := ihs between
    rwa [current_follow] at after
  | scope d body ih =>
    have inside := ih (h.declare d)
    rw [current_declare] at inside
    rw [Outline.map]
    refine ⟨?_, ?_, fun l => ?_, fun l k hk => ?_⟩
    · rw [current_follow, current_follow, h.current]
    · rw [ownsLocals_follow, ownsLocals_follow, h.ownsLocals]
    · rw [pending_scope, pending_scope, h.pending l, inside.pending l]
    · rw [holds_scope, holds_scope, inside.entries l k hk, inside.gathered d l, ← h.current]
      rw [Outline.leaks, marked_append, marked_passed_on]
      -- what was in the entry of the scope stays there and goes into the entry around it
      by_cases here : k = d.key
      · subst here
        grind
      · grind

/-- Leaks only ever raise the overall requirement. -/
theorem requires_of_obscured (h : s.Leaked t held) (o : Outline) {l : Level}
    (raised : t.requires l → s.requires l) (hr : (t.follow (o.map .obscure)).requires l) :
    (s.follow o).requires l := by
  induction o generalizing s t held with
  | nothing => exact raised hr
  | act action =>
    rw [requires, State.follow, versions_perform]
    rw [requires, Outline.map, State.follow, versions_perform] at hr
    exact raised hr
  | seq first second ihf ihs => exact ihs (h.follow first) (ihf h raised) hr
  | scope d body ih =>
    have inside := (h.declare d).follow body
    rw [requires_scope]
    rcases requires_scope.1 hr with inner | ⟨isNamespace, together⟩
    · refine Or.inl (ih (h.declare d) ?_ inner)
      rwa [requires, requires, versions_declare, versions_declare]
    · exact Or.inr ⟨isNamespace, (inside.gathered d l).2 (Or.inl together)⟩

/-- What leaks into the overall requirement has got into the entry of the innermost scope by the end
of an outline, or had leaked before. -/
theorem requires_follow (h : s.Leaked t held) (o : Outline) {l : Level} {before : Prop}
    (raised : s.requires l → t.requires l ∨ before) (hr : (s.follow o).requires l) :
    (t.follow (o.map .obscure)).requires l ∨ before
      ∨ marked l s.scopes.current (o.leaks s.scopes.current held) := by
  induction o generalizing s t held before with
  | nothing => exact (raised hr).imp id Or.inl
  | act action =>
    rw [requires, State.follow, versions_perform] at hr
    rw [requires, Outline.map, State.follow, versions_perform]
    exact (raised hr).imp id Or.inl
  | seq first second ihf ihs =>
    have later := ihs (h.follow first) (ihf h raised) hr
    rw [current_follow] at later
    rcases later with obscured | (before | leaked) | leaked
    · exact Or.inl obscured
    · exact Or.inr (Or.inl before)
    · exact Or.inr (Or.inr (second.marked_leaks_of_marked leaked))
    · exact Or.inr (Or.inr leaked)
  | scope d body ih =>
    have inside := (h.declare d).follow body
    have declared : (s.declare d).requires l → (t.declare d).requires l ∨ before := by
      rwa [requires, requires, versions_declare, versions_declare]
    have passed (leaked : marked l d.key (body.leaks d.key held)) :
        marked l s.scopes.current ((Outline.scope d body).leaks s.scopes.current held) :=
      marked_append.2 (Or.inr (marked_passed_on.2 ⟨rfl, leaked⟩))
    rw [current_declare] at inside
    rw [Outline.map, requires_scope]
    rcases requires_scope.1 hr with inner | ⟨isNamespace, together⟩
    · have later := ih (h.declare d) declared inner
      rw [current_declare] at later
      rcases later with obscured | before | leaked
      · exact Or.inl (Or.inl obscured)
      · exact Or.inr (Or.inl before)
      · exact Or.inr (Or.inr (passed leaked))
    · rcases (inside.gathered d l).1 together with obscured | leaked
      · exact Or.inl (Or.inr ⟨isNamespace, obscured⟩)
      · exact Or.inr (Or.inr (passed leaked))

end Leaked

end State

open State

/-! ### Files and runs -/

/-- Two metrics that agree but for what has leaked into the first ones. -/
structure MetricsLeaked (m n : Metrics) (held : List (Key × Range)) : Prop where
  entries : ∀ l (k : Key), k.1.isScope →
    (m.elements.holds l k ↔ n.elements.holds l k ∨ marked l k held)
  versions : ∀ l, m.versions.reaches l ↔ n.versions.reaches l ∨ marked l globalKey held

namespace MetricsLeaked

variable {m n : Metrics} {held : List (Key × Range)}

theorem begun (h : MetricsLeaked m n held) : (State.begun m).Leaked (State.begun n) held := by
  refine ⟨rfl, rfl, fun l => Iff.rfl, fun l k hk => ?_⟩
  rw [holds_begun, holds_begun, h.entries l k hk, or_right_comm]

theorem afterFile (h : MetricsLeaked m n held) (o : Outline) :
    MetricsLeaked (afterFile m o) (afterFile n (o.map .obscure)) (o.leaks globalKey held) := by
  have walked := h.begun.follow o
  rw [current_begun] at walked
  refine ⟨fun l k hk => ?_, fun l => ?_⟩
  · have other := ne_extensions_of_isScope hk
    rw [holds_afterFile other, holds_afterFile other,
      walked.entries l k hk, walked.pending l, or_right_comm]
  · have global := walked.entries l globalKey rfl
    have start : (State.begun m).requires l →
        (State.begun n).requires l ∨ marked l globalKey held := (h.versions l).1
    have raised : (State.begun n).requires l → (State.begun m).requires l := fun required =>
      (h.versions l).2 (Or.inl required)
    rw [reaches_versions_afterFile, reaches_versions_afterFile, global, walked.pending l]
    constructor
    · rintro (required | (holds | leaked) | pending)
      · rcases h.begun.requires_follow o start required with obscured | before | leaked
        · exact Or.inl (Or.inl obscured)
        · exact Or.inr (o.marked_leaks_of_marked before)
        · exact Or.inr leaked
      · exact Or.inl (Or.inr (Or.inl holds))
      · exact Or.inr leaked
      · exact Or.inl (Or.inr (Or.inr pending))
    · rintro ((required | holds | pending) | leaked)
      · exact Or.inl (h.begun.requires_of_obscured o raised required)
      · exact Or.inr (Or.inl (Or.inl holds))
      · exact Or.inr (Or.inr pending)
      · exact Or.inr (Or.inl (Or.inr leaked))

theorem run (h : MetricsLeaked m n held) (outlines : List Outline) :
    MetricsLeaked (outlines.foldl Analyzer.afterFile m)
      ((outlines.map (Outline.map .obscure)).foldl Analyzer.afterFile n)
      (outlines.foldl (fun held o => o.leaks globalKey held) held) := by
  induction outlines generalizing m n held with
  | nil => exact h
  | cons o rest ih => exact ih (h.afterFile o)

end MetricsLeaked

/-- The ranges found by the guards of a run, each with an element whose entry it has got into. -/
def guardLeaks (env : Env) (trees : List Tree) : List (Key × Range) :=
  (trees.map (outline env)).foldl (fun held o => o.leaks globalKey held) []

theorem metricsLeaked_run (env : Env) {hidden : UInt32 → Expr}
    (hh : ∀ i, (hidden i).literal? = none) (trees : List Tree)
    (distinct : ∀ tree ∈ trees, tree.ids.Nodup) :
    MetricsLeaked (analyzeAll env {} trees).metrics
      (analyzeAll env {} (trees.map (Tree.obscure hidden))).metrics (guardLeaks env trees) := by
  have start : MetricsLeaked {} {} [] := ⟨fun l k _ => by simp, fun l => by simp⟩
  have outlines : (trees.map (Tree.obscure hidden)).map (outline env)
      = (trees.map (outline env)).map (Outline.map .obscure) := by
    rw [List.map_map, List.map_map]
    exact List.map_congr_left fun tree ht => outline_obscure env hh tree (distinct tree ht)
  rw [metrics_analyzeAll, metrics_analyzeAll, outlines]
  exact start.run (trees.map (outline env))

/-- A requirement that differs from another one by what has leaked is unchanged if, and only if, the
other one covers what has leaked. -/
theorem equiv_iff_covers_leaks {q q' : Requirement} {held : List (Key × Range)}
    (h : ∀ l, q.reaches l ↔ q'.reaches l ∨ marked l k held) :
    q.equiv q' ↔ ∀ r, (k, r) ∈ held → r.requirement ≤ q' := by
  rw [Requirement.equiv_iff_reaches]
  constructor
  · intro same r leak
    rw [Requirement.le_iff_reaches]
    exact fun l reaches => (same l).1 ((h l).2 (Or.inr ⟨r, leak, reaches⟩))
  · intro covers l
    refine ⟨fun reaches => ?_, fun reaches => (h l).2 (Or.inl reaches)⟩
    rcases (h l).1 reaches with obscured | ⟨r, leak, reaches⟩
    · exact obscured
    · exact Requirement.le_iff_reaches.1 (covers r leak) l reaches

/-! ### Where nothing leaks -/

/-- Where no guarded element is declared, nothing leaks into an entry of what is declared. -/
theorem Outline.not_declared_of_mem_leaks {declared : List Key} {o : Outline} (around : Key)
    {held : List (Key × Range)} (sub : o.keys ⊆ declared)
    (before : ∀ leak ∈ held, leak.1 ∉ declared) (here : ∀ leak ∈ o.guarded, leak.1 ∉ declared) :
    ∀ leak ∈ o.leaks around held, leak.1 ∉ declared := by
  induction o generalizing around held with
  | nothing => exact before
  | act action => exact fun leak mem => (List.mem_append.1 mem).elim (before leak) (here leak)
  | seq first second ihf ihs =>
    rw [keys_seq] at sub
    have between := ihf around (fun k hk => sub (List.mem_append_left _ hk)) before
      (fun leak mem => here leak (List.mem_append_left _ mem))
    exact ihs around (fun k hk => sub (List.mem_append_right _ hk)) between
      (fun leak mem => here leak (List.mem_append_right _ mem))
  | scope d body ih =>
    have inside := ih d.key (fun k hk => sub (List.mem_cons_of_mem _ hk)) before here
    intro leak mem
    rcases List.mem_append.1 mem with inner | passed
    · exact inside leak inner
    · obtain ⟨old, kept, rfl⟩ := List.mem_map.1 passed
      obtain ⟨inner, same⟩ : old ∈ body.leaks d.key held ∧ old.1 = d.key := by simpa using kept
      exact absurd (same ▸ sub List.mem_cons_self) (inside old inner)

/-- The elements that the trees of a run declare as scopes, with the files themselves. -/
def declaredKeys (env : Env) (trees : List Tree) : List Key :=
  trees.flatMap fun tree => (outline env tree).fileScopes.map (·.1)

/-- The elements that the guards of a run ask for. -/
def guardedKeys (env : Env) (trees : List Tree) : List Key :=
  trees.flatMap fun tree => (outline env tree).guarded.map (·.1)

theorem not_declared_of_mem_guardLeaks {env : Env} {trees : List Tree}
    (h : ∀ k ∈ guardedKeys env trees, k ∉ declaredKeys env trees) :
    ∀ leak ∈ guardLeaks env trees, leak.1 ∉ declaredKeys env trees := by
  have step (outlines : List Outline) (held : List (Key × Range))
      (before : ∀ leak ∈ held, leak.1 ∉ declaredKeys env trees)
      (sub : ∀ o ∈ outlines, o.keys ⊆ declaredKeys env trees)
      (here : ∀ o ∈ outlines, ∀ leak ∈ o.guarded, leak.1 ∉ declaredKeys env trees) :
      ∀ leak ∈ outlines.foldl (fun held o => o.leaks globalKey held) held,
        leak.1 ∉ declaredKeys env trees := by
    induction outlines generalizing held with
    | nil => exact before
    | cons o rest ih =>
      refine ih _ ?_ (fun o ho => sub o (List.mem_cons_of_mem _ ho))
        (fun o ho => here o (List.mem_cons_of_mem _ ho))
      exact Outline.not_declared_of_mem_leaks globalKey (sub o List.mem_cons_self) before
        (here o List.mem_cons_self)
  refine step (trees.map (outline env)) [] (by simp) (fun o ho k hk => ?_) (fun o ho leak mem => ?_)
  · obtain ⟨tree, ht, rfl⟩ := List.mem_map.1 ho
    exact List.mem_flatMap.2 ⟨tree, ht, List.mem_cons_of_mem _ hk⟩
  · obtain ⟨tree, ht, rfl⟩ := List.mem_map.1 ho
    exact h leak.1 (List.mem_flatMap.2 ⟨tree, ht, List.mem_map_of_mem mem⟩)

theorem globalKey_not_mem_guardLeaks {env : Env} {trees : List Tree}
    (h : ∀ k ∈ guardedKeys env trees, k ∉ declaredKeys env trees) (r : Range) :
    (globalKey, r) ∉ guardLeaks env trees := by
  cases trees with
  | nil => exact List.not_mem_nil
  | cons tree rest =>
    have file : globalKey ∈ declaredKeys env (tree :: rest) :=
      List.mem_flatMap.2 ⟨tree, List.mem_cons_self, List.mem_cons_self⟩
    exact fun leak => not_declared_of_mem_guardLeaks h _ leak file

/-! ### The two analyses compared -/

section Compared

variable {env : Env} {hidden : UInt32 → Expr} {trees : List Tree}

theorem isScope_of_mem_declaredKeys (h : k ∈ declaredKeys env trees) : k.1.isScope := by
  obtain ⟨tree, -, mem⟩ := List.mem_flatMap.1 h
  obtain ⟨⟨_, ranges⟩, scope, rfl⟩ := List.mem_map.1 mem
  exact Outline.isScope_of_mem_fileScopes scope

theorem exists_entry_of_declared (h : k ∈ declaredKeys env trees) :
    ∃ entry, (analyzeAll env {} trees).metrics.elements.get? k.1 k.2 = some entry := by
  obtain ⟨tree, ht, mem⟩ := List.mem_flatMap.1 h
  obtain ⟨⟨_, ranges⟩, scope, rfl⟩ := List.mem_map.1 mem
  have ho : outline env tree ∈ trees.map (outline env) := List.mem_map_of_mem ht
  rw [metrics_analyzeAll]
  obtain ⟨entry, found, -⟩ := exists_entry_foldl_afterFile {} ho scope
  exact ⟨entry, found⟩

/-- Obscuring the guards of a tree changes nothing about what it declares. -/
theorem declaredKeys_obscure (hh : ∀ i, (hidden i).literal? = none)
    (distinct : ∀ tree ∈ trees, tree.ids.Nodup) :
    declaredKeys env (trees.map (Tree.obscure hidden)) = declaredKeys env trees := by
  have deferred (a : Action) : a.obscure.deferred = a.deferred := by cases a <;> rfl
  have asked (a : Action) : a.obscure.asked = a.asked := by cases a <;> rfl
  have same (tree : Tree) (ht : tree ∈ trees) :
      (outline env (tree.obscure hidden)).fileScopes.map (·.1)
        = (outline env tree).fileScopes.map (·.1) := by
    rw [outline_obscure env hh tree (distinct tree ht), Outline.fileScopes, Outline.fileScopes,
      Outline.scopes_map deferred asked]
    rfl
  unfold declaredKeys
  rw [List.flatMap_map, List.flatMap_def, List.flatMap_def, List.map_congr_left same]

/-- The entry of what is declared is unchanged if, and only if, it covers what has leaked. -/
theorem entry_unchanged_iff (hh : ∀ i, (hidden i).literal? = none)
    (distinct : ∀ tree ∈ trees, tree.ids.Nodup) (h : k ∈ declaredKeys env trees) :
    ∃ entry entry', (analyzeAll env {} trees).metrics.elements.get? k.1 k.2 = some entry
      ∧ (analyzeAll env {} (trees.map (Tree.obscure hidden))).metrics.elements.get? k.1 k.2
        = some entry'
      ∧ (entry.requirement.equiv entry'.requirement
        ↔ ∀ r, (k, r) ∈ guardLeaks env trees → r.requirement ≤ entry'.requirement) := by
  have leaked := metricsLeaked_run env hh trees distinct
  obtain ⟨entry, found⟩ := exists_entry_of_declared h
  obtain ⟨entry', found'⟩ := exists_entry_of_declared (declaredKeys_obscure hh distinct ▸ h)
  refine ⟨entry, entry', found, found', equiv_iff_covers_leaks fun l => ?_⟩
  have entries := leaked.entries l k (isScope_of_mem_declaredKeys h)
  unfold Elements.holds at entries
  rw [found, found'] at entries
  change entry.reaches l ↔ entry'.reaches l ∨ _
  simpa using entries

end Compared

/-- Guards raise what leaks, and nothing else. The overall requirement is the one with the guards
obscured if, and only if, that one covers what has leaked into the global namespace, and the entry
of anything declared is unchanged if, and only if, it covers what has leaked into it. If no guarded
element is declared, both are unchanged. -/
theorem guards_raise_what_leaks (env : Env) (hidden : UInt32 → Expr)
    (hh : ∀ i, (hidden i).literal? = none) (trees : List Tree)
    (distinct : ∀ tree ∈ trees, tree.ids.Nodup) :
    let metrics := (analyzeAll env {} trees).metrics
    let obscured := (analyzeAll env {} (trees.map (Tree.obscure hidden))).metrics
    let leaks := guardLeaks env trees
    (metrics.versions.equiv obscured.versions
        ↔ ∀ r, (globalKey, r) ∈ leaks → r.requirement ≤ obscured.versions)
      ∧ (∀ k ∈ declaredKeys env trees, ∃ entry entry',
        metrics.elements.get? k.1 k.2 = some entry
          ∧ obscured.elements.get? k.1 k.2 = some entry'
          ∧ (entry.requirement.equiv entry'.requirement
            ↔ ∀ r, (k, r) ∈ leaks → r.requirement ≤ entry'.requirement))
      ∧ ((∀ k ∈ guardedKeys env trees, k ∉ declaredKeys env trees) →
        metrics.versions.equiv obscured.versions
          ∧ ∀ k ∈ declaredKeys env trees, ∃ entry entry',
            metrics.elements.get? k.1 k.2 = some entry
              ∧ obscured.elements.get? k.1 k.2 = some entry'
              ∧ entry.requirement.equiv entry'.requirement) := by
  intro metrics obscured leaks
  have leaked := metricsLeaked_run env hh trees distinct
  have overall := equiv_iff_covers_leaks leaked.versions
  refine ⟨overall, fun k hk => entry_unchanged_iff hh distinct hk, fun undeclared => ⟨?_, ?_⟩⟩
  · exact overall.2 fun r leak => absurd leak (globalKey_not_mem_guardLeaks undeclared r)
  · intro k hk
    obtain ⟨entry, entry', found, found', unchanged⟩ := entry_unchanged_iff hh distinct hk
    refine ⟨entry, entry', found, found', unchanged.2 fun r leak => ?_⟩
    exact absurd hk (not_declared_of_mem_guardLeaks undeclared _ leak)

-- Ids have to be distinct: here the constructor needs a late release if it is given an argument,
-- but its node has the id of the guard, and what was found for the guard without arguments is used
-- again.
example :
    let env : Env :=
      { references := fun category _ argCount =>
          if category = .classes ∧ argCount = some 1 then some (.since (.release 5 5 0)) else none }
    let tree : Tree :=
      { path := "c.php"
        nodes :=
          [⟨0, .call (some (Name.ofParts ["class_exists"])) [.string "C"], {}, []⟩,
            ⟨0, .new (some (Name.ofParts ["C"])) 1, {}, []⟩] }
    (analyzeAll env {} [tree]).metrics.versions = {}
      ∧ (analyzeAll env {} [tree.obscure fun _ => .other]).metrics.versions
        = { min := .release 5 5 0 } := by
  decide +kernel

/-- A guard for a built-in function, and the declaration of a substitute for it. -/
def substitute : Tree :=
  { path := "f.php"
    nodes :=
      [⟨0, .call (some (Name.ofParts ["function_exists"])) [.string "f"], {}, []⟩,
        ⟨1, .functionDecl (Name.ofParts ["f"]), {}, []⟩] }

/-- A built-in function that came with a late release. -/
def lateFunction : Env :=
  { references := fun _ name _ => if name = "f" then some (.since (.release 5 5 0)) else none }

/-- A guard can raise the overall requirement: where a substitute is declared under it, all code is
taken to require what the substitute is for, and without the guard nothing is. -/
theorem guarded_substitute_raises :
    (analyzeAll lateFunction {} [substitute]).metrics.versions = { min := .release 5 5 0 }
      ∧ (analyzeAll lateFunction {} [substitute.obscure fun _ => .other]).metrics.versions
        = {} := by
  decide +kernel

/-- What was found for the guarded function has leaked into the global namespace, so the overall
requirement is unchanged only if it covers the late release. -/
theorem guarded_substitute_leaks :
    let hidden : UInt32 → Expr := fun _ => .other
    let obscured := (analyzeAll lateFunction {} ([substitute].map (Tree.obscure hidden))).metrics
    (∀ tree ∈ [substitute], tree.ids.Nodup)
      ∧ (globalKey, .since (.release 5 5 0)) ∈ guardLeaks lateFunction [substitute]
      ∧ ((analyzeAll lateFunction {} [substitute]).metrics.versions.equiv obscured.versions
        ↔ ∀ r, (globalKey, r) ∈ guardLeaks lateFunction [substitute] →
          r.requirement ≤ obscured.versions) := by
  intro hidden obscured
  have distinct : ∀ tree ∈ [substitute], tree.ids.Nodup := by decide
  refine ⟨distinct, by decide +kernel, ?_⟩
  exact (guards_raise_what_leaks lateFunction hidden (fun _ => rfl) [substitute] distinct).1

end Requisite.Analyzer
