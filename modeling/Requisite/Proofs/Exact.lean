import Requisite.Proofs.Lookups
import Requisite.Proofs.Upward

/-!
# Scopes that stand apart

Entries are shared by name. Where the scopes of a tree have names of their own, and nothing else in
the tree goes by these names, the entry of a scope holds what is required in the scope and nothing
besides: the walk computes, scope by scope, the recursive `Outline.scopes`.

That nothing is missing is the upward flow of requirements. That nothing is added rests on what is
written where. Elements outside an outline keep their entries (`holds_of_holds_follow`), and what
arrives in the entry of the innermost scope was asked inside it (`asked_of_holds_current`).
-/
namespace Requisite.Analyzer

open Code (Name Node Tree)

namespace Outline

/-- Scopes have names of their own, and nothing else goes by these names. -/
structure Apart (o : Outline) : Prop where
  distinct : o.keys.Nodup
  untargeted : ∀ k ∈ o.keys, k ∉ o.targets

namespace Apart

variable {first second body : Outline} {d : Declaration}

theorem left (h : (seq first second).Apart) : first.Apart := by
  obtain ⟨distinct, untargeted⟩ := h
  rw [keys_seq] at distinct untargeted
  refine ⟨(List.nodup_append.1 distinct).1, fun k hk ht => ?_⟩
  exact untargeted k (List.mem_append_left _ hk) (List.mem_append_left _ ht)

theorem right (h : (seq first second).Apart) : second.Apart := by
  obtain ⟨distinct, untargeted⟩ := h
  rw [keys_seq] at distinct untargeted
  refine ⟨(List.nodup_append.1 distinct).2.1, fun k hk ht => ?_⟩
  exact untargeted k (List.mem_append_right _ hk) (List.mem_append_right _ ht)

theorem inside (h : (scope d body).Apart) : body.Apart := by
  refine ⟨(List.nodup_cons.1 h.distinct).2, fun k hk ht => ?_⟩
  exact h.untargeted k (List.mem_cons_of_mem _ hk) (List.mem_append_right _ ht)

theorem key_not_mem_keys (h : (scope d body).Apart) : d.key ∉ body.keys :=
  (List.nodup_cons.1 h.distinct).1

theorem key_not_mem_targets (h : (scope d body).Apart) : d.key ∉ body.targets := fun mem =>
  h.untargeted d.key List.mem_cons_self (List.mem_append_right _ mem)

end Apart

end Outline

/-- What an action writes under the name of a scope that it does not name, it asks of that scope. -/
theorem Action.asked_of_marked {action : Action} {around k : Key} {owns : Bool} {l : Level}
    (hk : k.1.isScope) (ht : k ∉ action.targets) (h : marked l k (action.writes around owns)) :
    k = around ∧ ∃ r ∈ action.asked, r.reaches l := by
  have apart {category : Category} {name : String} (hc : category.isScope = false) :
      k ≠ (category, name) := by
    rintro rfl
    simp [hc] at hk
  cases action with
  | construct c =>
    by_cases significant : c.isSignificant
    · obtain ⟨rfl, reaches⟩ : k = around ∧ c.contribution.reaches l := by
        simpa [writes, significant] using h
      exact ⟨rfl, _, List.mem_singleton_self _, reaches⟩
    · simp [writes, significant] at h
  | parameter | assign | dynamicGuard => simp [writes] at h
  | hint className =>
    have other : k ≠ (.classes, className) := by simpa [targets] using ht
    obtain ⟨rfl, reaches⟩ : k = around ∧ hintRange.reaches l := by
      simpa [writes, other] using h
    exact ⟨rfl, _, List.mem_singleton_self _, reaches⟩
  | reference category name range =>
    have other : k ≠ (category, name) := by simpa [targets] using ht
    have extension : k ≠ (.extensions, range.extension) := apart rfl
    obtain ⟨rfl, reaches⟩ : k = around ∧ range.reaches l := by
      cases user : range.isUser <;> cases owns <;> simp_all [writes]
    exact ⟨rfl, _, List.mem_singleton_self _, reaches⟩
  | guard g element range =>
    have other : k ≠ (g.category, element) := by simpa [targets] using ht
    have condition : k ≠ (.conditions, g.condition element) := apart rfl
    simp [writes, other, condition] at h
  | define constant =>
    have constants : k ≠ (.constants, constant) := apart rfl
    simp [writes, constants] at h

namespace State

variable {s : State} {l : Level} {k : Key} {o : Outline}

/-- An element that an outline neither names nor declares, and that is not the innermost scope,
keeps its entry. -/
theorem holds_of_holds_follow (hs : k.1.isScope) (ht : k ∉ o.targets) (hk : k ∉ o.keys)
    (hc : k ≠ s.scopes.current) (h : (s.follow o).holds l k) : s.holds l k := by
  induction o generalizing s with
  | nothing => exact h
  | act action =>
    rcases holds_perform.1 h with before | written
    · exact before
    · exact absurd (Action.asked_of_marked hs ht written).1 hc
  | seq first second ihf ihs =>
    rw [Outline.keys_seq] at hk
    rw [follow] at h
    have between := ihs (fun mem => ht (List.mem_append_right _ mem))
      (fun mem => hk (List.mem_append_right _ mem)) (by rwa [current_follow]) h
    exact ihf (fun mem => ht (List.mem_append_left _ mem))
      (fun mem => hk (List.mem_append_left _ mem)) hc between
  | scope d body ih =>
    have hd : k ≠ d.key := fun same => hk (same ▸ List.mem_cons_self)
    have inner : ((s.declare d).follow body).holds l k := by
      rcases holds_scope.1 h with inner | ⟨here | around, -⟩
      · exact inner
      · exact absurd here hd
      · exact absurd around hc
    have declared := ih (fun mem => ht (List.mem_append_right _ mem))
      (fun mem => hk (List.mem_cons_of_mem _ mem)) (by rwa [current_declare]) inner
    rcases holds_declare.1 declared with before | ⟨r, head, -⟩ | ⟨here, -⟩
    · exact before
    · exact absurd (List.mem_append_left _ (List.mem_map.2 ⟨(k, r), head, rfl⟩)) ht
    · exact absurd here hd

/-- What is pending after an outline was pending before, or is required by it. -/
theorem required_of_pending (h : (s.follow o).pending l) :
    s.pending l ∨ ∃ r ∈ o.required, r.reaches l := by
  induction o generalizing s with
  | nothing => exact Or.inl h
  | act action =>
    rcases pending_perform.1 h with before | ⟨r, saved, reaches⟩
    · exact Or.inl before
    · exact Or.inr ⟨r, Action.mem_required_of_saves saved, reaches⟩
  | seq first second ihf ihs =>
    rw [follow] at h
    rcases ihs h with between | ⟨r, hr, reaches⟩
    · rcases ihf between with before | ⟨r, hr, reaches⟩
      · exact Or.inl before
      · exact Or.inr ⟨r, Outline.mem_required_seq.2 (Or.inl hr), reaches⟩
    · exact Or.inr ⟨r, Outline.mem_required_seq.2 (Or.inr hr), reaches⟩
  | scope d body ih =>
    rw [pending_scope] at h
    split at h
    · exact Or.inl h
    · rename_i shares
      rcases ih h with declared | ⟨r, hr, reaches⟩
      · rw [pending_declare, if_neg shares] at declared
        exact Or.inl declared
      · exact Or.inr ⟨r, Outline.mem_required_scope.2 (Or.inr hr), reaches⟩

/-- The entries of the scopes to come do not reach a level yet. -/
def Unheld (s : State) (l : Level) (o : Outline) : Prop :=
  ∀ k ∈ o.keys, ¬s.holds l k

theorem Unheld.left {first second : Outline} (h : s.Unheld l (.seq first second)) :
    s.Unheld l first := fun k hk => h k (Outline.keys_seq .. ▸ List.mem_append_left _ hk)

theorem Unheld.right {first second : Outline} (h : s.Unheld l (.seq first second))
    (apart : (Outline.seq first second).Apart)
    (hk : s.scopes.current ∉ (Outline.seq first second).keys) :
    (s.follow first).Unheld l second := by
  rw [Outline.keys_seq] at hk
  intro k mem held
  have distinct := apart.distinct
  have mem' : k ∈ (Outline.seq first second).keys :=
    Outline.keys_seq .. ▸ List.mem_append_right _ mem
  rw [Outline.keys_seq] at distinct
  refine h k mem' (holds_of_holds_follow (Outline.isScope_of_mem_keys mem) ?_ ?_ ?_ held)
  · exact fun target => apart.untargeted k mem' (List.mem_append_left _ target)
  · exact fun twice => (List.nodup_append.1 distinct).2.2 k twice k mem rfl
  · exact fun same => hk (same ▸ List.mem_append_right _ mem)

theorem Unheld.inside {d : Declaration} {body : Outline} (h : s.Unheld l (.scope d body))
    (apart : (Outline.scope d body).Apart) : (s.declare d).Unheld l body := by
  intro k mem held
  have mem' : k ∈ (Outline.scope d body).keys := List.mem_cons_of_mem _ mem
  rcases holds_declare.1 held with before | ⟨r, head, -⟩ | ⟨rfl, -⟩
  · exact h k mem' before
  · have target : k ∈ d.heads.map (·.1) := List.mem_map.2 ⟨(k, r), head, rfl⟩
    exact apart.untargeted k mem' (List.mem_append_left _ target)
  · exact apart.key_not_mem_keys mem

/-- What has come together in a scope by its end is required by the scope. -/
theorem gather_of_gathered {d : Declaration} {body : Outline}
    (apart : (Outline.scope d body).Apart) (unheld : s.Unheld l (.scope d body))
    (inside : ((s.declare d).follow body).holds l d.key →
      (s.declare d).holds l d.key ∨ ∃ r ∈ body.asked, r.reaches l)
    (h : ((s.declare d).follow body).gathered d l) :
    ∃ r ∈ d.gather body.asked body.deferred, r.reaches l := by
  rcases h with entry | ⟨keeps, pending⟩
  · rcases inside entry with declared | ⟨r, asked, reaches⟩
    · rcases holds_declare.1 declared with before | ⟨r, named, -⟩ | ⟨-, r, own, reaches⟩
      · exact absurd before (unheld d.key List.mem_cons_self)
      · have target : d.key ∈ d.heads.map (·.1) := List.mem_map.2 ⟨(d.key, r), named, rfl⟩
        exact absurd (List.mem_append_left _ target) (apart.untargeted d.key List.mem_cons_self)
      · exact ⟨r, Declaration.mem_gather.2 (Or.inl own), reaches⟩
    · exact ⟨r, Declaration.mem_gather.2 (Or.inr (Or.inl asked)), reaches⟩
  · rcases required_of_pending pending with declared | ⟨r, required, reaches⟩
    · rw [pending_declare, if_pos keeps] at declared
      exact ⟨d.own, Declaration.mem_gather.2 (Or.inl List.mem_cons_self),
        Declaration.reaches_own declared⟩
    · refine ⟨r, Declaration.mem_gather.2 (Or.inr ?_), reaches⟩
      exact (List.mem_append.1 required).imp id fun deferred => ⟨keeps, deferred⟩

/-- What arrives in the entry of the innermost scope was asked of it. -/
theorem asked_of_holds_current (apart : o.Apart) (unheld : s.Unheld l o)
    (current : s.scopes.current = k) (hs : k.1.isScope) (hk : k ∉ o.keys) (ht : k ∉ o.targets)
    (h : (s.follow o).holds l k) : s.holds l k ∨ ∃ r ∈ o.asked, r.reaches l := by
  induction o generalizing s k with
  | nothing => exact Or.inl h
  | act action =>
    rcases holds_perform.1 h with before | written
    · exact Or.inl before
    · exact Or.inr (Action.asked_of_marked hs ht written).2
  | seq first second ihf ihs =>
    have later := unheld.right apart (current ▸ hk)
    rw [Outline.keys_seq] at hk
    rw [follow] at h
    rcases ihs apart.right later ((current_follow s first).trans current) hs
      (fun mem => hk (List.mem_append_right _ mem))
      (fun mem => ht (List.mem_append_right _ mem)) h with between | ⟨r, hr, reaches⟩
    · rcases ihf apart.left unheld.left current hs (fun mem => hk (List.mem_append_left _ mem))
        (fun mem => ht (List.mem_append_left _ mem)) between with before | ⟨r, hr, reaches⟩
      · exact Or.inl before
      · exact Or.inr ⟨r, List.mem_append_left _ hr, reaches⟩
    · exact Or.inr ⟨r, List.mem_append_right _ hr, reaches⟩
  | scope d body ih =>
    have hd : k ≠ d.key := fun same => hk (same ▸ List.mem_cons_self)
    rcases holds_scope.1 h with inner | ⟨-, together⟩
    · have declared := holds_of_holds_follow hs (fun mem => ht (List.mem_append_right _ mem))
        (fun mem => hk (List.mem_cons_of_mem _ mem)) (by rwa [current_declare]) inner
      rcases holds_declare.1 declared with before | ⟨r, head, -⟩ | ⟨here, -⟩
      · exact Or.inl before
      · exact absurd (List.mem_append_left _ (List.mem_map.2 ⟨(k, r), head, rfl⟩)) ht
      · exact absurd here hd
    · have inside := ih apart.inside (unheld.inside apart) (current_declare s d) d.isScope
        apart.key_not_mem_keys apart.key_not_mem_targets
      exact Or.inr (gather_of_gathered apart unheld inside together)

/-- What is held by a scope after an outline is required in the scope. -/
theorem required_of_holds {ranges : List Range} (apart : o.Apart) (unheld : s.Unheld l o)
    (hk : s.scopes.current ∉ o.keys) (mem : (k, ranges) ∈ o.scopes)
    (h : (s.follow o).holds l k) : ∃ r ∈ ranges, r.reaches l := by
  induction o generalizing s with
  | nothing => simp [Outline.scopes] at mem
  | act action => simp [Outline.scopes] at mem
  | seq first second ihf ihs =>
    have later := unheld.right apart hk
    have distinct := apart.distinct
    rw [Outline.keys_seq] at hk distinct
    rw [follow] at h
    rcases List.mem_append.1 mem with early | late
    · have declared : k ∈ first.keys := List.mem_map.2 ⟨(k, ranges), early, rfl⟩
      -- the second part neither declares nor names what the first part has declared
      refine ihf apart.left unheld.left (fun mem => hk (List.mem_append_left _ mem)) early
        (holds_of_holds_follow (Outline.isScope_of_mem_keys declared) ?_ ?_ ?_ h)
      · intro target
        have mem' : k ∈ (Outline.seq first second).keys :=
          Outline.keys_seq .. ▸ List.mem_append_left _ declared
        exact apart.untargeted k mem' (List.mem_append_right _ target)
      · exact fun twice => (List.nodup_append.1 distinct).2.2 k declared k twice rfl
      · rw [current_follow]
        exact fun same => hk (same ▸ List.mem_append_left _ declared)
    · exact ihs apart.right later
        (by rw [current_follow]; exact fun mem => hk (List.mem_append_right _ mem)) late h
  | scope d body ih =>
    rcases List.mem_cons.1 mem with same | inner
    · obtain ⟨rfl, rfl⟩ := Prod.mk.inj same
      have inside := asked_of_holds_current apart.inside (unheld.inside apart)
        (current_declare s d) d.isScope apart.key_not_mem_keys apart.key_not_mem_targets
      refine gather_of_gathered apart unheld inside ?_
      rcases holds_scope.1 h with entry | ⟨-, together⟩
      · exact Or.inl entry
      · exact together
    · have declared : k ∈ body.keys := List.mem_map.2 ⟨(k, ranges), inner, rfl⟩
      refine ih apart.inside (unheld.inside apart) ?_ inner ?_
      · rw [current_declare]
        exact apart.key_not_mem_keys
      · rcases holds_scope.1 h with entry | ⟨here | around, -⟩
        · exact entry
        · exact absurd (here ▸ declared) apart.key_not_mem_keys
        · exact absurd (List.mem_cons_of_mem _ (around ▸ declared)) hk

end State

open State

/-! ### Files -/

/-- At the beginning of a first file, no scope that is not the file itself holds anything. -/
theorem unheld_begun {o : Outline} (h : globalKey ∉ o.keys) (l : Level) :
    (begun {}).Unheld l o := by
  intro k mem held
  rcases holds_begun.1 held with ⟨r, missing, -⟩ | ⟨rfl | rfl, -⟩
  · cases missing
  · exact h mem
  · cases Outline.isScope_of_mem_keys mem

theorem holds_afterFile_iff {o : Outline} (apart : o.Apart) (hg : globalKey ∉ o.keys) {k : Key}
    {ranges : List Range} (mem : (k, ranges) ∈ o.scopes) (l : Level) :
    (afterFile {} o).elements.holds l k ↔ ∃ r ∈ ranges, r.reaches l := by
  have hk : k ∈ o.keys := List.mem_map.2 ⟨(k, ranges), mem, rfl⟩
  constructor
  · intro held
    have scope := ne_extensions_of_isScope (Outline.isScope_of_mem_keys hk)
    rcases (holds_afterFile scope).1 held with walked | ⟨rfl, -⟩
    · exact required_of_holds apart (unheld_begun hg l) hg mem walked
    · exact absurd hk hg
  · rintro ⟨r, hr, reaches⟩
    exact holds_afterFile_of_mem (List.mem_cons_of_mem _ mem) (List.mem_cons_of_mem _ hr) reaches

/-- The ranges of guards have no part in what scopes require and in what is named. -/
theorem scopes_eq_of_blank {o p : Outline} (h : o.map .blank = p.map .blank) :
    o.scopes = p.scopes ∧ o.targets = p.targets := by
  have deferred (a : Action) : a.blank.deferred = a.deferred := by cases a <;> rfl
  have asked (a : Action) : a.blank.asked = a.asked := by cases a <;> rfl
  have targets (a : Action) : a.blank.targets = a.targets := by cases a <;> rfl
  constructor
  · rw [← Outline.scopes_map deferred asked o, h, Outline.scopes_map deferred asked]
  · rw [← Outline.targets_map targets o, h, Outline.targets_map targets]

/-- Scope by scope, the walk of a tree computes what recursion over the tree says. If ids are
distinct, scopes have names of their own and nothing else in the tree goes by these names, then
after the tree has been analyzed from the start, the entry of every scope is the greatest of what
its declaration and all that stands inside it require. -/
theorem scope_entries_exact (env : Env) (tree : Tree) (ids : tree.ids.Nodup)
    (distinct : (outline env.forgetful tree).keys.Nodup)
    (named : globalKey ∉ (outline env.forgetful tree).keys)
    (untargeted : ∀ k ∈ (outline env.forgetful tree).keys,
      k ∉ (outline env.forgetful tree).targets)
    (k : Key) (ranges : List Range) (h : (k, ranges) ∈ (outline env.forgetful tree).scopes) :
    ∃ entry, (analyze env {} tree).metrics.elements.get? k.1 k.2 = some entry
      ∧ entry.requirement.IsMaximum ranges := by
  obtain ⟨scopes, targets⟩ := scopes_eq_of_blank (outline_forgetful env tree ids)
  have keys : (outline env tree).keys = (outline env.forgetful tree).keys := by
    unfold Outline.keys
    rw [scopes]
  rw [← keys] at distinct named untargeted
  rw [← targets] at untargeted
  rw [← scopes] at h
  have iff := holds_afterFile_iff ⟨distinct, untargeted⟩ named h
  have ground : Range.user.reaches (.lower .baseline) := Std.le_refl Version.baseline
  obtain ⟨r, hr, reaches⟩ := Outline.exists_mem_of_mem_scopes h ground
  obtain ⟨entry, found, -⟩ := (iff _).2 ⟨r, hr, reaches⟩
  rw [metrics_analyze]
  refine ⟨entry, found, Requirement.isMaximum_of_reaches (List.ne_nil_of_mem hr) fun l => ?_⟩
  rw [← iff l]
  constructor
  · exact fun reaches => ⟨entry, found, reaches⟩
  · rintro ⟨other, found', reaches⟩
    obtain rfl : other = entry := Option.some.inj (found'.symm.trans found)
    exact reaches

/-- A function around a class with a method, each with a name of its own, and around an object of
another class. -/
def nestedScopes : Tree :=
  let body : List Node :=
    [⟨1, .param { variadic := true }, {}, []⟩,
      ⟨2, .classDecl (Name.ofParts ["C"]) {} none [], {},
        [⟨3, .methodDecl "m" {}, {}, [⟨4, .pow, {}, []⟩]⟩]⟩,
      ⟨5, .new (some (Name.ofParts ["D"])) 0, {}, []⟩]
  { path := "f.php", nodes := [⟨0, .functionDecl (Name.ofParts ["f"]), {}, body⟩] }

/-- The class in the nested scopes is as demanding as the power in its method, and not more. -/
theorem nested_scopes_exact :
    let env : Env := { references := fun _ _ _ => none }
    nestedScopes.ids.Nodup ∧ (outline env.forgetful nestedScopes).keys.Nodup
      ∧ ∃ entry, (analyze env {} nestedScopes).metrics.elements.get? .classes "C" = some entry
        ∧ entry.requirement.IsMaximum [.user, .user, Construct.exponentiation.contribution] := by
  intro env
  have ids : nestedScopes.ids.Nodup := by decide
  have keys : (outline env.forgetful nestedScopes).keys.Nodup := by decide
  refine ⟨ids, keys, ?_⟩
  exact scope_entries_exact env nestedScopes ids keys (by decide) (by decide) (.classes, "C") _
    (by decide)

end Requisite.Analyzer
