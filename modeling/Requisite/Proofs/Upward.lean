import Requisite.Proofs.Flow

/-!
# Requirements flow upwards

What stands in a scope at any depth is required of the scope. Nothing is assumed of names: scopes
may share a name with each other, or with what is referenced.

The argument goes level by level. An action puts what it asks where the innermost scope will find
it, in the entry of the scope or in its own locals (`State.settled`). At the end of a scope all that
has come together there goes into its entry and into the entry of the scope around it, so by
induction over the outline nothing is lost on the way to the file.
-/
namespace Requisite

theorem Construct.reaches_of_insignificant {c : Construct} (h : ¬c.isSignificant) {l : Level} :
    c.contribution.reaches l ↔ Range.user.reaches l := by
  have baseline : c.feature = .baseline := by simpa [Construct.isSignificant] using h
  unfold Construct.contribution
  rw [baseline]
  exact Iff.rfl

namespace Analyzer

open Code (Name Node Tree)

/-- A declaration requires no less than code without any requirements. -/
theorem Declaration.reaches_own {d : Declaration} {l : Level} (h : Range.user.reaches l) :
    d.own.reaches l := by
  cases l with
  | lower v => exact Std.le_trans h d.own_ge
  | upper v =>
    obtain ⟨w, hw, -⟩ := h
    cases hw

namespace State

variable {s : State} {l : Level} {r : Range}

/-- Whether the innermost scope has a level, in its entry or in locals of its own. -/
def settled (s : State) (l : Level) : Prop :=
  s.holds l s.scopes.current ∨ (s.scopes.ownsLocals ∧ s.pending l)

/-- The innermost scope has entry and locals that are no lower than those of code without any
requirements. -/
def Grounded (s : State) (l : Level) : Prop :=
  Range.user.reaches l → s.holds l s.scopes.current ∧ s.pending l

theorem Grounded.follow (h : s.Grounded l) (o : Outline) : (s.follow o).Grounded l := by
  intro user
  rw [current_follow]
  exact ⟨holds_follow_of_holds (h user).1, pending_follow_of_pending (h user).2⟩

theorem Grounded.declare (h : s.Grounded l) (d : Declaration) : (s.declare d).Grounded l := by
  intro user
  have own : ∃ r ∈ d.ranges, r.reaches l :=
    ⟨d.own, List.mem_cons_self, Declaration.reaches_own user⟩
  rw [current_declare]
  refine ⟨holds_declare.2 (Or.inr (Or.inr ⟨rfl, own⟩)), ?_⟩
  rw [pending_declare]
  split
  · exact user
  · exact (h user).2

theorem grounded_begun (m : Metrics) (l : Level) : (begun m).Grounded l := fun user =>
  ⟨holds_begun.2 (Or.inr ⟨Or.inl rfl, user⟩), user⟩

theorem settled_follow_of_settled {o : Outline} (h : s.settled l) : (s.follow o).settled l := by
  unfold settled
  rw [current_follow, ownsLocals_follow]
  exact h.imp holds_follow_of_holds fun ⟨owns, pending⟩ => ⟨owns, pending_follow_of_pending pending⟩

/-- What has come together in a scope by its end is what is settled there. -/
theorem settled_iff_gathered {d : Declaration} {o : Outline} :
    ((s.declare d).follow o).settled l ↔ ((s.declare d).follow o).gathered d l := by
  unfold settled gathered
  rw [current_follow, ownsLocals_follow, current_declare, ownsLocals_declare]

/-! ### Actions -/

theorem settled_perform {action : Action} (ground : s.Grounded l) (h : r ∈ action.asked)
    (reaches : r.reaches l) : (s.perform action).settled l := by
  unfold settled
  rw [current_perform, ownsLocals_perform, holds_perform, pending_perform]
  cases action with
  | construct c =>
    obtain rfl : r = c.contribution := by simpa [Action.asked] using h
    by_cases significant : c.isSignificant
    · exact Or.inl (Or.inr (by simp [Action.writes, significant, reaches]))
    · exact Or.inl (Or.inl (ground ((Construct.reaches_of_insignificant significant).1 reaches)).1)
  | hint className =>
    obtain rfl : r = hintRange := by simpa [Action.asked] using h
    exact Or.inl (Or.inr (by simp [Action.writes, reaches]))
  | reference category name range =>
    obtain rfl : r = range := by simpa [Action.asked] using h
    cases owning : s.scopes.ownsLocals with
    | true => exact Or.inr ⟨rfl, Or.inr (by simp [Action.saves, reaches])⟩
    | false => exact Or.inl (Or.inr (by simp [Action.writes, reaches]))
  | parameter | assign | guard | dynamicGuard | define => simp [Action.asked] at h

theorem pending_perform_of_deferred {action : Action} (ground : s.Grounded l)
    (h : r ∈ action.deferred) (reaches : r.reaches l) : (s.perform action).pending l := by
  rw [pending_perform]
  cases action with
  | parameter variadic =>
    obtain rfl : r = (Construct.parameter variadic).contribution := by
      simpa [Action.deferred] using h
    by_cases significant : (Construct.parameter variadic).isSignificant
    · exact Or.inr (by simp [Action.saves, significant, reaches])
    · exact Or.inl (ground ((Construct.reaches_of_insignificant significant).1 reaches)).2
  | construct | hint | assign | reference | guard | dynamicGuard | define =>
    simp [Action.deferred] at h

/-! ### Outlines -/

theorem pending_of_deferred {o : Outline} (ground : s.Grounded l) (h : r ∈ o.deferred)
    (reaches : r.reaches l) : (s.follow o).pending l := by
  induction o generalizing s with
  | nothing => simp [Outline.deferred] at h
  | act action => exact pending_perform_of_deferred ground h reaches
  | seq first second ihf ihs =>
    rw [follow]
    rcases List.mem_append.1 h with hf | hs
    · exact pending_follow_of_pending (ihf ground hf)
    · exact ihs (ground.follow first) hs
  | scope d body ih =>
    cases keeps : d.keepsLocals with
    | true => simp [Outline.deferred, keeps] at h
    | false =>
      rw [Outline.deferred, keeps] at h
      rw [pending_scope, keeps]
      exact ih (ground.declare d) h

/-- All that is required inside a scope has come together there by its end. -/
theorem gathered_of_mem {d : Declaration} {body : Outline} (ground : s.Grounded l)
    (inside : ∀ {r}, r ∈ body.asked → r.reaches l → ((s.declare d).follow body).settled l)
    (h : r ∈ d.gather body.asked body.deferred) (reaches : r.reaches l) :
    ((s.declare d).follow body).gathered d l := by
  rcases Declaration.mem_gather.1 h with own | asked | ⟨keeps, deferred⟩
  · exact Or.inl (holds_follow_of_holds (holds_declare.2 (Or.inr (Or.inr ⟨rfl, r, own, reaches⟩))))
  · exact settled_iff_gathered.1 (inside asked reaches)
  · exact Or.inr ⟨keeps, pending_of_deferred (ground.declare d) deferred reaches⟩

theorem settled_of_asked {o : Outline} (ground : s.Grounded l) (h : r ∈ o.asked)
    (reaches : r.reaches l) : (s.follow o).settled l := by
  induction o generalizing s r with
  | nothing => simp [Outline.asked] at h
  | act action => exact settled_perform ground h reaches
  | seq first second ihf ihs =>
    rw [follow]
    rcases List.mem_append.1 h with hf | hs
    · exact settled_follow_of_settled (ihf ground hf reaches)
    · exact ihs (ground.follow first) hs reaches
  | scope d body ih =>
    have together := gathered_of_mem ground (fun asked => ih (ground.declare d) asked) h reaches
    refine Or.inl (holds_scope.2 (Or.inr ⟨Or.inr ?_, together⟩))
    exact current_follow s (.scope d body)

theorem holds_of_mem_scopes {o : Outline} {k : Key} {ranges : List Range} (ground : s.Grounded l)
    (h : (k, ranges) ∈ o.scopes) (hr : r ∈ ranges) (reaches : r.reaches l) :
    (s.follow o).holds l k := by
  induction o generalizing s with
  | nothing => simp [Outline.scopes] at h
  | act action => simp [Outline.scopes] at h
  | seq first second ihf ihs =>
    rw [follow]
    rcases List.mem_append.1 h with hf | hs
    · exact holds_follow_of_holds (ihf ground hf)
    · exact ihs (ground.follow first) hs
  | scope d body ih =>
    rcases List.mem_cons.1 h with same | inner
    · obtain ⟨rfl, rfl⟩ := Prod.mk.inj same
      have together := gathered_of_mem ground
        (fun asked => settled_of_asked (ground.declare d) asked) hr reaches
      exact holds_scope.2 (Or.inr ⟨Or.inl rfl, together⟩)
    · exact holds_scope.2 (Or.inl (ih (ground.declare d) inner))

end State

open State

/-! ### Scopes of a file -/

namespace Outline

variable {o : Outline} {k : Key} {ranges : List Range}

theorem isScope_of_mem_fileScopes (h : (k, ranges) ∈ o.fileScopes) : k.1.isScope := by
  rcases List.mem_cons.1 h with file | inner
  · obtain ⟨rfl, -⟩ := Prod.mk.inj file
    rfl
  · exact isScope_of_mem_keys (List.mem_map.2 ⟨(k, ranges), inner, rfl⟩)

/-- Every scope requires at least what its declaration requires. -/
theorem exists_mem_of_mem_scopes {l : Level} (h : (k, ranges) ∈ o.scopes)
    (user : Range.user.reaches l) : ∃ r ∈ ranges, r.reaches l := by
  induction o with
  | nothing => simp [scopes] at h
  | act action => simp [scopes] at h
  | seq first second ihf ihs => exact (List.mem_append.1 h).elim ihf ihs
  | scope d body ih =>
    rcases List.mem_cons.1 h with same | inner
    · obtain ⟨-, rfl⟩ := Prod.mk.inj same
      exact ⟨d.own, Declaration.mem_gather.2 (Or.inl List.mem_cons_self),
        Declaration.reaches_own user⟩
    · exact ih inner

end Outline

theorem ne_extensions_of_isScope {category : Category} (h : category.isScope) :
    category ≠ .extensions := by
  rintro rfl
  cases h

/-- After a file, each of its scopes holds what it requires, and no less than code without any
requirements. -/
theorem holds_afterFile_of_mem {m : Metrics} {o : Outline} {l : Level} {k : Key}
    {ranges : List Range} {r : Range} (h : (k, ranges) ∈ o.fileScopes)
    (hr : r ∈ .user :: ranges) (reaches : r.reaches l) : (afterFile m o).elements.holds l k := by
  have ground := grounded_begun m l
  have current : ((begun m).follow o).scopes.current = globalKey := current_follow (begun m) o
  rw [holds_afterFile (ne_extensions_of_isScope (Outline.isScope_of_mem_fileScopes h))]
  rcases List.mem_cons.1 h with file | inner
  · obtain ⟨rfl, rfl⟩ := Prod.mk.inj file
    rcases List.mem_cons.1 hr with rfl | hr
    · exact Or.inl (current ▸ (ground.follow o reaches).1)
    · rcases List.mem_append.1 hr with asked | deferred
      · rcases settled_of_asked ground asked reaches with holds | ⟨-, pending⟩
        · exact Or.inl (current ▸ holds)
        · exact Or.inr ⟨rfl, pending⟩
      · exact Or.inr ⟨rfl, pending_of_deferred ground deferred reaches⟩
  · rcases List.mem_cons.1 hr with rfl | hr
    · obtain ⟨r, hr, reaches⟩ := Outline.exists_mem_of_mem_scopes inner reaches
      exact Or.inl (holds_of_mem_scopes ground inner hr reaches)
    · exact Or.inl (holds_of_mem_scopes ground inner hr reaches)

/-! ### Runs -/

/-- What an entry holds is kept by all files that follow. -/
theorem holds_foldl_afterFile {m : Metrics} {outlines : List Outline} {l : Level} {k : Key}
    (hk : k.1 ≠ .extensions) (h : m.elements.holds l k) :
    (outlines.foldl afterFile m).elements.holds l k := by
  induction outlines generalizing m with
  | nil => exact h
  | cons o rest ih =>
    have kept : (afterFile m o).elements.holds l k :=
      (holds_afterFile hk).2 (Or.inl (holds_follow_of_holds (holds_begun.2 (Or.inl h))))
    exact ih kept

theorem holds_foldl_afterFile_of_mem {m : Metrics} {outlines : List Outline} {o : Outline}
    {l : Level} {k : Key} {ranges : List Range} {r : Range} (ho : o ∈ outlines)
    (h : (k, ranges) ∈ o.fileScopes) (hr : r ∈ .user :: ranges) (reaches : r.reaches l) :
    (outlines.foldl afterFile m).elements.holds l k := by
  induction outlines generalizing m with
  | nil => simp at ho
  | cons first rest ih =>
    rw [List.foldl_cons]
    rcases List.mem_cons.1 ho with rfl | later
    · have hk := ne_extensions_of_isScope (Outline.isScope_of_mem_fileScopes h)
      exact holds_foldl_afterFile hk (holds_afterFile_of_mem h hr reaches)
    · exact ih later

/-- An element that holds all levels of some ranges has an entry that covers them. -/
theorem exists_entry_of_holds {t : Elements} {k : Key} {ranges : List Range} {r : Range}
    (hr : r ∈ ranges) (h : ∀ r ∈ ranges, ∀ l, r.reaches l → t.holds l k) :
    ∃ entry, t.get? k.1 k.2 = some entry ∧ ∀ r ∈ ranges, r.requirement ≤ entry.requirement := by
  obtain ⟨entry, found, -⟩ := h r hr (.lower r.min) (Std.le_refl r.min)
  refine ⟨entry, found, fun r hr => Requirement.le_iff_reaches.2 fun l reaches => ?_⟩
  obtain ⟨other, found', reaches'⟩ := h r hr l reaches
  obtain rfl : other = entry := Option.some.inj (found'.symm.trans found)
  exact reaches'

/-- After a run, every scope of its files has an entry that covers what the scope requires. -/
theorem exists_entry_foldl_afterFile {outlines : List Outline} {o : Outline} {k : Key}
    {ranges : List Range} (m : Metrics) (ho : o ∈ outlines) (h : (k, ranges) ∈ o.fileScopes) :
    ∃ entry, (outlines.foldl afterFile m).elements.get? k.1 k.2 = some entry
      ∧ ∀ r ∈ ranges, r.requirement ≤ entry.requirement := by
  have holds : ∀ r ∈ .user :: ranges, ∀ l, r.reaches l →
      (outlines.foldl afterFile m).elements.holds l k :=
    fun r hr l reaches => holds_foldl_afterFile_of_mem ho h hr reaches
  obtain ⟨entry, found, covers⟩ := exists_entry_of_holds List.mem_cons_self holds
  exact ⟨entry, found, fun r hr => covers r (List.mem_cons_of_mem _ hr)⟩

/-- Requirements flow upwards without loss: at the end of a run, the entry of every scope of every
tree, the file itself among them, covers all that is required in the scope at any depth. -/
theorem requirements_flow_upwards (env : Env) (s : State) (trees : List Tree) (tree : Tree)
    (ht : tree ∈ trees) (k : Key) (ranges : List Range)
    (h : (k, ranges) ∈ (outline env tree).fileScopes) :
    ∃ entry, (analyzeAll env s trees).metrics.elements.get? k.1 k.2 = some entry
      ∧ ∀ r ∈ ranges, r.requirement ≤ entry.requirement := by
  have ho : outline env tree ∈ trees.map (outline env) := List.mem_map_of_mem ht
  rw [metrics_analyzeAll]
  exact exists_entry_foldl_afterFile s.metrics ho h

/-- A function, a class in it and a method in that, all called `f`, around a power. -/
def nestedPower : Tree :=
  let f := Name.ofParts ["f"]
  let body : List Node :=
    [⟨1, .param { variadic := true }, {}, []⟩,
      ⟨2, .classDecl f {} none [], {}, [⟨3, .methodDecl "f" {}, {}, [⟨4, .pow, {}, []⟩]⟩]⟩,
      ⟨5, .new (some f) 0, {}, []⟩]
  { path := "f.php", nodes := [⟨0, .functionDecl f, {}, body⟩] }

/-- The power is required of the outermost of three scopes that share their names. -/
theorem nested_power_flows_upwards :
    let env : Env := { references := fun _ _ _ => none }
    ∃ ranges entry, ((.functions, "f"), ranges) ∈ (outline env nestedPower).fileScopes
      ∧ Construct.exponentiation.contribution ∈ ranges
      ∧ (analyzeAll env {} [nestedPower]).metrics.elements.get? .functions "f" = some entry
      ∧ Construct.exponentiation.contribution.requirement ≤ entry.requirement := by
  intro env
  obtain ⟨ranges, scope, power⟩ : ∃ ranges,
      ((.functions, "f"), ranges) ∈ (outline env nestedPower).fileScopes
        ∧ Construct.exponentiation.contribution ∈ ranges :=
    ⟨_, List.mem_cons_of_mem _ List.mem_cons_self, by decide⟩
  obtain ⟨entry, found, covers⟩ := requirements_flow_upwards env {} [nestedPower] nestedPower
    List.mem_cons_self (.functions, "f") ranges scope
  exact ⟨ranges, entry, scope, power, found, covers _ power⟩

end Analyzer

end Requisite
