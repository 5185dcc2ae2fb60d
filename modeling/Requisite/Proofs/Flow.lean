import Requisite.Proofs.Walk

/-!
# How levels flow

A level stands at three kinds of places in the state of an analysis: the entries of the table, the
accumulator of the innermost locals, and the overall requirement. The lemmas of this module say for
each step of an outline where a level stands afterwards, as an equivalence. An action puts its
ranges into entries (`Action.writes`) or into the accumulator (`Action.saves`), and leaving a scope
passes on what has come together in its entry.
-/
namespace Requisite

namespace Elements

/-- Whether the entry of an element reaches a level. -/
def holds (t : Elements) (l : Level) (k : Category × String) : Prop :=
  ∃ r, t.get? k.1 k.2 = some r ∧ r.reaches l

theorem reaches_widened {range : Range} {entry : Option Range} {l : Level} :
    (widened range entry).reaches l ↔ (∃ r, entry = some r ∧ r.reaches l) ∨ range.reaches l := by
  unfold widened
  rw [Range.reaches_merge]
  cases entry with
  | none =>
    have copy : ({ range with usageCount := 0, optional := false } : Range).reaches l
      ↔ range.reaches l := Iff.rfl
    simp [copy]
  | some r => simp

theorem holds_updateWith {t : Elements} {category : Category} {name : String} {range : Range}
    {change : Range → Range} {l : Level} {k : Category × String}
    (keeps : ∀ r : Range, (change r).reaches l ↔ r.reaches l) :
    (t.updateWith category name range change).holds l k
      ↔ t.holds l k ∨ (k = (category, name) ∧ range.reaches l) := by
  unfold holds updateWith
  by_cases h : k = (category, name)
  · subst h
    simp [Grouped.get?_alter_self, keeps, reaches_widened]
  · have ne : ¬(k.1 = category ∧ k.2 = name) := fun both => h (Prod.ext both.1 both.2)
    rw [Grouped.get?_alter_of_ne t _ ne]
    simp [h]

variable {t : Elements} {category : Category} {name : String} {range : Range} {l : Level}
  {k : Category × String}

@[simp] theorem holds_update :
    (t.update category name range).holds l k
      ↔ t.holds l k ∨ (k = (category, name) ∧ range.reaches l) :=
  holds_updateWith fun _ => Iff.rfl

@[simp] theorem holds_use :
    (t.use category name range).holds l k
      ↔ t.holds l k ∨ (k = (category, name) ∧ range.reaches l) :=
  holds_updateWith fun _ => Iff.rfl

@[simp] theorem holds_makeOptional :
    (t.makeOptional category name range).holds l k
      ↔ t.holds l k ∨ (k = (category, name) ∧ range.reaches l) :=
  holds_updateWith fun _ => Iff.rfl

end Elements

namespace Analyzer

/-- Whether one of several ranges, each with the element it is written to, reaches a level for an
element. -/
def marked (l : Level) (k : Key) (writes : List (Key × Range)) : Prop :=
  ∃ r, (k, r) ∈ writes ∧ r.reaches l

section Marked

variable {l : Level} {k : Key}

@[simp] theorem marked_nil : ¬marked l k [] := by
  simp [marked]

@[simp] theorem marked_cons {k' : Key} {r : Range} {rest : List (Key × Range)} :
    marked l k ((k', r) :: rest) ↔ (k = k' ∧ r.reaches l) ∨ marked l k rest := by
  simp [marked, or_and_right, exists_or, and_assoc]

@[simp] theorem marked_append {first second : List (Key × Range)} :
    marked l k (first ++ second) ↔ marked l k first ∨ marked l k second := by
  simp [marked, or_and_right, exists_or]

end Marked

/-! ### What an action writes -/

namespace Action

/-- The entries that an action widens, and by what, inside the scope `around`, which may own locals
or not. -/
def writes (around : Key) (owns : Bool) : Action → List (Key × Range)
  | .construct c => if c.isSignificant then [(around, c.contribution)] else []
  | .parameter _ | .assign _ _ | .dynamicGuard => []
  | .hint className => [(around, hintRange), ((.classes, className), hintRange)]
  | .reference category name range =>
    ((category, name), range)
      :: (if range.isUser then [] else [((.extensions, range.extension), range)])
      ++ if owns then [] else [(around, range)]
  | .guard g element range =>
    [((g.category, element), range), ((.conditions, g.condition element), range)]
  | .define constant => [((.constants, constant), .user)]

/-- What an action puts into the accumulator of the innermost locals. -/
def saves (owns : Bool) : Action → List Range
  | .parameter variadic =>
    let c := Construct.parameter variadic
    if c.isSignificant then [c.contribution] else []
  | .reference _ _ range => if owns then [range] else []
  | _ => []

/-- An action saves nothing but what it requires. -/
theorem mem_required_of_saves {action : Action} {owns : Bool} {r : Range}
    (h : r ∈ action.saves owns) : r ∈ (Outline.act action).required := by
  refine List.mem_append.2 ?_
  cases action with
  | parameter variadic =>
    obtain ⟨-, rfl⟩ : _ ∧ r = (Construct.parameter variadic).contribution := by
      simpa [saves] using h
    exact Or.inr (List.mem_singleton_self _)
  | reference category name range =>
    obtain ⟨-, rfl⟩ : owns = true ∧ r = range := by simpa [saves] using h
    exact Or.inl (List.mem_singleton_self _)
  | construct | hint | assign | guard | dynamicGuard | define => simp [saves] at h

end Action

theorem Declaration.reaches_range {d : Declaration} {l : Level} :
    d.range.reaches l ↔ ∃ r ∈ d.ranges, r.reaches l := by
  have merged (heads : List (Key × Range)) (range : Range) :
      (heads.foldl (fun range head => range.merge head.2.runtimeBounds) range).reaches l
        ↔ range.reaches l ∨ ∃ r ∈ heads.map (·.2), r.reaches l := by
    induction heads generalizing range with
    | nil => simp
    | cons head rest ih =>
      rw [List.foldl_cons, ih, Range.reaches_merge, Range.reaches_runtimeBounds]
      simp [or_assoc]
  rw [range, merged]
  simp [ranges]

namespace State

/-- Whether the entry of an element reaches a level. -/
def holds (s : State) (l : Level) (k : Key) : Prop :=
  s.metrics.elements.holds l k

/-- Whether the accumulator of the innermost locals reaches a level. -/
def pending (s : State) (l : Level) : Prop :=
  s.scopes.locals.accumulator.reaches l

/-- Whether the overall requirement reaches a level. -/
def requires (s : State) (l : Level) : Prop :=
  s.metrics.versions.reaches l

variable {s : State} {l : Level} {k : Key}

theorem holds_update {category : Category} {name : String} {range : Range} :
    (s.update category name range).holds l k
      ↔ s.holds l k ∨ (k = (category, name) ∧ range.reaches l) :=
  Elements.holds_update

theorem holds_use {category : Category} {name : String} {range : Range} :
    (s.use category name range).holds l k
      ↔ s.holds l k ∨ (k = (category, name) ∧ range.reaches l) :=
  Elements.holds_use

theorem holds_mergeIntoCurrent {range : Range} :
    (s.mergeIntoCurrent range).holds l k
      ↔ s.holds l k ∨ (k = s.scopes.current ∧ range.reaches l) :=
  Elements.holds_update

theorem reaches_accumulate {scopes : Scopes} {range : Range} :
    (scopes.accumulate range).locals.accumulator.reaches l
      ↔ scopes.locals.accumulator.reaches l ∨ range.reaches l := by
  unfold Scopes.accumulate
  rw [Scopes.locals_modifyLocals]
  exact Range.reaches_merge

/-! ### Actions -/

theorem holds_recordReference {category : Category} {name : String} {range : Range} :
    (s.recordReference category name range).holds l k ↔ s.holds l k
      ∨ marked l k ((Action.reference category name range).writes s.scopes.current
        s.scopes.ownsLocals) := by
  -- the extension is credited without the excluded releases, which are no part of a level
  have credited : ({ range with excluded := ∅ } : Range).reaches l ↔ range.reaches l := Iff.rfl
  unfold recordReference Action.writes
  cases user : range.isUser <;> cases owns : s.scopes.ownsLocals <;>
    simp [holds, user, owns, count, use, update, modifyElements, mergeIntoCurrent, credited,
      Range.reaches_runtimeBounds, or_assoc]

theorem holds_perform {action : Action} :
    (s.perform action).holds l k ↔ s.holds l k
      ∨ marked l k (action.writes s.scopes.current s.scopes.ownsLocals) := by
  cases action with
  | construct c =>
    change (s.apply c).holds l k ↔ _
    unfold apply
    by_cases significant : c.isSignificant
    · rw [if_pos significant, holds_mergeIntoCurrent]
      simp [Action.writes, significant]
    · rw [if_neg significant]
      simp [Action.writes, significant]
  | parameter variadic =>
    have same : (s.perform (.parameter variadic)).holds l k ↔ s.holds l k := by
      cases variadic <;> exact Iff.rfl
    simp [same, Action.writes]
  | hint className =>
    rw [perform, holds_use, holds_mergeIntoCurrent]
    simp [Action.writes, or_assoc]
  | assign target value =>
    have same : (s.perform (.assign target value)).holds l k ↔ s.holds l k := Iff.rfl
    simp [same, Action.writes]
  | reference category name range => exact holds_recordReference
  | guard g element range =>
    rw [perform, holds_use]
    simp [Action.writes, holds, modifyElements, or_assoc]
  | dynamicGuard => simp [perform, Action.writes]
  | define constant =>
    rw [perform, holds_update]
    simp [Action.writes]

theorem pending_perform {action : Action} :
    (s.perform action).pending l
      ↔ s.pending l ∨ ∃ r ∈ action.saves s.scopes.ownsLocals, r.reaches l := by
  cases action with
  | construct c =>
    rw [pending, perform, scopes_apply]
    simp [Action.saves, pending]
  | parameter variadic =>
    cases variadic with
    | false => simp [perform, Action.saves, pending, Construct.isSignificant, Construct.feature]
    | true =>
      have significant : (Construct.parameter true).isSignificant = true := rfl
      have accumulated : (s.perform (.parameter true)).pending l
          ↔ s.pending l ∨ (Construct.parameter true).contribution.reaches l := reaches_accumulate
      simp [accumulated, Action.saves, significant]
  | assign target value =>
    have same : (s.perform (.assign target value)).pending l ↔ s.pending l := by
      unfold pending perform Scopes.recordAssignment
      rw [Scopes.locals_modifyLocals]
    simp [same, Action.saves]
  | reference category name range =>
    rw [pending, perform, scopes_recordReference]
    cases owns : s.scopes.ownsLocals with
    | true =>
      rw [if_pos rfl, reaches_accumulate, Range.reaches_runtimeBounds]
      simp [Action.saves, pending]
    | false => simp [Action.saves, pending]
  | hint className =>
    have same : (s.perform (.hint className)).pending l ↔ s.pending l := Iff.rfl
    simp [same, Action.saves]
  | guard g element range =>
    have same : (s.perform (.guard g element range)).pending l ↔ s.pending l := Iff.rfl
    simp [same, Action.saves]
  | dynamicGuard => simp [perform, Action.saves]
  | define constant =>
    have same : (s.perform (.define constant)).pending l ↔ s.pending l := Iff.rfl
    simp [same, Action.saves]

theorem versions_perform (s : State) (action : Action) :
    (s.perform action).metrics.versions = s.metrics.versions := by
  cases action with
  | construct c =>
    change (s.apply c).metrics.versions = _
    unfold apply
    split <;> rfl
  | parameter variadic => cases variadic <;> rfl
  | reference category name range =>
    change (s.recordReference category name range).metrics.versions = _
    unfold recordReference
    cases range.isUser <;> cases owns : s.scopes.ownsLocals <;>
      simp [owns, count, use, update, modifyElements, mergeIntoCurrent]
  | hint | assign | guard | dynamicGuard | define => rfl

/-! ### Opening a scope -/

theorem holds_foldl_use {heads : List (Key × Range)} :
    (heads.foldl (fun s head => s.use head.1.1 head.1.2 head.2) s).holds l k
      ↔ s.holds l k ∨ marked l k heads := by
  induction heads generalizing s with
  | nil => simp
  | cons head rest ih =>
    rw [List.foldl_cons, ih, holds_use, or_assoc]
    exact or_congr_right marked_cons.symm

theorem holds_declare {d : Declaration} :
    (s.declare d).holds l k ↔ s.holds l k ∨ marked l k d.heads
      ∨ (k = d.key ∧ ∃ r ∈ d.ranges, r.reaches l) := by
  have entered {t : State} : (t.enterScope d.category d.name d.range).holds l k
      ↔ t.holds l k ∨ (k = d.key ∧ d.range.reaches l) := holds_update
  rw [declare, entered, holds_foldl_use, Declaration.reaches_range, or_assoc]

theorem pending_declare {d : Declaration} :
    (s.declare d).pending l ↔ if d.keepsLocals then Range.user.reaches l else s.pending l := by
  unfold pending Declaration.keepsLocals
  rw [scopes_declare, Scopes.locals_push]
  split <;> rfl

theorem versions_declare (s : State) (d : Declaration) :
    (s.declare d).metrics.versions = s.metrics.versions := by
  have used (heads : List (Key × Range)) :
      (heads.foldl (fun s head => s.use head.1.1 head.1.2 head.2) s).metrics.versions
        = s.metrics.versions := by
    induction heads generalizing s with
    | nil => rfl
    | cons head rest ih => exact ih (s.use head.1.1 head.1.2 head.2)
  exact used d.heads

/-! ### Leaving a scope -/

/-- Whether what has come together in a scope, in its entry or in its own locals, reaches a
level. -/
def gathered (s : State) (d : Declaration) (l : Level) : Prop :=
  s.holds l d.key ∨ (d.keepsLocals ∧ s.pending l)

theorem holds_passOn {category : Category} {name : String} :
    (s.passOn category name).holds l k
      ↔ s.holds l k ∨ (k = s.scopes.current ∧ s.holds l (category, name)) := by
  have entry : s.holds l (category, name)
      ↔ ∃ r, s.metrics.elements.get? category name = some r ∧ r.reaches l := Iff.rfl
  have widened {t : State} {r : Range} : (t.widen r).holds l k ↔ t.holds l k := Iff.rfl
  unfold passOn
  split
  · rename_i missing
    simp [entry, missing]
  · rename_i range found
    rw [entry, found]
    split
    · rw [widened, holds_mergeIntoCurrent]
      simp
    · rw [holds_mergeIntoCurrent]
      simp

theorem requires_passOn {category : Category} {name : String} :
    (s.passOn category name).requires l
      ↔ s.requires l ∨ (category = .namespaces ∧ s.holds l (category, name)) := by
  have entry : s.holds l (category, name)
      ↔ ∃ r, s.metrics.elements.get? category name = some r ∧ r.reaches l := Iff.rfl
  have merged {r : Range} : (s.mergeIntoCurrent r).requires l ↔ s.requires l := Iff.rfl
  have widened {t : State} {r : Range} :
      (t.widen r).requires l ↔ t.requires l ∨ r.reaches l := Requirement.reaches_widen
  unfold passOn
  split
  · rename_i missing
    simp [entry, missing]
  · rename_i range found
    rw [entry, found]
    split
    · rename_i isNamespace
      rw [widened, merged]
      simp [isNamespace]
    · rename_i isOther
      rw [merged]
      simp [isOther]

theorem holds_flush {frame : Frame} {scopes : Scopes} :
    (s.flush frame scopes).holds l k ↔ s.holds l k
      ∨ (k = (frame.category, frame.name)
        ∧ ∃ locals, frame.locals = some locals ∧ locals.accumulator.reaches l) := by
  have popped : holds { s with scopes } l k ↔ s.holds l k := Iff.rfl
  unfold flush
  cases frame.locals with
  | none => simp [popped]
  | some locals =>
    rw [holds_update, popped]
    simp

theorem requires_flush {frame : Frame} {scopes : Scopes} :
    (s.flush frame scopes).requires l ↔ s.requires l := by
  unfold flush
  cases frame.locals <;> exact Iff.rfl

section LeaveScope

variable {t : State} {d : Declaration} {f : Locals → Locals}

/-- The frame that is left, when the scope of a declaration is left. -/
theorem pop?_declare (h : t.scopes = (s.declare d).scopes.modifyLocals f) :
    ∃ frame scopes, t.scopes.pop? = some (frame, scopes)
      ∧ (frame.category, frame.name) = d.key ∧ scopes.current = s.scopes.current
      ∧ ((∃ locals, frame.locals = some locals ∧ locals.accumulator.reaches l)
        ↔ d.keepsLocals ∧ t.pending l) := by
  rw [pending]
  rw [h, scopes_declare, Scopes.pop?_modifyLocals_push, Scopes.locals_modifyLocals,
    Scopes.locals_push]
  unfold Declaration.keepsLocals
  split
  · rename_i keeps
    exact ⟨_, _, rfl, rfl, rfl, by simp [keeps]⟩
  · rename_i shares
    exact ⟨_, _, rfl, rfl, s.scopes.current_modifyLocals f, by simp [shares]⟩

theorem holds_leaveScope (h : t.scopes = (s.declare d).scopes.modifyLocals f) :
    t.leaveScope.holds l k ↔ t.holds l k
      ∨ ((k = d.key ∨ k = s.scopes.current) ∧ t.gathered d l) := by
  obtain ⟨frame, scopes, pop, key, current, locals⟩ := pop?_declare h
  rw [leaveScope_of_pop? pop, holds_passOn, holds_flush, holds_flush, scopes_flush, key, current,
    locals]
  unfold gathered
  by_cases hk : k = d.key
  · subst hk
    grind
  · grind

theorem requires_leaveScope (h : t.scopes = (s.declare d).scopes.modifyLocals f) :
    t.leaveScope.requires l ↔ t.requires l ∨ (d.category = .namespaces ∧ t.gathered d l) := by
  obtain ⟨frame, scopes, pop, key, current, locals⟩ := pop?_declare h
  have category : frame.category = d.category := congrArg Prod.fst key
  rw [leaveScope_of_pop? pop, requires_passOn, holds_flush, requires_flush, locals, key, category]
  simp [gathered]

end LeaveScope

/-! ### Whole scopes -/

section Scope

variable {d : Declaration} {body : Outline}

theorem holds_scope :
    (s.follow (.scope d body)).holds l k ↔ ((s.declare d).follow body).holds l k
      ∨ ((k = d.key ∨ k = s.scopes.current) ∧ ((s.declare d).follow body).gathered d l) := by
  obtain ⟨f, hf⟩ := scopes_follow (s.declare d) body
  exact holds_leaveScope hf

theorem requires_scope :
    (s.follow (.scope d body)).requires l ↔ ((s.declare d).follow body).requires l
      ∨ (d.category = .namespaces ∧ ((s.declare d).follow body).gathered d l) := by
  obtain ⟨f, hf⟩ := scopes_follow (s.declare d) body
  exact requires_leaveScope hf

theorem pending_scope :
    (s.follow (.scope d body)).pending l
      ↔ if d.keepsLocals then s.pending l else ((s.declare d).follow body).pending l := by
  obtain ⟨f, hf⟩ := scopes_follow (s.declare d) body
  have declared := Scopes.locals_push s.scopes d.category d.name
  rw [← scopes_declare] at declared
  unfold pending
  rw [follow, scopes_leave_declare hf, hf]
  split
  · rfl
  · rename_i shares
    rw [Scopes.locals_modifyLocals, Scopes.locals_modifyLocals, declared]
    exact iff_of_eq (congrArg (fun locals => (f locals).accumulator.reaches l)
      (if_neg shares).symm)

end Scope

theorem current_declare (s : State) (d : Declaration) : (s.declare d).scopes.current = d.key := by
  rw [scopes_declare]
  rfl

theorem ownsLocals_declare (s : State) (d : Declaration) :
    (s.declare d).scopes.ownsLocals = d.keepsLocals := by
  rw [scopes_declare, Scopes.ownsLocals_push]
  rfl

/-! ### Nothing is taken away -/

theorem holds_follow_of_holds {o : Outline} (h : s.holds l k) : (s.follow o).holds l k := by
  induction o generalizing s with
  | nothing => exact h
  | act action => exact holds_perform.2 (Or.inl h)
  | seq first second ihf ihs => exact ihs (ihf h)
  | scope d body ih => exact holds_scope.2 (Or.inl (ih (holds_declare.2 (Or.inl h))))

theorem pending_follow_of_pending {o : Outline} (h : s.pending l) : (s.follow o).pending l := by
  induction o generalizing s with
  | nothing => exact h
  | act action => exact pending_perform.2 (Or.inl h)
  | seq first second ihf ihs => exact ihs (ihf h)
  | scope d body ih =>
    rw [pending_scope]
    split
    · exact h
    · rename_i shares
      exact ih (pending_declare.2 ((if_neg shares).symm ▸ h))

theorem requires_follow_of_requires {o : Outline} (h : s.requires l) :
    (s.follow o).requires l := by
  induction o generalizing s with
  | nothing => exact h
  | act action => rwa [requires, follow, versions_perform]
  | seq first second ihf ihs => exact ihs (ihf h)
  | scope d body ih =>
    refine requires_scope.2 (Or.inl (ih ?_))
    rwa [requires, versions_declare]

/-! ### Files -/

/-- The state at the beginning of a file. -/
def begun (m : Metrics) : State :=
  beginFile { metrics := m } { path := "" }

theorem holds_begun {m : Metrics} :
    (begun m).holds l k ↔ m.elements.holds l k
      ∨ ((k = globalKey ∨ k = (.extensions, coreExtension)) ∧ Range.user.reaches l) := by
  have core : coreRange.reaches l ↔ Range.user.reaches l := Iff.rfl
  change Elements.holds (Elements.update (Elements.update m.elements _ _ _) _ _ _) l k ↔ _
  rw [Elements.holds_update, Elements.holds_update, core, or_assoc, ← or_and_right]
  rfl

theorem requires_begun {m : Metrics} : (begun m).requires l ↔ m.versions.reaches l := Iff.rfl

theorem current_begun (m : Metrics) : (begun m).scopes.current = globalKey := rfl

/-- Puts what the locals of the file have gathered into the entry of the global namespace. -/
def flushFile (s : State) : State :=
  { s with scopes := s.scopes.takeGlobal.2 }.modifyElements fun t =>
    t.updateWith .namespaces globalNamespace s.scopes.takeGlobal.1.accumulator fun r =>
      { r with extensionMin := some .baseline }

/-- The entry of the global namespace. -/
def fileRange (s : State) : Range :=
  (s.metrics.elements.get? .namespaces globalNamespace).getD .user

theorem foldFile_eq (s : State) :
    s.foldFile = (s.flushFile.update .extensions s.flushFile.fileRange.extension
      s.flushFile.fileRange).widen s.flushFile.fileRange := rfl

theorem holds_flushFile (closed : s.scopes.frames = []) :
    s.flushFile.holds l k ↔ s.holds l k ∨ (k = globalKey ∧ s.pending l) := by
  have file : s.pending l ↔ s.scopes.global.accumulator.reaches l := by
    rw [pending, Scopes.locals, closed]
    rfl
  rw [file]
  exact Elements.holds_updateWith fun _ => Iff.rfl

theorem reaches_fileRange (s : State) :
    s.flushFile.fileRange.reaches l ↔ s.flushFile.holds l globalKey := by
  have entry : ∃ r, s.flushFile.metrics.elements.get? .namespaces globalNamespace = some r :=
    ⟨_, Grouped.get?_alter_self s.metrics.elements .namespaces globalNamespace _⟩
  obtain ⟨r, hr⟩ := entry
  unfold fileRange holds Elements.holds globalKey
  rw [hr]
  simp

theorem holds_foldFile (closed : s.scopes.frames = []) (h : k.1 ≠ .extensions) :
    s.foldFile.holds l k ↔ s.holds l k ∨ (k = globalKey ∧ s.pending l) := by
  have other (name : String) : k ≠ (.extensions, name) := fun eq => h (congrArg Prod.fst eq)
  have widened {t : State} {r : Range} : (t.widen r).holds l k ↔ t.holds l k := Iff.rfl
  rw [foldFile_eq, widened, holds_update, holds_flushFile closed]
  simp [other]

theorem requires_foldFile (closed : s.scopes.frames = []) :
    s.foldFile.requires l ↔ s.requires l ∨ s.holds l globalKey ∨ s.pending l := by
  have widened {t : State} {r : Range} :
      (t.widen r).requires l ↔ t.requires l ∨ r.reaches l := Requirement.reaches_widen
  have flushed {name : String} {r : Range} :
      (s.flushFile.update .extensions name r).requires l ↔ s.requires l := Iff.rfl
  rw [foldFile_eq, widened, flushed, reaches_fileRange, holds_flushFile closed]
  simp

end State

open State

variable {l : Level} {k : Key}

/-- All scopes are closed when the outline of a file has been followed. -/
theorem frames_follow_begun (m : Metrics) (o : Outline) :
    ((begun m).follow o).scopes.frames = [] := by
  obtain ⟨f, hf⟩ := scopes_follow (begun m) o
  rw [hf]
  rfl

theorem afterFile_eq (m : Metrics) (o : Outline) :
    afterFile m o = ((begun m).follow o).foldFile.metrics := by
  have closed : ((begun m).follow o).closeScopes = (begun m).follow o := by
    unfold closeScopes
    rw [frames_follow_begun]
    rfl
  change ((begun m).follow o).endFile.metrics = _
  rw [metrics_endFile_eq, closed]

theorem holds_afterFile {m : Metrics} {o : Outline} (h : k.1 ≠ .extensions) :
    (afterFile m o).elements.holds l k ↔ ((begun m).follow o).holds l k
      ∨ (k = globalKey ∧ ((begun m).follow o).pending l) := by
  rw [afterFile_eq]
  exact holds_foldFile (frames_follow_begun m o) h

theorem reaches_versions_afterFile {m : Metrics} {o : Outline} :
    (afterFile m o).versions.reaches l ↔ ((begun m).follow o).requires l
      ∨ ((begun m).follow o).holds l globalKey ∨ ((begun m).follow o).pending l := by
  rw [afterFile_eq]
  exact requires_foldFile (frames_follow_begun m o)

end Analyzer

end Requisite
