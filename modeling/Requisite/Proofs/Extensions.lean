import Requisite.Proofs.Guarded
import Requisite.Proofs.Native

/-!
# Bounds on extensions

What is referenced in a scope is required of the scope with its bounds on the runtime only. So an
element that the code declares by itself belongs to no extension, and should have no bounds on one.
The first is always so. The second is not: a scope that is left passes its whole entry on, and where
an element of an extension is declared inside another scope, as a substitute for it, the bounds on
the extension go along.

How far they go is computed by `State.handed`. An entry that belongs to no extension passes no such
bounds on, so they get no further than into the scope right around the substitute.
-/
namespace Requisite

/-! ### Accumulators -/

namespace Scopes

/-- No accumulator has anything to do with extensions. -/
structure Plain (s : Scopes) : Prop where
  global : s.global.accumulator.Plain
  frames : ∀ frame ∈ s.frames, ∀ locals, frame.locals = some locals → locals.accumulator.Plain

theorem plain_fresh : ({} : Scopes).Plain :=
  ⟨Range.plain_since _, fun _ mem => absurd mem List.not_mem_nil⟩

theorem Plain.push {s : Scopes} (h : s.Plain) (category : Category) (name : String) :
    (s.push category name).Plain := by
  refine ⟨h.global, fun frame mem locals found => ?_⟩
  rcases List.mem_cons.1 mem with rfl | outer
  · obtain ⟨-, rfl⟩ : Frame.keepsLocals category = true ∧ {} = locals := by
      simpa [Frame.enter] using found
    exact Range.plain_since _
  · exact h.frames frame outer locals found

theorem Plain.pop {s rest : Scopes} {frame : Frame} (h : s.Plain)
    (pop : s.pop? = some (frame, rest)) :
    rest.Plain ∧ ∀ locals, frame.locals = some locals → locals.accumulator.Plain := by
  obtain ⟨global, _ | ⟨first, others⟩⟩ := s
  · cases pop
  · obtain ⟨rfl, rfl⟩ := Prod.mk.inj (Option.some.inj pop)
    exact ⟨⟨h.global, fun frame mem => h.frames frame (List.mem_cons_of_mem _ mem)⟩,
      h.frames first List.mem_cons_self⟩

theorem Plain.modifyLocals {s : Scopes} (h : s.Plain) {f : Locals → Locals}
    (keeps : ∀ l : Locals, l.accumulator.Plain → (f l).accumulator.Plain) :
    (s.modifyLocals f).Plain := by
  obtain ⟨global, frames⟩ := s
  induction frames with
  | nil => exact ⟨keeps _ h.global, h.frames⟩
  | cons frame rest ih =>
    have pop : pop? ⟨global, frame :: rest⟩ = some (frame, ⟨global, rest⟩) := rfl
    obtain ⟨inner, own⟩ := h.pop pop
    obtain ⟨category, name, _ | locals⟩ := frame
    · rw [modifyLocals_sharing]
      refine ⟨(ih inner).global, fun frame mem => ?_⟩
      rcases List.mem_cons.1 mem with rfl | outer
      · exact fun _ found => by cases found
      · exact (ih inner).frames frame outer
    · refine ⟨h.global, fun frame mem => ?_⟩
      rcases List.mem_cons.1 mem with rfl | outer
      · rintro _ ⟨⟩
        exact keeps locals (own locals rfl)
      · exact inner.frames frame outer

theorem Plain.accumulate {s : Scopes} (h : s.Plain) {range : Range} (user : range.isUser) :
    (s.accumulate range).Plain :=
  h.modifyLocals fun _ plain => plain.merge user

end Scopes

/-! ### Writes that leave bounds on extensions alone -/

namespace Elements

variable {env : Analyzer.Env} {t t' : Elements}

/-- Elements of the code itself belong to no extension. -/
def Users (env : Analyzer.Env) (t : Elements) : Prop :=
  ∀ k r, env.Native k → t.get? k.1 k.2 = some r → r.isUser

/-- The entry of an element, if there is one, has no bounds on an extension. -/
def Unbound (t : Elements) (k : Analyzer.Key) : Prop :=
  ∀ r, t.get? k.1 k.2 = some r → r.Unbound

/-- From one table to another nothing is done to elements of the code itself that has to do with
extensions. -/
structure Quiet (env : Analyzer.Env) (t t' : Elements) : Prop where
  users : t.Users env → t'.Users env
  unbound : ∀ k, env.Native k → (t'.Unbound k ↔ t.Unbound k)

namespace Quiet

theorem refl (env : Analyzer.Env) (t : Elements) : Quiet env t t := ⟨id, fun _ _ => Iff.rfl⟩

theorem trans {t'' : Elements} (h : Quiet env t t') (h' : Quiet env t' t'') : Quiet env t t'' :=
  ⟨h'.users ∘ h.users, fun k native => (h'.unbound k native).trans (h.unbound k native)⟩

/-- A write is quiet if it is so for the one entry that it changes. -/
theorem alter {category : Category} {name : String} {f : Option Range → Range} (t : Elements)
    (user : env.Native (category, name) → ∀ entry : Option Range,
      (∀ r, entry = some r → r.isUser) → (f entry).isUser)
    (unbound : env.Native (category, name) → ∀ entry : Option Range,
      (f entry).Unbound ↔ ∀ r, entry = some r → r.Unbound) :
    Quiet env t (t.alter category name f) := by
  have other {k : Analyzer.Key} (h : k ≠ (category, name)) :
      (t.alter category name f).get? k.1 k.2 = t.get? k.1 k.2 :=
    Grouped.get?_alter_of_ne t f fun both => h (Prod.ext both.1 both.2)
  have here := Grouped.get?_alter_self t category name f
  refine ⟨fun users k r native found => ?_, fun k native => ?_⟩
  · by_cases h : k = (category, name)
    · subst h
      obtain rfl := Option.some.inj (here.symm.trans found)
      exact user native _ fun r before => users _ r native before
    · rw [other h] at found
      exact users k r native found
  · by_cases h : k = (category, name)
    · subst h
      refine Iff.trans ?_ (unbound native _)
      unfold Elements.Unbound
      simp [here]
    · unfold Elements.Unbound
      rw [other h]

theorem updateWith {category : Category} {name : String} {range : Range} {change : Range → Range}
    (t : Elements) (fits : env.Fits (category, name) range)
    (user : ∀ r : Range, (change r).isUser = r.isUser)
    (unbound : ∀ r : Range, (change r).Unbound ↔ r.Unbound) :
    Quiet env t (t.updateWith category name range change) := by
  refine alter t (fun native entry before => ?_) (fun native entry => ?_)
  · rw [user, widened, Range.isUser_merge]
    cases entry with
    | none => exact (fits native).user
    | some r => exact before r rfl
  · have plain := fits native
    rw [unbound, widened, Range.unbound_merge_iff, and_iff_left (Or.inl plain.user)]
    cases entry with
    -- a new entry is a copy of the range
    | none => exact iff_of_true plain.unbound fun _ absent => by cases absent
    | some r => simp

variable {category : Category} {name : String} {range : Range}

theorem update (t : Elements) (fits : env.Fits (category, name) range) :
    Quiet env t (t.update category name range) :=
  updateWith t fits (fun _ => rfl) fun _ => Iff.rfl

theorem use (t : Elements) (fits : env.Fits (category, name) range) :
    Quiet env t (t.use category name range) :=
  updateWith t fits (fun _ => rfl) fun _ => Iff.rfl

theorem makeOptional (t : Elements) (fits : env.Fits (category, name) range) :
    Quiet env t (t.makeOptional category name range) :=
  updateWith t fits (fun _ => rfl) fun _ => Iff.rfl

end Quiet

end Elements

namespace Analyzer

open Elements (Quiet)
open Code (Name Node Tree)

variable {env : Env}

theorem Env.fits_of_plain {r : Range} (plain : r.Plain) (k : Key) : env.Fits k r := fun _ => plain

theorem Env.fits_of_not_isScope {category : Category} (h : category.isScope = false) (name : String)
    (r : Range) : env.Fits (category, name) r := fun native => by
  have isScope := native.isScope
  rw [h] at isScope
  cases isScope

theorem Env.fits_globalKey (r : Range) : env.Fits globalKey r := fun native =>
  absurd rfl native.named

namespace State

variable {s : State} {k : Key}

theorem quiet_mergeIntoCurrent (s : State) {range : Range} (plain : range.Plain) :
    Quiet env s.metrics.elements (s.mergeIntoCurrent range).metrics.elements :=
  .update _ (Env.fits_of_plain plain _)

/-- A reference is written with all its bounds where it is no element of the code itself, and asks
of the scope around it what it needs of the runtime. -/
theorem quiet_recordReference (s : State) {category : Category} {name : String} {range : Range}
    (fits : env.Fits (category, name) range) :
    Quiet env s.metrics.elements (s.recordReference category name range).metrics.elements := by
  have used : Quiet env s.metrics.elements (s.use category name range).metrics.elements :=
    .use _ fits
  have credited (s : State) (name : String) (range : Range) :
      Quiet env s.metrics.elements (s.update .extensions name range).metrics.elements :=
    .update _ (Env.fits_of_not_isScope rfl _ _)
  unfold recordReference
  dsimp only
  split <;> split
  · exact used
  · exact used.trans (quiet_mergeIntoCurrent _ range.plain_runtimeBounds)
  · exact used.trans (credited ..)
  · exact (used.trans (credited ..)).trans (quiet_mergeIntoCurrent _ range.plain_runtimeBounds)

/-- An action that fits is quiet. -/
theorem quiet_perform (s : State) {action : Action} (fits : action.Fits env) :
    Quiet env s.metrics.elements (s.perform action).metrics.elements := by
  cases action with
  | construct c =>
    change Quiet env _ (s.apply c).metrics.elements
    unfold apply
    split
    · exact quiet_mergeIntoCurrent s c.plain_contribution
    · exact .refl env _
  | parameter variadic => cases variadic <;> exact .refl env _
  | hint className =>
    have plain : hintRange.Plain := Construct.plain_contribution _
    exact (quiet_mergeIntoCurrent s plain).trans (.use _ (Env.fits_of_plain plain _))
  | reference category name range => exact quiet_recordReference s fits
  | guard g element range =>
    exact (Quiet.makeOptional _ fits).trans (.use _ (Env.fits_of_not_isScope rfl _ _))
  | define constant => exact .update _ (Env.fits_of_not_isScope rfl _ _)
  | assign | dynamicGuard => exact .refl env _

theorem quiet_declare (s : State) {d : Declaration} (fits : d.Fits env) :
    Quiet env s.metrics.elements (s.declare d).metrics.elements := by
  have used (heads : List (Key × Range)) (s : State)
      (fit : ∀ head ∈ heads, env.Fits head.1 head.2) : Quiet env s.metrics.elements
        (heads.foldl (fun s head => s.use head.1.1 head.1.2 head.2) s).metrics.elements := by
    induction heads generalizing s with
    | nil => exact .refl env _
    | cons head rest ih =>
      have first : Quiet env s.metrics.elements (s.use head.1.1 head.1.2 head.2).metrics.elements :=
        .use _ (fit head List.mem_cons_self)
      exact first.trans (ih _ fun head mem => fit head (List.mem_cons_of_mem _ mem))
  exact (used d.heads s fits.heads).trans (.update _ fits.range)

theorem quiet_flush (s : State) {frame : Frame} (scopes : Scopes)
    (plain : ∀ locals, frame.locals = some locals → locals.accumulator.Plain) :
    Quiet env s.metrics.elements (s.flush frame scopes).metrics.elements := by
  unfold flush
  cases found : frame.locals with
  | none => exact .refl env _
  | some locals => exact .update _ (Env.fits_of_plain (plain locals found) _)

/-! ### What is handed on -/

/-- The entry that is passed on when the innermost scope is left. -/
def outgoing (s : State) : Option Range :=
  s.scopes.pop?.bind fun popped =>
    (s.flush popped.1 popped.2).metrics.elements.get? popped.1.category popped.1.name

/-- The entries that are passed on by the scopes of an outline, each with the scope it gets to. -/
def handed (s : State) : Outline → List (Key × Range)
  | .nothing | .act _ => []
  | .seq first second => s.handed first ++ (s.follow first).handed second
  | .scope d body =>
    (s.declare d).handed body
      ++ ((s.declare d).follow body).outgoing.toList.map fun r => (s.scopes.current, r)

theorem outgoing_of_pop? {frame : Frame} {scopes : Scopes}
    (h : s.scopes.pop? = some (frame, scopes)) :
    s.outgoing = (s.flush frame scopes).metrics.elements.get? frame.category frame.name := by
  unfold outgoing
  rw [h]
  rfl

section PassOn

variable {category : Category} {name : String} {range around : Range}

theorem elements_passOn (found : s.metrics.elements.get? category name = some range) :
    (s.passOn category name).metrics.elements
      = s.metrics.elements.update s.scopes.current.1 s.scopes.current.2 range := by
  unfold passOn
  rw [found]
  dsimp only
  split <;> rfl

/-- The entry around a scope after the entry of the scope has been passed on. -/
theorem get?_passOn_current (found : s.metrics.elements.get? category name = some range)
    (outer : s.metrics.elements.get? s.scopes.current.1 s.scopes.current.2 = some around) :
    (s.passOn category name).metrics.elements.get? s.scopes.current.1 s.scopes.current.2
      = some (around.merge range) := by
  rw [elements_passOn found]
  refine (Grouped.get?_alter_self ..).trans ?_
  rw [outer]
  rfl

theorem get?_passOn_of_ne (found : s.metrics.elements.get? category name = some range)
    (h : k ≠ s.scopes.current) :
    (s.passOn category name).metrics.elements.get? k.1 k.2 = s.metrics.elements.get? k.1 k.2 := by
  rw [elements_passOn found]
  exact Grouped.get?_alter_of_ne _ _ fun both => h (Prod.ext both.1 both.2)

theorem users_passOn (found : s.metrics.elements.get? category name = some range)
    (outer : s.metrics.elements.get? s.scopes.current.1 s.scopes.current.2 = some around)
    (users : s.metrics.elements.Users env) :
    (s.passOn category name).metrics.elements.Users env := by
  intro k r native entry
  by_cases h : k = s.scopes.current
  · subst h
    obtain rfl := Option.some.inj ((get?_passOn_current found outer).symm.trans entry)
    rw [Range.isUser_merge]
    exact users _ around native outer
  · rw [get?_passOn_of_ne found h] at entry
    exact users k r native entry

/-- Bounds on an extension get into the scope around with an entry that belongs to one. -/
theorem unbound_passOn (found : s.metrics.elements.get? category name = some range)
    (outer : s.metrics.elements.get? s.scopes.current.1 s.scopes.current.2 = some around) :
    (s.passOn category name).metrics.elements.Unbound k ↔ s.metrics.elements.Unbound k
      ∧ (k = s.scopes.current → range.isUser ∨ range.Unbound) := by
  unfold Elements.Unbound
  by_cases h : k = s.scopes.current
  · subst h
    simp [get?_passOn_current found outer, outer, Range.unbound_merge_iff]
  · simp [get?_passOn_of_ne found h, h]

end PassOn

/-- What an analysis keeps to between two steps: elements of the code itself belong to no extension,
accumulators have nothing to do with extensions, and the innermost scope has an entry. -/
structure Steady (env : Env) (s : State) : Prop where
  users : s.metrics.elements.Users env
  locals : s.scopes.Plain
  grounded : s.Grounded (.lower .baseline)

namespace Steady

theorem perform (h : s.Steady env) {action : Action} (fits : action.Fits env) :
    (s.perform action).Steady env := by
  refine ⟨(quiet_perform s fits).users h.users, ?_, h.grounded.follow (.act action)⟩
  cases action with
  | construct c => exact (scopes_apply s c).symm ▸ h.locals
  | parameter variadic =>
    cases variadic with
    | false => exact h.locals
    | true => exact h.locals.accumulate (Construct.plain_contribution _).user
  | assign target value => exact h.locals.modifyLocals fun _ plain => plain
  | reference category name range =>
    rw [State.perform, scopes_recordReference]
    split
    · exact h.locals.accumulate range.plain_runtimeBounds.user
    · exact h.locals
  | hint | guard | dynamicGuard | define => exact h.locals

theorem declare (h : s.Steady env) {d : Declaration} (fits : d.Fits env) :
    (s.declare d).Steady env :=
  ⟨(quiet_declare s fits).users h.users, scopes_declare s d ▸ h.locals.push d.category d.name,
    h.grounded.declare d⟩

end Steady

/-- What is passed on when the scope of a declaration is left: an entry that belongs to no extension
if the declared element does not. It is through this entry only that bounds on an extension get to
an element of the code itself. -/
theorem Steady.leaveScope {t : State} {d : Declaration} {f : Locals → Locals} (ht : t.Steady env)
    (h : t.scopes = (s.declare d).scopes.modifyLocals f)
    (outside : t.holds (.lower .baseline) s.scopes.current) :
    t.leaveScope.metrics.elements.Users env ∧ t.leaveScope.scopes.Plain
      ∧ ∃ range, t.outgoing = some range ∧ (env.Native d.key → range.isUser)
        ∧ ∀ k, env.Native k → (t.leaveScope.metrics.elements.Unbound k
          ↔ t.metrics.elements.Unbound k
            ∧ (k = s.scopes.current → range.isUser ∨ range.Unbound)) := by
  obtain ⟨frame, scopes, pop, key, current, -⟩ := pop?_declare (l := .lower .baseline) h
  obtain ⟨plain, own⟩ := ht.locals.pop pop
  -- flushing the locals is quiet, and what matters is the whole entry that is passed on after that
  have flushed : Quiet env _ _ := quiet_flush t scopes own
  have kept {k : Key} (holds : t.holds (.lower .baseline) k) :
      ∃ r, (t.flush frame scopes).metrics.elements.get? k.1 k.2 = some r := by
    obtain ⟨r, found, -⟩ : (t.flush frame scopes).holds _ k := holds_flush.2 (Or.inl holds)
    exact ⟨r, found⟩
  have inside : t.holds (.lower .baseline) (frame.category, frame.name) := by
    rw [key, ← current_declare s d, ← Scopes.current_modifyLocals _ f, ← h]
    exact (ht.grounded (Std.le_refl Version.baseline)).1
  obtain ⟨range, found⟩ := kept inside
  obtain ⟨around, outer⟩ := kept outside
  have users := flushed.users ht.users
  have scope : (t.flush frame scopes).scopes.current = s.scopes.current := by
    rw [scopes_flush, current]
  rw [← scope] at outer
  rw [leaveScope_of_pop? pop]
  refine ⟨users_passOn found outer users, ?_, range, (outgoing_of_pop? pop).trans found,
    fun native => users (frame.category, frame.name) range (key ▸ native) found,
    fun k native => ?_⟩
  · rwa [scopes_passOn, scopes_flush]
  · rw [unbound_passOn found outer, flushed.unbound k native, scope]

/-- The scope around a declaration keeps its entry. -/
theorem Steady.holds_around (h : s.Steady env) (d : Declaration) (body : Outline) :
    ((s.declare d).follow body).holds (.lower .baseline) s.scopes.current :=
  holds_follow_of_holds (holds_declare.2 (Or.inl (h.grounded (Std.le_refl Version.baseline)).1))

/-- By induction over an outline: nothing changes but through what is handed on. -/
theorem Steady.follow_spec (h : s.Steady env) {o : Outline} (fits : o.Fits env) :
    (s.follow o).Steady env
      ∧ ∀ k, env.Native k → ((s.follow o).metrics.elements.Unbound k
        ↔ s.metrics.elements.Unbound k
          ∧ ∀ r, (k, r) ∈ s.handed o → r.isUser ∨ r.Unbound) := by
  induction o generalizing s with
  | nothing => exact ⟨h, fun k _ => by simp [follow, handed]⟩
  | act action =>
    refine ⟨h.perform fits, fun k native => ?_⟩
    rw [follow, (quiet_perform s fits).unbound k native]
    simp [handed]
  | seq first second ihf ihs =>
    obtain ⟨between, fromFirst⟩ := ihf h fits.1
    obtain ⟨after, fromSecond⟩ := ihs between fits.2
    refine ⟨after, fun k native => ?_⟩
    rw [follow, fromSecond k native, fromFirst k native, handed, and_assoc]
    simp only [List.mem_append, or_imp, forall_and]
  | scope d body ih =>
    obtain ⟨inside, fromBody⟩ := ih (h.declare fits.1) fits.2
    obtain ⟨f, hf⟩ := scopes_follow (s.declare d) body
    obtain ⟨users, plain, range, passed, -, left⟩ :=
      inside.leaveScope hf (h.holds_around d body)
    refine ⟨⟨users, plain, h.grounded.follow (.scope d body)⟩, fun k native => ?_⟩
    -- what is handed on inside the scope, and then the entry of the scope itself
    rw [follow, left k native, fromBody k native, (quiet_declare s fits.1).unbound k native, handed,
      passed, and_assoc]
    simp [or_imp, forall_and, and_comm]

/-- What is handed on comes from a scope right inside, and belongs to no extension if that scope is
an element of the code itself. -/
theorem Steady.nested_of_mem_handed (h : s.Steady env) {o : Outline} (fits : o.Fits env)
    {r : Range} (mem : (k, r) ∈ s.handed o) :
    ∃ inner, (k, inner) ∈ o.nested s.scopes.current ∧ (env.Native inner → r.isUser) := by
  induction o generalizing s with
  | nothing => simp [handed] at mem
  | act action => simp [handed] at mem
  | seq first second ihf ihs =>
    rcases List.mem_append.1 mem with earlier | later
    · obtain ⟨inner, pair, user⟩ := ihf h fits.1 earlier
      exact ⟨inner, List.mem_append_left _ pair, user⟩
    · obtain ⟨inner, pair, user⟩ := ihs (h.follow_spec fits.1).1 fits.2 later
      rw [current_follow] at pair
      exact ⟨inner, List.mem_append_right _ pair, user⟩
  | scope d body ih =>
    have declared := h.declare fits.1
    rcases List.mem_append.1 mem with deeper | passed
    · obtain ⟨inner, pair, user⟩ := ih declared fits.2 deeper
      rw [current_declare] at pair
      exact ⟨inner, List.mem_cons_of_mem _ pair, user⟩
    · obtain ⟨f, hf⟩ := scopes_follow (s.declare d) body
      obtain ⟨-, -, range, outgoing, user, -⟩ :=
        (declared.follow_spec fits.2).1.leaveScope hf (h.holds_around d body)
      obtain ⟨rfl, rfl⟩ : k = s.scopes.current ∧ r = range := by
        simpa [outgoing, eq_comm] using passed
      exact ⟨d.key, List.mem_cons_self, user⟩

/-! ### Files -/

theorem quiet_begun (m : Metrics) : Quiet env m.elements (begun m).metrics.elements :=
  (Quiet.update _ (Env.fits_globalKey _)).trans (.update _ (Env.fits_of_not_isScope rfl _ _))

theorem steady_begun {m : Metrics} (users : m.elements.Users env) : (begun m).Steady env :=
  ⟨(quiet_begun m).users users, Scopes.plain_fresh, grounded_begun m _⟩

/-- At the end of a file only the global namespace and an extension are written. -/
theorem quiet_foldFile (s : State) : Quiet env s.metrics.elements s.foldFile.metrics.elements := by
  have flushed : Quiet env s.metrics.elements s.flushFile.metrics.elements :=
    .alter _ (fun native => absurd rfl native.named) fun native => absurd rfl native.named
  exact flushed.trans (.update _ (Env.fits_of_not_isScope rfl _ _))

end State

open State

/-- By files: what is handed on in a run, from metrics on, each entry with the scope it gets to. -/
def handedFrom (m : Metrics) : List Outline → List (Key × Range)
  | [] => []
  | o :: rest => (begun m).handed o ++ handedFrom (afterFile m o) rest

theorem afterFile_spec {m : Metrics} (users : m.elements.Users env) {o : Outline}
    (fits : o.Fits env) :
    (afterFile m o).elements.Users env
      ∧ ∀ k, env.Native k → ((afterFile m o).elements.Unbound k ↔ m.elements.Unbound k
        ∧ ∀ r, (k, r) ∈ (begun m).handed o → r.isUser ∨ r.Unbound) := by
  obtain ⟨after, bounds⟩ := (steady_begun users).follow_spec fits
  have folded : Quiet env _ _ := quiet_foldFile ((begun m).follow o)
  rw [afterFile_eq]
  refine ⟨folded.users after.users, fun k native => ?_⟩
  rw [folded.unbound k native, bounds k native, (quiet_begun m).unbound k native]

theorem foldl_afterFile_spec {m : Metrics} (users : m.elements.Users env) {outlines : List Outline}
    (fits : ∀ o ∈ outlines, o.Fits env) :
    (outlines.foldl afterFile m).elements.Users env
      ∧ ∀ k, env.Native k → ((outlines.foldl afterFile m).elements.Unbound k
        ↔ m.elements.Unbound k ∧ ∀ r, (k, r) ∈ handedFrom m outlines → r.isUser ∨ r.Unbound) := by
  induction outlines generalizing m with
  | nil => exact ⟨users, fun k _ => by simp [handedFrom]⟩
  | cons o rest ih =>
    obtain ⟨between, first⟩ := afterFile_spec users (fits o List.mem_cons_self)
    obtain ⟨after, later⟩ := ih between fun o mem => fits o (List.mem_cons_of_mem _ mem)
    refine ⟨after, fun k native => ?_⟩
    rw [List.foldl_cons, later k native, first k native, handedFrom, and_assoc]
    simp only [List.mem_append, or_imp, forall_and]

theorem nested_of_mem_handedFrom {m : Metrics} (users : m.elements.Users env)
    {outlines : List Outline} (fits : ∀ o ∈ outlines, o.Fits env) {k : Key} {r : Range}
    (mem : (k, r) ∈ handedFrom m outlines) :
    ∃ o ∈ outlines, ∃ inner, (k, inner) ∈ o.nested globalKey ∧ (env.Native inner → r.isUser) := by
  induction outlines generalizing m with
  | nil => simp [handedFrom] at mem
  | cons o rest ih =>
    rcases List.mem_append.1 mem with here | later
    · obtain ⟨inner, pair, user⟩ :=
        (steady_begun users).nested_of_mem_handed (fits o List.mem_cons_self) here
      exact ⟨o, List.mem_cons_self, inner, pair, user⟩
    · obtain ⟨o', mem', inner, pair, user⟩ :=
        ih (afterFile_spec users (fits o List.mem_cons_self)).1
          (fun o mem => fits o (List.mem_cons_of_mem _ mem)) later
      exact ⟨o', List.mem_cons_of_mem _ mem', inner, pair, user⟩

/-! ### Runs -/

/-- The entries that scopes pass on in a run when they are left, each with the scope it gets to. -/
def handedOn (env : Env) (trees : List Tree) : List (Key × Range) :=
  handedFrom {} (trees.map (outline env))

/-- The elements that the trees of a run declare as scopes, each behind the scope right around
it. -/
def nestedKeys (env : Env) (trees : List Tree) : List (Key × Key) :=
  trees.flatMap fun tree => (outline env tree).nested globalKey

/-- An element of the code itself belongs to no extension. It has bounds on an extension if, and
only if, it has been handed some by an element of an extension; and it has none if all that is
declared right inside it are elements of the code itself. -/
theorem extension_bounds_handed_on (env : Env) (sound : env.Sound) (trees : List Tree) (k : Key)
    (declared : k ∈ declaredKeys env trees) (named : k ≠ globalKey)
    (user : ∀ argCount r, env.references k.1 k.2 argCount = some r → r.isUser) :
    ∃ entry, (analyzeAll env {} trees).metrics.elements.get? k.1 k.2 = some entry
      ∧ entry.extension = userExtension
      ∧ (entry.Unbound ↔ ∀ r, (k, r) ∈ handedOn env trees → r.isUser ∨ r.Unbound)
      ∧ ((∀ inner, (k, inner) ∈ nestedKeys env trees → env.Native inner) →
        entry.extensionMin = none ∧ entry.extensionMax = none) := by
  have native : env.Native k := ⟨isScope_of_mem_declaredKeys declared, named, user⟩
  have fits : ∀ o ∈ trees.map (outline env), o.Fits env := by
    intro o mem
    obtain ⟨tree, -, rfl⟩ := List.mem_map.1 mem
    exact fits_outline sound tree
  have fresh : ({} : Metrics).elements.Users env := fun _ _ _ found => by cases found
  have nothing : ({} : Metrics).elements.Unbound k := fun _ found => by cases found
  obtain ⟨users, bounds⟩ := foldl_afterFile_spec fresh fits
  obtain ⟨entry, found⟩ := exists_entry_of_declared declared
  have unbound : entry.Unbound ↔ ∀ r, (k, r) ∈ handedOn env trees → r.isUser ∨ r.Unbound := by
    have here := bounds k native
    rw [and_iff_right nothing, ← metrics_analyzeAll env {} trees] at here
    refine Iff.trans ?_ here
    simp [Elements.Unbound, found]
  refine ⟨entry, found, ?_, unbound, fun natives => unbound.2 fun r mem => Or.inl ?_⟩
  · rw [metrics_analyzeAll] at found
    exact eq_of_beq (users k entry native found)
  · obtain ⟨o, ho, inner, pair, user⟩ := nested_of_mem_handedFrom fresh fits mem
    obtain ⟨tree, ht, rfl⟩ := List.mem_map.1 ho
    exact user (natives inner (List.mem_flatMap.2 ⟨tree, ht, pair⟩))

/-- A function of an extension. -/
def extensionFunction : Env :=
  { references := fun category name _ =>
      if category = .functions ∧ name = "json_encode" then
        some (.ofExtension "json" (some (.release 1 2 0)) (.release 5 2 0))
      else none }

/-- A function inside a function, and in the inner one a guard for a function of an extension with
the declaration of a substitute for it. -/
def nestedSubstitute : Tree :=
  let guarded : List Node :=
    [⟨2, .call (some (Name.ofParts ["function_exists"])) [.string "json_encode"], {}, []⟩,
      ⟨3, .functionDecl (Name.ofParts ["json_encode"]), {}, []⟩]
  { path := "f.php"
    nodes :=
      [⟨0, .functionDecl (Name.ofParts ["outer"]), {},
        [⟨1, .functionDecl (Name.ofParts ["setup"]), {}, guarded⟩]⟩] }

theorem sound_extensionFunction : extensionFunction.Sound := by
  intro category name argCount r found user
  obtain ⟨-, rfl⟩ : _ ∧ _ = r := by simpa [extensionFunction] using found
  cases user

theorem native_extensionFunction {name : String} (h : name ≠ "json_encode") :
    extensionFunction.Native (.functions, name) := by
  refine ⟨rfl, by simp [globalKey], fun argCount r found => ?_⟩
  simp [extensionFunction, h] at found

/-- An element that is unknown can have bounds on an extension: a function takes those of the
substitute that is declared inside it. -/
theorem nested_substitute_takes_bounds :
    extensionFunction.Sound
      ∧ (∀ argCount, extensionFunction.references .functions "setup" argCount = none)
      ∧ (.functions, "setup") ∈ declaredKeys extensionFunction [nestedSubstitute]
      ∧ ((analyzeAll extensionFunction {} [nestedSubstitute]).metrics.elements.get? .functions
        "setup").bind Range.extensionMin = some (.release 1 2 0) :=
  ⟨sound_extensionFunction, fun _ => rfl, by decide +kernel, by decide +kernel⟩

/-- The bounds of the substitute are handed to the function right around it and not any further. -/
theorem nested_substitute_handed_on :
    let metrics := (analyzeAll extensionFunction {} [nestedSubstitute]).metrics
    (∃ r, ((.functions, "setup"), r) ∈ handedOn extensionFunction [nestedSubstitute]
        ∧ ¬r.isUser ∧ ¬r.Unbound)
      ∧ (∃ entry, metrics.elements.get? .functions "setup" = some entry
        ∧ entry.extension = userExtension ∧ ¬entry.Unbound)
      ∧ ∃ entry, metrics.elements.get? .functions "outer" = some entry
        ∧ entry.extension = userExtension
        ∧ entry.extensionMin = none ∧ entry.extensionMax = none := by
  intro metrics
  have bounds_of (name : String) (h : name ≠ "json_encode")
      (declared : (.functions, name) ∈ declaredKeys extensionFunction [nestedSubstitute]) :=
    have native := native_extensionFunction h
    extension_bounds_handed_on extensionFunction sound_extensionFunction [nestedSubstitute]
      (.functions, name) declared native.named native.user
  have handed : ∃ r, ((.functions, "setup"), r) ∈ handedOn extensionFunction [nestedSubstitute]
      ∧ ¬r.isUser ∧ ¬r.Unbound := by
    let substitute := Range.ofExtension "json" (some (.release 1 2 0)) (.release 5 2 0)
    exact ⟨{ substitute with optional := true }, by decide +kernel⟩
  refine ⟨handed, ?_, ?_⟩
  · obtain ⟨entry, found, user, bounds, -⟩ := bounds_of "setup" (by decide) (by decide +kernel)
    refine ⟨entry, found, user, fun unbound => ?_⟩
    obtain ⟨r, mem, foreign, bound⟩ := handed
    exact (bounds.1 unbound r mem).elim foreign bound
  · obtain ⟨entry, found, user, -, unbound⟩ := bounds_of "outer" (by decide) (by decide +kernel)
    have inside : ∀ pair ∈ nestedKeys extensionFunction [nestedSubstitute],
        pair.1 = (.functions, "outer") → pair.2 = (.functions, "setup") := by decide +kernel
    refine ⟨entry, found, user, unbound fun inner nested => ?_⟩
    obtain rfl : inner = (.functions, "setup") := inside _ nested rfl
    exact native_extensionFunction (by decide)

end Analyzer

end Requisite
