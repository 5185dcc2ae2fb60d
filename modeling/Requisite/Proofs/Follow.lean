import Requisite.Proofs.Outline

/-!
# Following an outline

`State.follow` carries out an outline with the operations of the analysis itself. The counters, the
journal and the remembered lookups of a state have no part in it: `State.bare` leaves them out, and
`State.bare_follow` says that nothing is lost. Of the scopes an outline changes the innermost locals
and nothing else (`State.scopes_follow`).
-/
namespace Requisite

namespace Scopes

/-! ### Changes of locals

A change of locals keeps the frames with their names, so two changes in a row are one, and a change
made inside a scope without locals is a change made around it. -/

theorem modifyLocals_sharing (global : Locals) (category : Category) (name : String)
    (rest : List Frame) (f : Locals → Locals) :
    modifyLocals ⟨global, ⟨category, name, none⟩ :: rest⟩ f
      = ⟨(modifyLocals ⟨global, rest⟩ f).global,
          ⟨category, name, none⟩ :: (modifyLocals ⟨global, rest⟩ f).frames⟩ := by
  unfold modifyLocals
  simp only [modifyFrames?]
  cases modifyFrames? f rest <;> rfl

theorem modifyLocals_id (s : Scopes) : s.modifyLocals id = s := by
  obtain ⟨global, frames⟩ := s
  induction frames with
  | nil => rfl
  | cons frame rest ih =>
    obtain ⟨category, name, _ | locals⟩ := frame
    · rw [modifyLocals_sharing, ih]
    · rfl

theorem modifyLocals_modifyLocals (s : Scopes) (f g : Locals → Locals) :
    (s.modifyLocals f).modifyLocals g = s.modifyLocals (g ∘ f) := by
  obtain ⟨global, frames⟩ := s
  induction frames with
  | nil => rfl
  | cons frame rest ih =>
    obtain ⟨category, name, _ | locals⟩ := frame
    · rw [modifyLocals_sharing, modifyLocals_sharing, modifyLocals_sharing, ih]
    · rfl

@[simp] theorem current_modifyLocals (s : Scopes) (f : Locals → Locals) :
    (s.modifyLocals f).current = s.current := by
  obtain ⟨global, _ | ⟨⟨category, name, _ | locals⟩, rest⟩⟩ := s
  · rfl
  · rw [modifyLocals_sharing]; rfl
  · rfl

@[simp] theorem ownsLocals_modifyLocals (s : Scopes) (f : Locals → Locals) :
    (s.modifyLocals f).ownsLocals = s.ownsLocals := by
  obtain ⟨global, _ | ⟨⟨category, name, _ | locals⟩, rest⟩⟩ := s
  · rfl
  · rw [modifyLocals_sharing]; rfl
  · rfl

@[simp] theorem locals_modifyLocals (s : Scopes) (f : Locals → Locals) :
    (s.modifyLocals f).locals = f s.locals := by
  obtain ⟨global, frames⟩ := s
  induction frames with
  | nil => rfl
  | cons frame rest ih =>
    obtain ⟨category, name, _ | locals⟩ := frame
    · rw [modifyLocals_sharing]
      exact ih
    · rfl

theorem pop?_modifyLocals_push (s : Scopes) (category : Category) (name : String)
    (f : Locals → Locals) :
    ((s.push category name).modifyLocals f).pop? =
      if Frame.keepsLocals category then some (⟨category, name, some (f {})⟩, s)
      else some (⟨category, name, none⟩, s.modifyLocals f) := by
  unfold push Frame.enter
  split
  · rfl
  · rw [modifyLocals_sharing]; rfl

theorem locals_push (s : Scopes) (category : Category) (name : String) :
    (s.push category name).locals = if Frame.keepsLocals category then {} else s.locals := by
  unfold push Frame.enter
  split <;> rfl

theorem ownsLocals_push (s : Scopes) (category : Category) (name : String) :
    (s.push category name).ownsLocals = Frame.keepsLocals category := by
  unfold push Frame.enter
  cases Frame.keepsLocals category <;> rfl

end Scopes

namespace Analyzer

open Code (ConstItem Event Expr Name Node NodeKind Param Span Tree)

namespace State

/-! ### Carrying out an outline -/

def perform (s : State) : Action → State
  | .construct c => s.apply c
  | .parameter variadic =>
    let c := Construct.parameter variadic
    if c.isSignificant then { s with scopes := s.scopes.accumulate c.contribution } else s
  | .hint className => (s.mergeIntoCurrent hintRange).use .classes className hintRange
  | .assign target value => { s with scopes := s.scopes.recordAssignment target value }
  | .reference category name range => s.recordReference category name range
  | .guard g element range =>
    (s.modifyElements fun t => t.makeOptional g.category element range).use .conditions
      (g.condition element) range
  | .dynamicGuard => s
  | .define constant => s.update .constants constant .user

/-- Uses what the head of a declaration names, and opens the scope of the declaration. -/
def declare (s : State) (d : Declaration) : State :=
  (d.heads.foldl (fun s head => s.use head.1.1 head.1.2 head.2) s).enterScope
    d.category d.name d.range

def follow (s : State) : Outline → State
  | .nothing => s
  | .act action => s.perform action
  | .seq first second => (s.follow first).follow second
  | .scope d body => ((s.declare d).follow body).leaveScope

/-- The state without all that does not matter for the metrics. -/
def bare (s : State) : State :=
  { metrics := s.metrics, scopes := s.scopes }

/-- What the outlines of the nodes to come depend on. -/
def memory (s : State) : Memory :=
  { owner := s.scopes.current.2, source := s.source, aliases := s.scopes.locals.aliases,
    cache := s.cache }

theorem follow_ofList (s : State) (actions : List Action) :
    s.follow (.ofList actions) = actions.foldl perform s := by
  induction actions generalizing s with
  | nil => rfl
  | cons action rest ih => exact ih (s.perform action)

/-! ### Leaving a scope in two steps -/

/-- Takes a frame off, and puts what its locals have gathered into its entry. -/
def flush (s : State) (frame : Frame) (scopes : Scopes) : State :=
  match frame.locals with
  | some locals => { s with scopes }.update frame.category frame.name locals.accumulator
  | none => { s with scopes }

/-- Folds the entry of an element into the innermost scope, and the entry of a namespace into the
overall requirement as well. -/
def passOn (s : State) (category : Category) (name : String) : State :=
  match s.metrics.elements.get? category name with
  | none => s
  | some range =>
    if category = .namespaces then (s.mergeIntoCurrent range).widen range
    else s.mergeIntoCurrent range

theorem leaveScope_of_pop? {s : State} {frame : Frame} {scopes : Scopes}
    (h : s.scopes.pop? = some (frame, scopes)) :
    s.leaveScope = (s.flush frame scopes).passOn frame.category frame.name := by
  obtain ⟨category, name, _ | locals⟩ := frame <;>
  · unfold leaveScope
    rw [h]
    rfl

/-! ### Only the metrics and the scopes matter -/

theorem bare_recordReference (s : State) (category : Category) (name : String) (range : Range) :
    (s.recordReference category name range).bare
      = (s.bare.recordReference category name range).bare := by
  unfold recordReference
  cases range.isUser <;> cases h : s.scopes.ownsLocals <;>
    simp [h, bare, count, use, update, modifyElements, mergeIntoCurrent]

theorem bare_perform (s : State) (action : Action) :
    (s.perform action).bare = (s.bare.perform action).bare := by
  cases action with
  | construct c =>
    change (s.apply c).bare = (s.bare.apply c).bare
    unfold apply
    split <;> rfl
  | parameter variadic => cases variadic <;> rfl
  | reference category name range => exact bare_recordReference s category name range
  | hint | assign | guard | dynamicGuard | define => rfl

theorem bare_flush (s : State) (frame : Frame) (scopes : Scopes) :
    (s.flush frame scopes).bare = (s.bare.flush frame scopes).bare := by
  unfold flush
  cases frame.locals <;> rfl

theorem bare_passOn (s : State) (category : Category) (name : String) :
    (s.passOn category name).bare = (s.bare.passOn category name).bare := by
  have same : s.bare.metrics = s.metrics := rfl
  unfold passOn
  rw [same]
  split
  · rfl
  · split <;> rfl

theorem bare_leaveScope (s : State) : s.leaveScope.bare = s.bare.leaveScope.bare := by
  rcases h : s.scopes.pop? with _ | ⟨frame, scopes⟩
  · have h' : s.bare.scopes.pop? = none := h
    unfold leaveScope
    rw [h, h']
    rfl
  · have h' : s.bare.scopes.pop? = some (frame, scopes) := h
    rw [leaveScope_of_pop? h, leaveScope_of_pop? h', bare_passOn, bare_flush, ← bare_passOn]

theorem bare_foldl_use (heads : List (Key × Range)) (s : State) :
    (heads.foldl (fun s head => s.use head.1.1 head.1.2 head.2) s).bare
      = (heads.foldl (fun s head => s.use head.1.1 head.1.2 head.2) s.bare).bare := by
  induction heads generalizing s with
  | nil => rfl
  | cons head rest ih =>
    rw [List.foldl_cons, List.foldl_cons, ih, ih (s.bare.use _ _ _)]
    rfl

theorem bare_enterScope (s : State) (category : Category) (name : String) (range : Range) :
    (s.enterScope category name range).bare = (s.bare.enterScope category name range).bare := rfl

theorem bare_declare (s : State) (d : Declaration) :
    (s.declare d).bare = (s.bare.declare d).bare := by
  rw [declare, bare_enterScope, bare_foldl_use, ← bare_enterScope]
  rfl

theorem bare_follow (s : State) (o : Outline) : (s.follow o).bare = (s.bare.follow o).bare := by
  induction o generalizing s with
  | nothing => rfl
  | act action => exact bare_perform s action
  | seq first second ihf ihs =>
    rw [follow, follow, ihs, ihf, ← ihs]
  | scope d body ih =>
    rw [follow, follow, bare_leaveScope, ih, bare_declare, ← ih, ← bare_leaveScope]

/-! ### The end of a file -/

/-- What remains to be done at the end of a file once all scopes are closed. -/
def foldFile (s : State) : State :=
  let (global, scopes) := s.scopes.takeGlobal
  let s := { s with scopes }.modifyElements fun t =>
    t.updateWith .namespaces globalNamespace global.accumulator fun r =>
      { r with extensionMin := some .baseline }
  let range := (s.metrics.elements.get? .namespaces globalNamespace).getD .user
  (s.update .extensions range.extension range).widen range

theorem metrics_endFile_eq (s : State) : s.endFile.metrics = s.closeScopes.foldFile.metrics := rfl

theorem bare_repeat_leaveScope (n : Nat) (s : State) :
    (Nat.repeat leaveScope n s).bare = (Nat.repeat leaveScope n s.bare).bare := by
  induction n with
  | zero => rfl
  | succ n ih => rw [Nat.repeat, Nat.repeat, bare_leaveScope, ih, ← bare_leaveScope]

theorem bare_closeScopes (s : State) : s.closeScopes.bare = s.bare.closeScopes.bare := by
  have same : s.bare.scopes.frames.length = s.scopes.frames.length := rfl
  unfold closeScopes
  rw [same]
  split
  · rfl
  · rw [bare_repeat_leaveScope, bare_repeat_leaveScope _ (note _ _)]
    rfl

theorem metrics_endFile (s : State) : s.endFile.metrics = s.bare.endFile.metrics := by
  have folded : ∀ t : State, t.foldFile.metrics = t.bare.foldFile.metrics := fun _ => rfl
  rw [metrics_endFile_eq, metrics_endFile_eq, folded, bare_closeScopes, ← folded]

/-! ### What an outline does to the scopes -/

@[simp] theorem scopes_flush (s : State) (frame : Frame) (scopes : Scopes) :
    (s.flush frame scopes).scopes = scopes := by
  unfold flush
  cases frame.locals <;> rfl

@[simp] theorem scopes_passOn (s : State) (category : Category) (name : String) :
    (s.passOn category name).scopes = s.scopes := by
  unfold passOn
  split
  · rfl
  · split <;> rfl

theorem scopes_foldl_use (heads : List (Key × Range)) (s : State) :
    (heads.foldl (fun s head => s.use head.1.1 head.1.2 head.2) s).scopes = s.scopes := by
  induction heads generalizing s with
  | nil => rfl
  | cons head rest ih => exact ih _

theorem scopes_declare (s : State) (d : Declaration) :
    (s.declare d).scopes = s.scopes.push d.category d.name := by
  change Scopes.push _ d.category d.name = _
  exact congrArg (Scopes.push · d.category d.name) (scopes_foldl_use d.heads s)

theorem scopes_apply (s : State) (c : Construct) : (s.apply c).scopes = s.scopes := by
  unfold apply
  split <;> rfl

theorem scopes_recordReference (s : State) (category : Category) (name : String) (range : Range) :
    (s.recordReference category name range).scopes
      = if s.scopes.ownsLocals then s.scopes.accumulate range.runtimeBounds else s.scopes := by
  unfold recordReference
  cases range.isUser <;> cases h : s.scopes.ownsLocals <;>
    simp [h, count, use, update, modifyElements, mergeIntoCurrent]

/-- An action changes no more of the scopes than the innermost locals. -/
theorem scopes_perform (s : State) (action : Action) :
    ∃ f, (s.perform action).scopes = s.scopes.modifyLocals f := by
  have same {t : State} (h : t.scopes = s.scopes) : ∃ f, t.scopes = s.scopes.modifyLocals f :=
    ⟨id, h.trans s.scopes.modifyLocals_id.symm⟩
  cases action with
  | construct c => exact same (scopes_apply s c)
  | parameter variadic =>
    cases variadic with
    | false => exact same rfl
    | true => exact ⟨_, rfl⟩
  | assign target value => exact ⟨_, rfl⟩
  | reference category name range =>
    by_cases h : s.scopes.ownsLocals
    · exact ⟨_, by rw [perform, scopes_recordReference, if_pos h]; rfl⟩
    · exact same (by rw [perform, scopes_recordReference, if_neg h])
  | hint | guard | dynamicGuard | define => exact same rfl

/-- A scope that is opened, changed inside and left leaves the scopes around it as they were, but
for the locals that it shares with them. -/
theorem scopes_leave_declare {s t : State} {d : Declaration} {f : Locals → Locals}
    (h : t.scopes = (s.declare d).scopes.modifyLocals f) :
    t.leaveScope.scopes = if d.keepsLocals then s.scopes else s.scopes.modifyLocals f := by
  rw [scopes_declare] at h
  have pop := Scopes.pop?_modifyLocals_push s.scopes d.category d.name f
  rw [← h] at pop
  unfold Declaration.keepsLocals
  split at pop
  · rename_i keeps
    rw [leaveScope_of_pop? pop, scopes_passOn, scopes_flush, if_pos keeps]
  · rename_i shares
    rw [leaveScope_of_pop? pop, scopes_passOn, scopes_flush, if_neg shares]

/-- An outline changes no more of the scopes than the innermost locals. -/
theorem scopes_follow (s : State) (o : Outline) :
    ∃ f, (s.follow o).scopes = s.scopes.modifyLocals f := by
  induction o generalizing s with
  | nothing => exact ⟨id, s.scopes.modifyLocals_id.symm⟩
  | act action => exact scopes_perform s action
  | seq first second ihf ihs =>
    obtain ⟨f, hf⟩ := ihf s
    obtain ⟨g, hg⟩ := ihs (s.follow first)
    exact ⟨g ∘ f, by rw [follow, hg, hf, Scopes.modifyLocals_modifyLocals]⟩
  | scope d body ih =>
    obtain ⟨f, hf⟩ := ih (s.declare d)
    rw [follow, scopes_leave_declare hf]
    split
    · exact ⟨id, s.scopes.modifyLocals_id.symm⟩
    · exact ⟨f, rfl⟩

@[simp] theorem current_follow (s : State) (o : Outline) :
    (s.follow o).scopes.current = s.scopes.current := by
  obtain ⟨f, hf⟩ := scopes_follow s o
  rw [hf, Scopes.current_modifyLocals]

@[simp] theorem ownsLocals_follow (s : State) (o : Outline) :
    (s.follow o).scopes.ownsLocals = s.scopes.ownsLocals := by
  obtain ⟨f, hf⟩ := scopes_follow s o
  rw [hf, Scopes.ownsLocals_modifyLocals]

@[simp] theorem current_perform (s : State) (action : Action) :
    (s.perform action).scopes.current = s.scopes.current :=
  current_follow s (.act action)

@[simp] theorem ownsLocals_perform (s : State) (action : Action) :
    (s.perform action).scopes.ownsLocals = s.scopes.ownsLocals :=
  ownsLocals_follow s (.act action)

end State

end Analyzer

end Requisite
