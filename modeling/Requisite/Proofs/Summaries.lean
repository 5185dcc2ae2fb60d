import Requisite.Proofs.Growth

/-!
# Two summaries that agree

A run is summed up twice: by the overall requirement, and by the entry of the global namespace. The
overall requirement is raised where a namespace is left and where a file ends. The entry of the
global namespace is fed by references, by accumulators and by the scopes that are folded into it. At
the end of every file the two agree, also when scopes are left open or closed too often.

In between, the overall requirement can be ahead of the global namespace: a namespace inside another
scope raises it at once. But what it reaches is always held by the entry of some open scope
(`State.Backed`), and that is passed on until it arrives in the global namespace.
-/
namespace Requisite

/-! ### Open scopes -/

/-- Category and name of a scope. -/
def Frame.key (f : Frame) : Category × String := (f.category, f.name)

namespace Scopes

/-- Category and name of all open scopes, innermost first, down to the file. -/
def openKeys (s : Scopes) : List (Category × String) :=
  s.frames.map Frame.key ++ [(.namespaces, globalNamespace)]

theorem current_mem_openKeys (s : Scopes) : s.current ∈ s.openKeys := by
  obtain ⟨global, _ | ⟨frame, rest⟩⟩ := s
  · exact List.mem_singleton_self _
  · exact List.mem_cons_self

theorem openKeys_of_pop? {s rest : Scopes} {frame : Frame} (h : s.pop? = some (frame, rest)) :
    s.openKeys = frame.key :: rest.openKeys := by
  obtain ⟨global, _ | ⟨first, others⟩⟩ := s
  · cases h
  · obtain ⟨rfl, rfl⟩ := Prod.mk.inj (Option.some.inj h)
    rfl

theorem frames_of_pop? {s rest : Scopes} {frame : Frame} (h : s.pop? = some (frame, rest)) :
    rest.frames = s.frames.tail := by
  obtain ⟨global, _ | ⟨first, others⟩⟩ := s
  · cases h
  · obtain ⟨rfl, rfl⟩ := Prod.mk.inj (Option.some.inj h)
    rfl

@[simp] theorem openKeys_modifyLocals (s : Scopes) (f : Locals → Locals) :
    (s.modifyLocals f).openKeys = s.openKeys := by
  obtain ⟨global, frames⟩ := s
  induction frames with
  | nil => rfl
  | cons frame rest ih =>
    obtain ⟨category, name, _ | locals⟩ := frame
    · rw [modifyLocals_sharing]
      exact congrArg ((category, name) :: ·) ih
    · rfl

end Scopes

namespace Analyzer

open Code (Event Node Tree)

namespace State

variable {s t : State}

/-- What the overall requirement reaches is held by the entry of an open scope. -/
def Backed (s : State) : Prop :=
  ∀ l, s.requires l → ∃ k ∈ s.scopes.openKeys, s.holds l k

theorem Backed.of_growsTo (h : s.Backed) (grown : s.GrowsTo t)
    (versions : t.metrics.versions = s.metrics.versions)
    (keys : s.scopes.openKeys ⊆ t.scopes.openKeys) : t.Backed := by
  intro l required
  obtain ⟨k, mem, held⟩ := h l (by rwa [requires, versions] at required)
  exact ⟨k, keys mem, grown.holds held⟩

end State

open State

theorem Moves.versions {s t : State} (h : Moves s t) :
    t.metrics.versions = s.metrics.versions := by
  induction h with
  | trans _ _ first second => exact second.trans first
  | refl | note | count | store | write | modify | push => rfl

theorem Moves.openKeys {s t : State} (h : Moves s t) :
    s.scopes.openKeys ⊆ t.scopes.openKeys := by
  induction h with
  | trans _ _ first second => exact fun k mem => second (first mem)
  | modify s f =>
    intro k mem
    rwa [← Scopes.openKeys_modifyLocals s.scopes f] at mem
  | push s category name => exact fun k mem => List.mem_cons_of_mem _ mem
  | refl | note | count | store | write => exact fun k mem => mem

theorem Moves.backed {s t : State} (h : Moves s t) (backed : s.Backed) : t.Backed :=
  backed.of_growsTo h.growsTo h.versions h.openKeys

namespace State

variable {s : State}

/-! ### Closing scopes -/

/-- A scope that is left passes what its entry holds on to the next one, before it is no longer
open. -/
theorem Backed.leaveScope (h : s.Backed) : s.leaveScope.Backed := by
  rcases pop : s.scopes.pop? with _ | ⟨frame, rest⟩
  · unfold State.leaveScope
    rw [pop]
    exact h
  · intro l required
    have keys := Scopes.openKeys_of_pop? pop
    have current := rest.current_mem_openKeys
    rw [leaveScope_of_pop? pop] at required ⊢
    rw [scopes_passOn, scopes_flush]
    -- what the entry of the scope holds goes into the entry of the scope around it
    have passed (held : (s.flush frame rest).holds l frame.key) :
        ∃ k ∈ rest.openKeys, ((s.flush frame rest).passOn frame.category frame.name).holds l k := by
      refine ⟨rest.current, current, holds_passOn.2 (Or.inr ⟨?_, held⟩)⟩
      rw [scopes_flush]
    rcases requires_passOn.1 required with before | ⟨-, held⟩
    · obtain ⟨k, mem, held⟩ := h l (requires_flush.1 before)
      have flushed : (s.flush frame rest).holds l k := (growsTo_flush s frame rest).holds held
      rw [keys] at mem
      rcases List.mem_cons.1 mem with rfl | outer
      · exact passed flushed
      · exact ⟨k, outer, holds_passOn.2 (Or.inl flushed)⟩
    · exact passed held

theorem frames_leaveScope (s : State) : s.leaveScope.scopes.frames = s.scopes.frames.tail := by
  rcases pop : s.scopes.pop? with _ | ⟨frame, rest⟩
  · have closed : s.scopes.frames = [] := by
      simpa [Scopes.depth] using Scopes.pop?_eq_none_iff.1 pop
    unfold leaveScope
    rw [pop]
    change s.scopes.frames = _
    rw [closed, List.tail_nil]
  · rw [leaveScope_of_pop? pop, scopes_passOn, scopes_flush]
    exact Scopes.frames_of_pop? pop

theorem frames_repeat_leaveScope (n : Nat) (s : State) :
    (Nat.repeat leaveScope n s).scopes.frames = s.scopes.frames.drop n := by
  induction n with
  | zero => rfl
  | succ n ih => rw [Nat.repeat, frames_leaveScope, ih, List.tail_drop]

theorem frames_closeScopes (s : State) : s.closeScopes.scopes.frames = [] := by
  unfold closeScopes
  split
  · rename_i none
    exact List.length_eq_zero_iff.1 none
  · rw [frames_repeat_leaveScope]
    exact List.drop_length

theorem Backed.closeScopes (h : s.Backed) : s.closeScopes.Backed := by
  have closed (n : Nat) (t : State) (ht : t.Backed) : (Nat.repeat State.leaveScope n t).Backed := by
    induction n with
    | zero => exact ht
    | succ n ih => exact ih.leaveScope
  unfold State.closeScopes
  split
  · exact h
  · exact closed _ _ h

/-! ### Sessions -/

theorem Backed.step (h : s.Backed) (env : Env) (event : Event) : (step env s event).Backed := by
  cases event with
  | enter node => exact (Moves.enter env s node).backed h
  | leave node =>
    cases scope : node.kind.isScope with
    | true =>
      change (s.leave env node).Backed
      rw [leave_scope env s scope]
      exact h.leaveScope
    | false => exact (Moves.leave env s node scope).backed h

theorem Backed.steps (h : s.Backed) (env : Env) (events : List Event) :
    (events.foldl (Analyzer.step env) s).Backed := by
  induction events generalizing s with
  | nil => exact h
  | cons event rest ih => exact ih (h.step env event)

theorem growsTo_steps (env : Env) (s : State) (events : List Event) :
    s.GrowsTo (events.foldl (Analyzer.step env) s) := by
  induction events generalizing s with
  | nil => exact .refl s
  | cons event rest ih =>
    have first : s.GrowsTo (Analyzer.step env s event) := by
      cases event with
      | enter node => exact growsTo_call env s (.enter node)
      | leave node => exact growsTo_call env s (.leave node)
    exact first.trans (ih _)

/-- Between files nothing is open, so the global namespace holds what the overall requirement
reaches. The global namespace belongs to the core extension as soon as it is there. -/
structure Between (s : State) : Prop where
  backed : ∀ l, s.requires l → s.holds l globalKey ∨ Range.user.reaches l
  core : ∀ r, s.metrics.elements.get? .namespaces globalNamespace = some r →
    r.extension = coreExtension

theorem between_fresh : ({} : State).Between :=
  ⟨fun _ required => Or.inr required, fun _ found => by cases found⟩

/-- The entry of the global namespace belongs to the core extension. -/
def HasCore (s : State) : Prop :=
  ∃ r, s.metrics.elements.get? .namespaces globalNamespace = some r ∧ r.extension = coreExtension

theorem HasCore.of_growsTo {t : State} (h : s.HasCore) (grown : s.GrowsTo t) : t.HasCore := by
  obtain ⟨r, found, core⟩ := h
  obtain ⟨r', found', grownAt⟩ := grown.entries globalKey r found
  exact ⟨r', found', grownAt.extension.trans core⟩

theorem Between.backed_beginFile (h : s.Between) (tree : Tree) : (s.beginFile tree).Backed := by
  intro l required
  have held : (begun s.metrics).holds l globalKey := by
    rcases h.backed l required with held | user
    · exact holds_begun.2 (Or.inl held)
    · exact holds_begun.2 (Or.inr ⟨Or.inl rfl, user⟩)
  exact ⟨globalKey, List.mem_singleton_self _, held⟩

theorem extension_widened (range : Range) (entry : Option Range) :
    (Elements.widened range entry).extension = (entry.getD range).extension := by
  unfold Elements.widened
  rw [(GrowsAt.merge globalKey _ range).extension]
  cases entry <;> rfl

theorem Between.hasCore_beginFile (h : s.Between) (tree : Tree) : (s.beginFile tree).HasCore := by
  let opened : State :=
    { s with file := tree.path, source := tree.source, scopes := {}, cache := [] }
  have seeded : (opened.update .namespaces globalNamespace coreRange).HasCore := by
    refine ⟨_, Grouped.get?_alter_self _ _ _ _, ?_⟩
    change (Elements.widened coreRange
      (s.metrics.elements.get? .namespaces globalNamespace)).extension = coreExtension
    rw [extension_widened]
    cases found : s.metrics.elements.get? .namespaces globalNamespace with
    | none => rfl
    | some r => exact h.core r found
  exact seeded.of_growsTo ((Moves.update _ _ _ _).trans (Moves.note _ rfl)).growsTo

/-! ### The end of a file -/

/-- What holds at the end of every file. -/
structure Closed (s : State) (global core : Range) : Prop where
  global_found : s.metrics.elements.get? .namespaces globalNamespace = some global
  extension : global.extension = coreExtension
  extensionMin : global.extensionMin = some .baseline
  versions : s.metrics.versions.equiv global.requirement
  core_found : s.metrics.elements.get? .extensions coreExtension = some core
  core_covers : global.requirement ≤ core.requirement

theorem exists_entry_flushFile (h : s.HasCore) :
    ∃ global, s.flushFile.metrics.elements.get? .namespaces globalNamespace = some global
      ∧ global.extension = coreExtension ∧ global.extensionMin = some .baseline := by
  obtain ⟨r, found, core⟩ := h
  refine ⟨_, Grouped.get?_alter_self _ _ _ _, ?_, rfl⟩
  rw [found]
  exact (extension_widened _ (some r)).trans core

/-- The end of a file widens the entry of the core extension and the overall requirement by the
entry of the global namespace. -/
theorem foldFile_of_flushed {global : Range} (core : global.extension = coreExtension)
    (flushed : s.flushFile.metrics.elements.get? .namespaces globalNamespace = some global) :
    s.foldFile = (s.flushFile.update .extensions coreExtension global).widen global := by
  have fileRange : s.flushFile.fileRange = global := by
    unfold State.fileRange
    rw [flushed]
    rfl
  rw [foldFile_eq, fileRange, core]

/-- Once all scopes are closed, the overall requirement is not ahead of the global namespace. -/
theorem Backed.holds_of_requires {l : Level} (h : s.Backed) (closed : s.scopes.frames = [])
    (required : s.requires l) : s.holds l globalKey := by
  obtain ⟨k, mem, held⟩ := h l required
  rw [Scopes.openKeys, closed] at mem
  rwa [List.mem_singleton.1 mem] at held

theorem requires_foldFile_iff_holds {l : Level} (h : s.Backed) (closed : s.scopes.frames = []) :
    s.foldFile.requires l ↔ s.foldFile.holds l globalKey := by
  rw [requires_foldFile closed, holds_foldFile closed (by decide)]
  simp only [true_and]
  refine ⟨fun reached => reached.elim (fun required => ?_) id, Or.inr⟩
  exact Or.inl (h.holds_of_requires closed required)

/-- Ending a file makes the two summaries agree. -/
theorem closed_endFile (backed : s.Backed) (hasCore : s.HasCore) :
    ∃ global core, s.endFile.Closed global core := by
  let c := s.closeScopes
  obtain ⟨global, flushed, extension, extensionMin⟩ :=
    exists_entry_flushFile (hasCore.of_growsTo (growsTo_closeScopes s))
  have folded : s.endFile.metrics
      = ((c.flushFile.update .extensions coreExtension global).widen global).metrics := by
    rw [metrics_endFile_eq, foldFile_of_flushed extension flushed]
  have kept : s.endFile.metrics.elements.get? .namespaces globalNamespace = some global := by
    rw [folded]
    exact (Grouped.get?_alter_of_ne _ _ (by simp)).trans flushed
  have core : s.endFile.metrics.elements.get? .extensions coreExtension
      = some (Elements.widened global
        (c.flushFile.metrics.elements.get? .extensions coreExtension)) := by
    rw [folded]
    exact Grouped.get?_alter_self _ _ _ _
  refine ⟨global, _, kept, extension, extensionMin, ?_, core, ?_⟩
  · rw [Requirement.equiv_iff_reaches]
    intro l
    have entry : c.foldFile.holds l globalKey ↔ global.reaches l := by
      unfold holds Elements.holds
      rw [show c.foldFile.metrics.elements.get? globalKey.1 globalKey.2 = some global from kept]
      simp
    exact (requires_foldFile_iff_holds backed.closeScopes (frames_closeScopes s)).trans entry
  · rw [Requirement.le_iff_reaches]
    exact fun l reaches => Elements.reaches_widened.2 (Or.inr reaches)

theorem scopes_endFile (s : State) : s.endFile.scopes = {} := by
  change Scopes.mk {} s.closeScopes.scopes.frames = {}
  rw [frames_closeScopes]

theorem Closed.between {global core : Range} (h : s.Closed global core) : s.Between := by
  refine ⟨fun l required => Or.inl ⟨global, h.global_found, ?_⟩, fun r found => ?_⟩
  · exact (Requirement.equiv_iff_reaches.1 h.versions l).1 required
  · obtain rfl : r = global := Option.some.inj (found.symm.trans h.global_found)
    exact h.extension

end State

/-- What is done between the beginning and the end of a file: any events, balanced or not. -/
structure Session where
  tree : Tree
  events : List Event

def Session.run (env : Env) (s : State) (session : Session) : State :=
  (session.events.foldl (step env) (s.beginFile session.tree)).endFile

theorem Session.closed_run (env : Env) {s : State} (h : s.Between) (session : Session) :
    ∃ global core, (session.run env s).Closed global core := by
  have backed := (h.backed_beginFile session.tree).steps env session.events
  have hasCore := (h.hasCore_beginFile session.tree).of_growsTo
    (growsTo_steps env _ session.events)
  exact closed_endFile backed hasCore

theorem Session.between_foldl (env : Env) (sessions : List Session) {s : State} (h : s.Between) :
    (sessions.foldl (Session.run env) s).Between := by
  induction sessions generalizing s with
  | nil => exact h
  | cons session rest ih =>
    obtain ⟨global, core, closed⟩ := session.closed_run env h
    exact ih closed.between

/-- At the end of every file of a run, whatever events there were, the overall requirement is that
of the global namespace, which belongs to the core extension with its first version, the core
extension requires no less, and all scopes are closed with nothing left in the locals of the
file. -/
theorem summaries_agree (env : Env) (earlier : List Session) (last : Session) :
    let s := (earlier ++ [last]).foldl (Session.run env) {}
    (∃ global core, s.metrics.elements.get? .namespaces globalNamespace = some global
        ∧ global.extension = coreExtension ∧ global.extensionMin = some .baseline
        ∧ s.metrics.versions.equiv global.requirement
        ∧ s.metrics.elements.get? .extensions coreExtension = some core
        ∧ global.requirement ≤ core.requirement)
      ∧ s.scopes.depth = 1 ∧ s.scopes.locals.aliases = {}
      ∧ s.scopes.locals.accumulator = .user := by
  intro s
  have final : s = last.run env (earlier.foldl (Session.run env) {}) := by
    simp only [s, List.foldl_append, List.foldl_cons, List.foldl_nil]
  have scopes : s.scopes = {} := by
    rw [final]
    exact scopes_endFile _
  obtain ⟨global, core, closed⟩ :=
    last.closed_run env (Session.between_foldl env earlier between_fresh)
  rw [← final] at closed
  refine ⟨⟨global, core, closed.global_found, closed.extension, closed.extensionMin,
    closed.versions, closed.core_found, closed.core_covers⟩, ?_⟩
  rw [scopes]
  exact ⟨rfl, rfl, rfl⟩

end Analyzer

end Requisite
