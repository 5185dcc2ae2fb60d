import Requisite.Proofs.Flow
import Requisite.Proofs.Moves

/-!
# Nothing is taken back

Whatever calls are made and in whatever order, the findings of an analysis only grow. Entries stay
in the table, with the extension and the excluded releases that they were created with. Bounds and
counters are raised and never lowered, and what was marked as optional remains so. The one exception
is the lower bound on the extension of the global namespace, which is set anew at the end of a file.

Of one call this follows from what moves and the closing of a scope do to a single entry. The
relation is transitive, so it holds along whole runs.
-/
namespace Requisite.Analyzer

open Code (Node Tree)

namespace State

/-- All that was found in the first state is found in the second one as well. -/
structure GrowsTo (s t : State) : Prop where
  entries : ∀ (k : Key) (r : Range), s.metrics.elements.get? k.1 k.2 = some r →
    ∃ r', t.metrics.elements.get? k.1 k.2 = some r' ∧ GrowsAt k r r'
  versions : s.metrics.versions ≤ t.metrics.versions
  stats : s.stats ≤ t.stats

namespace GrowsTo

variable {s t u : State}

theorem of_eq (metrics : t.metrics = s.metrics) (stats : t.stats = s.stats) : s.GrowsTo t := by
  refine ⟨fun k r found => ⟨r, metrics ▸ found, .refl k r⟩, ?_, ?_⟩
  · rw [metrics]
    exact Requirement.le_refl _
  · rw [stats]
    exact Stats.le_refl _

theorem refl (s : State) : s.GrowsTo s := of_eq rfl rfl

theorem trans (hst : s.GrowsTo t) (htu : t.GrowsTo u) : s.GrowsTo u where
  entries k r found := by
    obtain ⟨r', found', grown⟩ := hst.entries k r found
    obtain ⟨r'', found'', grown'⟩ := htu.entries k r' found'
    exact ⟨r'', found'', grown.trans grown'⟩
  versions := Requirement.le_trans hst.versions htu.versions
  stats := Stats.le_trans hst.stats htu.stats

theorem count (s : State) {f : Stats → Stats} (grows : ∀ stats, stats ≤ f stats) :
    s.GrowsTo (s.count f) :=
  { refl s with stats := grows s.stats }

theorem widen (s : State) (range : Range) : s.GrowsTo (s.widen range) :=
  { refl s with versions := Requirement.le_widen _ range }

theorem write (s : State) (category : Category) (name : String) (range : Range)
    {change : Range → Range} (grows : ∀ r, GrowsAt (category, name) r (change r)) :
    s.GrowsTo (s.modifyElements fun t => t.updateWith category name range change) := by
  refine ⟨fun k r found => ?_, Requirement.le_refl _, Stats.le_refl _⟩
  change ∃ r', (Elements.updateWith _ _ _ _ _).get? k.1 k.2 = some r' ∧ _
  unfold Elements.updateWith
  by_cases same : k.1 = category ∧ k.2 = name
  · obtain ⟨rfl, rfl⟩ := same
    -- an entry that is there already is merged with the range and then changed
    rw [Grouped.get?_alter_self, found]
    exact ⟨_, rfl, (GrowsAt.merge k r range).trans (grows _)⟩
  · rw [Grouped.get?_alter_of_ne _ _ same]
    exact ⟨r, found, .refl k r⟩

end GrowsTo

/-- The levels that an entry holds are never lost. -/
theorem GrowsTo.holds {s t : State} (h : s.GrowsTo t) {l : Level} {k : Key} (held : s.holds l k) :
    t.holds l k := by
  obtain ⟨r, found, reaches⟩ := held
  obtain ⟨r', found', grown⟩ := h.entries k r found
  exact ⟨r', found', Requirement.le_iff_reaches.1 grown.requirement l reaches⟩

end State

open State

theorem Moves.growsTo {s t : State} (h : Moves s t) : s.GrowsTo t := by
  induction h with
  | refl s => exact .refl s
  | trans _ _ first second => exact first.trans second
  | count s grows => exact .count s grows
  | write s category name range grows => exact .write s category name range grows
  | note | store | modify | push => exact .of_eq rfl rfl

/-! ### Closing scopes -/

namespace State

theorem growsTo_flush (s : State) (frame : Frame) (scopes : Scopes) :
    s.GrowsTo (s.flush frame scopes) := by
  have popped : s.GrowsTo { s with scopes } := .of_eq rfl rfl
  unfold flush
  cases frame.locals with
  | none => exact popped
  | some locals => exact popped.trans (Moves.update _ _ _ _).growsTo

theorem growsTo_passOn (s : State) (category : Category) (name : String) :
    s.GrowsTo (s.passOn category name) := by
  unfold passOn
  split
  · exact .refl s
  · rename_i range _
    have merged := (Moves.mergeIntoCurrent s range).growsTo
    split
    · exact merged.trans (.widen _ _)
    · exact merged

theorem growsTo_leaveScope (s : State) : s.GrowsTo s.leaveScope := by
  rcases pop : s.scopes.pop? with _ | ⟨frame, scopes⟩
  · unfold leaveScope
    rw [pop]
    exact .of_eq rfl rfl
  · rw [leaveScope_of_pop? pop]
    exact (growsTo_flush s frame scopes).trans (growsTo_passOn _ _ _)

/-! ### Outlines -/

theorem growsTo_perform (s : State) (action : Action) : s.GrowsTo (s.perform action) := by
  refine Moves.growsTo ?_
  cases action with
  | construct c => exact .apply s c
  | parameter variadic =>
    unfold perform
    dsimp only
    split
    · exact .accumulate s _
    · exact .refl s
  | hint className => exact (Moves.mergeIntoCurrent s _).trans (.use _ _ _ _)
  | assign target value => exact .modify s _
  | reference category name range => exact .recordReference s category name range
  | guard g element range => exact (Moves.makeOptional s _ _ _).trans (.use _ _ _ _)
  | dynamicGuard => exact .refl s
  | define constant => exact .update s _ _ _

theorem growsTo_declare (s : State) (d : Declaration) : s.GrowsTo (s.declare d) := by
  have used := Moves.foldl (fun s (head : Key × Range) => Moves.use s head.1.1 head.1.2 head.2)
    d.heads s
  exact (used.trans (.enterScope _ _ _ _)).growsTo

theorem growsTo_follow (s : State) (o : Outline) : s.GrowsTo (s.follow o) := by
  induction o generalizing s with
  | nothing => exact .refl s
  | act action => exact growsTo_perform s action
  | seq first second ihf ihs => exact (ihf s).trans (ihs _)
  | scope d body ih =>
    exact ((growsTo_declare s d).trans (ih _)).trans (growsTo_leaveScope _)

/-! ### Ends of files -/

theorem growsTo_closeScopes (s : State) : s.GrowsTo s.closeScopes := by
  have closed (n : Nat) (s : State) : s.GrowsTo (Nat.repeat leaveScope n s) := by
    induction n with
    | zero => exact .refl s
    | succ n ih => exact ih.trans (growsTo_leaveScope _)
  unfold closeScopes
  split
  · exact .refl s
  · have noted (n : Notice) : s.GrowsTo (s.note n) := .of_eq rfl rfl
    exact (noted _).trans (closed _ _)

theorem growsTo_flushFile (s : State) : s.GrowsTo s.flushFile := by
  have taken : s.GrowsTo { s with scopes := s.scopes.takeGlobal.2 } := .of_eq rfl rfl
  refine taken.trans (.write _ _ _ _ fun r => ?_)
  exact { GrowsAt.refl globalKey r with extensionMin := fun other => absurd rfl other }

theorem endFile_eq (s : State) : s.endFile = s.closeScopes.foldFile.count fun stats =>
    { stats with filesAnalyzed := stats.filesAnalyzed + 1 } := rfl

theorem growsTo_foldFile (s : State) : s.GrowsTo s.foldFile := by
  rw [foldFile_eq]
  exact ((growsTo_flushFile s).trans (Moves.update _ _ _ _).growsTo).trans (.widen _ _)

theorem growsTo_endFile (s : State) : s.GrowsTo s.endFile := by
  rw [endFile_eq]
  exact ((growsTo_closeScopes s).trans (growsTo_foldFile _)).trans
    (.count _ fun _ => Stats.le_iff.2 (by simp))

theorem growsTo_beginFile (s : State) (tree : Tree) : s.GrowsTo (s.beginFile tree) := by
  have fresh : s.GrowsTo
      { s with file := tree.path, source := tree.source, scopes := {}, cache := [] } :=
    .of_eq rfl rfl
  exact fresh.trans (((Moves.update _ _ _ _).trans (Moves.update _ _ _ _)).trans
    (Moves.note _ rfl)).growsTo

theorem growsTo_leave (env : Env) (s : State) (node : Node) : s.GrowsTo (s.leave env node) := by
  cases scope : node.kind.isScope with
  | true =>
    rw [leave_scope env s scope]
    exact growsTo_leaveScope s
  | false => exact (Moves.leave env s node scope).growsTo

end State

/-! ### Calls in any order -/

/-- A call of an analysis. -/
inductive Call where
  | beginFile (tree : Tree)
  | enter (node : Node)
  | leave (node : Node)
  | endFile

def State.call (env : Env) (s : State) : Call → State
  | .beginFile tree => s.beginFile tree
  | .enter node => s.enter env node
  | .leave node => s.leave env node
  | .endFile => s.endFile

theorem State.growsTo_call (env : Env) (s : State) (call : Call) : s.GrowsTo (s.call env call) := by
  cases call with
  | beginFile tree => exact growsTo_beginFile s tree
  | enter node => exact (Moves.enter env s node).growsTo
  | leave node => exact growsTo_leave env s node
  | endFile => exact growsTo_endFile s

/-- The findings only grow: from any state, and whatever calls are made, no entry disappears, every
entry keeps its extension and its excluded releases, and no bound, count or mark of it is lowered,
and neither is the overall requirement or a counter. -/
theorem findings_only_grow (env : Env) (s : State) (calls : List Call) :
    s.GrowsTo (calls.foldl (State.call env) s) := by
  induction calls generalizing s with
  | nil => exact .refl s
  | cons call rest ih => exact (growsTo_call env s call).trans (ih (s.call env call))

end Requisite.Analyzer
