import Requisite.Proofs.Flow
import Requisite.Proofs.Sites

/-!
# Marks

Besides its bounds an entry says how often its element was used, and whether it was guarded. Bounds
are passed from entry to entry, but these marks are not: a use is counted where it is met, and the
mark of a guard stays with the guarded element. So the marks after a run can be read off the
outlines of its trees, and so can the elements that have an entry at all.
-/
namespace Requisite

/-- What an entry says besides bounds. -/
structure Mark where
  uses : Nat := 0
  optional : Bool := false
deriving DecidableEq

/-- The mark of `k` after some uses and guards of elements. -/
def Mark.after (mark : Mark) (k : Category × String) (uses guarded : List (Category × String)) :
    Mark :=
  { uses := mark.uses + uses.count k, optional := mark.optional || guarded.contains k }

theorem Mark.after_nil (mark : Mark) (k : Category × String) : mark.after k [] [] = mark := by
  simp [after]

theorem Mark.after_after (mark : Mark) (k : Category × String)
    (uses guarded uses' guarded' : List (Category × String)) :
    (mark.after k uses guarded).after k uses' guarded'
      = mark.after k (uses ++ uses') (guarded ++ guarded') := by
  simp [after, Nat.add_assoc, Bool.or_assoc]

/-- The mark of an entry. -/
def Range.mark (r : Range) : Mark :=
  { uses := r.usageCount, optional := r.optional }

namespace Elements

/-- The mark of an element; it has none without an entry. -/
def mark (t : Elements) (k : Category × String) : Mark :=
  (t.get? k.1 k.2).elim {} Range.mark

theorem mark_widened (range : Range) (entry : Option Range) :
    (widened range entry).mark = entry.elim {} Range.mark := by
  have merged (r other : Range) : (r.merge other).mark = r.mark := by
    unfold Range.merge
    dsimp only
    split <;> rfl
  rw [widened, merged]
  cases entry <;> rfl

/-- A change of an entry leaves all other marks alone. -/
theorem mark_updateWith {t : Elements} {category : Category} {name : String} {range : Range}
    {change : Range → Range} {k : Category × String} {uses guarded : List (Category × String)}
    (here : ∀ r, k = (category, name) → (change r).mark = r.mark.after k uses guarded)
    (elsewhere : k ≠ (category, name) → k ∉ uses ∧ k ∉ guarded) :
    (t.updateWith category name range change).mark k = (t.mark k).after k uses guarded := by
  unfold mark updateWith
  by_cases h : k = (category, name)
  · subst h
    rw [Grouped.get?_alter_self, Option.elim_some, here _ rfl, mark_widened]
  · obtain ⟨unused, unguarded⟩ := elsewhere h
    have ne : ¬(k.1 = category ∧ k.2 = name) := fun both => h (Prod.ext both.1 both.2)
    rw [Grouped.get?_alter_of_ne t _ ne]
    simp [Mark.after, List.count_eq_zero.2 unused, unguarded]

variable {t : Elements} {category : Category} {name : String} {range : Range}
  {k : Category × String}

/-- A change that leaves the mark of an entry alone. -/
theorem mark_updateWith_of_kept {change : Range → Range} (h : ∀ r, (change r).mark = r.mark) :
    (t.updateWith category name range change).mark k = t.mark k := by
  have kept : (t.updateWith category name range change).mark k = (t.mark k).after k [] [] :=
    mark_updateWith (fun r _ => (h r).trans (Mark.after_nil ..).symm) (by simp)
  rw [kept, Mark.after_nil]

theorem mark_update : (t.update category name range).mark k = t.mark k :=
  mark_updateWith_of_kept fun _ => rfl

theorem mark_use :
    (t.use category name range).mark k = (t.mark k).after k [(category, name)] [] := by
  refine mark_updateWith (fun r here => ?_) (by simp)
  simp [here, Range.mark, Mark.after]

theorem mark_makeOptional :
    (t.makeOptional category name range).mark k = (t.mark k).after k [] [(category, name)] := by
  refine mark_updateWith (fun r here => ?_) (by simp)
  simp [here, Range.mark, Mark.after]

end Elements

namespace Analyzer

open Code (Tree)

namespace State

/-- The mark of an element. -/
def mark (s : State) (k : Key) : Mark :=
  s.metrics.elements.mark k

variable {s : State} {k : Key}

/-! ### Marks along outlines -/

theorem mark_update {category : Category} {name : String} {range : Range} :
    (s.update category name range).mark k = s.mark k :=
  Elements.mark_update

theorem mark_use {category : Category} {name : String} {range : Range} :
    (s.use category name range).mark k = (s.mark k).after k [(category, name)] [] :=
  Elements.mark_use

theorem mark_recordReference {category : Category} {name : String} {range : Range} :
    (s.recordReference category name range).mark k
      = (s.mark k).after k [(category, name)] [] := by
  unfold recordReference
  cases range.isUser <;> cases owns : s.scopes.ownsLocals <;>
    simp [mark, owns, count, use, update, modifyElements, mergeIntoCurrent, Elements.mark_update,
      Elements.mark_use]

theorem mark_perform {action : Action} :
    (s.perform action).mark k
      = (s.mark k).after k action.uses (action.guarded.map (·.1)) := by
  have same {t : State} (h : t.mark k = s.mark k) : t.mark k = (s.mark k).after k [] [] :=
    h.trans (Mark.after_nil ..).symm
  cases action with
  | construct c =>
    refine same ?_
    change (s.apply c).mark k = _
    unfold apply
    split
    · exact mark_update
    · rfl
  | parameter variadic => cases variadic <;> exact same rfl
  | hint className =>
    refine mark_use.trans ?_
    have merged : (s.mergeIntoCurrent hintRange).mark k = s.mark k := mark_update
    rw [merged]
    rfl
  | reference category name range => exact mark_recordReference
  | guard g element range =>
    refine mark_use.trans ?_
    have marked : (s.modifyElements fun t => t.makeOptional g.category element range).mark k
        = (s.mark k).after k [] [(g.category, element)] := Elements.mark_makeOptional
    rw [marked, Mark.after_after]
    rfl
  | assign | dynamicGuard => exact same rfl
  | define constant => exact same mark_update

theorem mark_declare {d : Declaration} :
    (s.declare d).mark k = (s.mark k).after k (d.heads.map (·.1)) [] := by
  have used (heads : List (Key × Range)) :
      (heads.foldl (fun s head => s.use head.1.1 head.1.2 head.2) s).mark k
        = (s.mark k).after k (heads.map (·.1)) [] := by
    induction heads generalizing s with
    | nil => exact (Mark.after_nil ..).symm
    | cons head rest ih =>
      rw [List.foldl_cons, ih, mark_use, Mark.after_after]
      rfl
  exact Elements.mark_update.trans (used d.heads)

/-- Leaving a scope keeps whatever depends neither on the scopes nor on bounds. -/
theorem leaveScope_kept {α : Type} (view : State → α)
    (note : ∀ s n, view (note s n) = view s) (scopes : ∀ s scopes, view { s with scopes } = view s)
    (update : ∀ s category name range, view (update s category name range) = view s)
    (widen : ∀ s range, view (widen s range) = view s) (s : State) :
    view s.leaveScope = view s := by
  rcases pop : s.scopes.pop? with _ | ⟨frame, rest⟩
  · unfold leaveScope
    rw [pop]
    exact note s _
  · have passed (t : State) (category : Category) (name : String) :
        view (t.passOn category name) = view t := by
      unfold passOn
      split
      · rfl
      · split
        · exact (widen _ _).trans (update t _ _ _)
        · exact update t _ _ _
    have flushed : view (s.flush frame rest) = view s := by
      unfold flush
      cases frame.locals with
      | none => exact scopes s rest
      | some locals => exact (update _ _ _ _).trans (scopes s rest)
    rw [leaveScope_of_pop? pop, passed, flushed]

theorem mark_leaveScope : s.leaveScope.mark k = s.mark k :=
  leaveScope_kept (fun s => s.mark k) (fun _ _ => rfl) (fun _ _ => rfl)
    (fun _ _ _ _ => mark_update) (fun _ _ => rfl) s

/-- What an outline uses and guards is marked, and nothing else. -/
theorem mark_follow {o : Outline} :
    (s.follow o).mark k = (s.mark k).after k o.uses (o.guarded.map (·.1)) := by
  induction o generalizing s with
  | nothing => exact (Mark.after_nil ..).symm
  | act action => exact mark_perform
  | seq first second ihf ihs =>
    rw [follow, ihs, ihf, Mark.after_after, Outline.uses, Outline.guarded, List.map_append]
  | scope d body ih =>
    rw [follow, mark_leaveScope, ih, mark_declare, Mark.after_after]
    rfl

theorem mark_foldFile : s.foldFile.mark k = s.mark k := by
  have flushed : s.flushFile.mark k = s.mark k := Elements.mark_updateWith_of_kept fun _ => rfl
  rw [foldFile_eq]
  exact mark_update.trans flushed

end State

open State

/-! ### Marks of a run -/

theorem mark_afterFile (m : Metrics) (o : Outline) (k : Key) :
    (afterFile m o).elements.mark k
      = (m.elements.mark k).after k o.uses (o.guarded.map (·.1)) := by
  have begun : (begun m).mark k = m.elements.mark k :=
    Elements.mark_update.trans Elements.mark_update
  rw [afterFile_eq]
  change ((State.begun m).follow o).foldFile.mark k = _
  rw [mark_foldFile, mark_follow, begun]

/-- The marks after a run are those of the uses and guards in its trees. -/
theorem mark_analyzeAll (env : Env) (s : State) (trees : List Tree) (k : Key) :
    (analyzeAll env s trees).metrics.elements.mark k
      = (s.metrics.elements.mark k).after k (trees.flatMap fun tree => (outline env tree).uses)
        (trees.flatMap fun tree => (outline env tree).guarded.map (·.1)) := by
  have files (outlines : List Outline) (m : Metrics) :
      (outlines.foldl afterFile m).elements.mark k
        = (m.elements.mark k).after k (outlines.flatMap Outline.uses)
          (outlines.flatMap fun o => o.guarded.map (·.1)) := by
    induction outlines generalizing m with
    | nil => exact (Mark.after_nil ..).symm
    | cons o rest ih => rw [List.foldl_cons, ih, mark_afterFile, Mark.after_after]; rfl
  rw [metrics_analyzeAll, files, List.flatMap_map, List.flatMap_map]

end Analyzer

end Requisite
