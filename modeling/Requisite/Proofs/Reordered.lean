import Requisite.Proofs.Counters
import Requisite.Proofs.Entries
import Requisite.Proofs.Overall

/-!
# The order of files

The table goes on from file to file, and what stands in it is folded into the scopes of later files.
So bounds may depend on the order of files. Nothing else does: which elements have entries, how
often they were used, whether they were guarded, and the counters are all sums or unions over the
trees of a run, and a permutation of the trees leaves these alone. Without guards the bounds of the
overall requirement are the greatest of what the trees require, which is no matter of order either
(`order_of_files_immaterial`).
-/
namespace Requisite

theorem Mark.after_perm (mark : Mark) (k : Category × String)
    {uses guarded uses' guarded' : List (Category × String)} (hu : uses.Perm uses')
    (hg : guarded.Perm guarded') : mark.after k uses guarded = mark.after k uses' guarded' := by
  have contains : guarded.contains k = guarded'.contains k := by
    rw [Bool.eq_iff_iff, List.contains_iff_mem, List.contains_iff_mem]
    exact hg.mem_iff
  rw [after, after, hu.count_eq, contains]

/-- A mark is found where there is an entry. -/
theorem Elements.map_mark_eq {t t' : Elements} {k : Category × String}
    (entries : t.has k ↔ t'.has k) (marks : t.mark k = t'.mark k) :
    (t.get? k.1 k.2).map Range.mark = (t'.get? k.1 k.2).map Range.mark := by
  unfold has at entries
  unfold mark at marks
  cases found : t.get? k.1 k.2 with
  | none =>
    cases found' : t'.get? k.1 k.2 with
    | none => rfl
    | some r => simp [found, found'] at entries
  | some r =>
    cases found' : t'.get? k.1 k.2 with
    | none => simp [found, found'] at entries
    | some r' => simpa [found, found'] using marks

namespace Analyzer

open Code (Name Node Tree)

variable {env : Env} {trees trees' : List Tree}

theorem runTally_perm (env : Env) (h : trees.Perm trees') :
    runTally env trees = runTally env trees' := by
  have swapped (first second : Tree) (stats : Stats) :
      treeTally env second + (treeTally env first + stats)
        = treeTally env first + (treeTally env second + stats) := Stats.add_left_comm ..
  exact h.foldr_eq' (fun first _ second _ stats => swapped first second stats) _

theorem has_analyzeAll_perm (env : Env) (h : trees.Perm trees') (k : Key) :
    (analyzeAll env {} trees).has k ↔ (analyzeAll env {} trees').has k := by
  rw [has_analyzeAll State.between_fresh, has_analyzeAll State.between_fresh]
  simp only [h.mem_iff]

theorem mark_analyzeAll_perm (env : Env) (h : trees.Perm trees') (k : Key) :
    (analyzeAll env {} trees).mark k = (analyzeAll env {} trees').mark k := by
  unfold State.mark
  rw [mark_analyzeAll, mark_analyzeAll]
  exact Mark.after_perm _ k (h.flatMap_right _) (h.flatMap_right _)

/-- No range is found for a guard where no guard asks for a literal. -/
theorem guardedRanges_eq_nil (unguarded : ∀ tree ∈ trees, ∀ v ∈ visits tree, v.guards = []) :
    guardedRanges env trees = [] := by
  refine List.flatMap_eq_nil_iff.2 fun tree ht => ?_
  have none : (visits tree).flatMap Visit.guards = [] :=
    List.flatMap_eq_nil_iff.2 (unguarded tree ht)
  have keys := guarded_outline env tree
  rw [none, List.map_nil, List.map_eq_nil_iff] at keys
  rw [keys, List.map_nil]

/-- Without guards the overall requirement reaches what one of the trees requires. -/
theorem reaches_versions_iff (unguarded : guardedRanges env trees = []) (l : Level) :
    (analyzeAll env {} trees).metrics.versions.reaches l
      ↔ ∃ r ∈ .user :: requiredRanges env trees, r.reaches l := by
  obtain ⟨sources, sub, drawn⟩ := versions_drawnFrom env trees
  rw [unguarded, List.append_nil] at sub
  constructor
  · intro reached
    obtain ⟨r, hr, reaches⟩ := (drawn l).1 reached
    exact ⟨r, sub hr, reaches⟩
  · rintro ⟨r, hr, reaches⟩
    have covered : r.requirement ≤ (analyzeAll env {} trees).metrics.versions := by
      rcases List.mem_cons.1 hr with rfl | required
      · exact ⟨baseline_le_versions env trees, trivial⟩
      · exact versions_covers env {} trees r required
    exact Requirement.le_iff_reaches.1 covered l reaches

/-- What is found does not depend on the order of files: the same elements have entries, with the
same number of uses and the same mark of a guard, and the counters agree. Where no guard asks for a
literal, the bounds of the overall requirement agree as well. -/
theorem order_of_files_immaterial (env : Env) (trees trees' : List Tree)
    (h : trees.Perm trees') :
    let run := analyzeAll env {} trees
    let run' := analyzeAll env {} trees'
    (∀ category name,
        (run.metrics.elements.get? category name).map (fun r => (r.usageCount, r.optional))
          = (run'.metrics.elements.get? category name).map fun r => (r.usageCount, r.optional))
      ∧ run.stats = run'.stats
      ∧ ((∀ tree ∈ trees, ∀ v ∈ visits tree, v.guards = []) →
        run.metrics.versions.equiv run'.metrics.versions) := by
  intro run run'
  refine ⟨fun category name => ?_, ?_, fun unguarded => ?_⟩
  · have marks := Elements.map_mark_eq (has_analyzeAll_perm env h (category, name))
      (mark_analyzeAll_perm env h (category, name))
    have pairs := congrArg (Option.map fun mark => (mark.uses, mark.optional)) marks
    rwa [Option.map_map, Option.map_map] at pairs
  · change (analyzeAll env {} trees).stats = (analyzeAll env {} trees').stats
    rw [stats_analyzeAll, stats_analyzeAll, runTally_perm env h]
  · have unguarded' : ∀ tree ∈ trees', ∀ v ∈ visits tree, v.guards = [] :=
      fun tree ht => unguarded tree (h.mem_iff.2 ht)
    have required := h.flatMap_right fun tree => (outline env tree).required
    refine Requirement.equiv_iff_reaches.2 fun l => ?_
    rw [reaches_versions_iff (guardedRanges_eq_nil unguarded),
      reaches_versions_iff (guardedRanges_eq_nil unguarded')]
    simp only [List.mem_cons, requiredRanges, required.mem_iff]

-- A guard can make the order matter. If the table already has what was found for a guarded function
-- when a substitute for it is left, that is folded into the file of the substitute.
example :
    let env : Env :=
      { references := fun _ name _ => if name = "f" then some (.since (.release 5 5 0)) else none }
    let guarding : Tree :=
      { path := "g.php"
        nodes := [⟨0, .call (some (Name.ofParts ["function_exists"])) [.string "f"], {}, []⟩] }
    let substituting : Tree :=
      { path := "f.php", nodes := [⟨0, .functionDecl (Name.ofParts ["f"]), {}, []⟩] }
    (analyzeAll env {} [guarding, substituting]).metrics.versions = { min := .release 5 5 0 }
      ∧ (analyzeAll env {} [substituting, guarding]).metrics.versions = {} := by
  decide +kernel

/-- A file with an object of the class in the nested power: in either order the class is used twice,
and counters and overall requirement agree. -/
theorem nested_power_in_either_order :
    let env : Env := { references := fun _ _ _ => none }
    let object : Tree :=
      { path := "g.php", nodes := [⟨0, .new (some (Name.ofParts ["f"])) 0, {}, []⟩] }
    [nestedPower, object].Perm [object, nestedPower]
      ∧ (∀ tree ∈ [nestedPower, object], ∀ v ∈ visits tree, v.guards = [])
      ∧ ((analyzeAll env {} [object, nestedPower]).metrics.elements.get? .classes "f").map
        (fun r => (r.usageCount, r.optional)) = some (2, false)
      ∧ (analyzeAll env {} [nestedPower, object]).stats
        = (analyzeAll env {} [object, nestedPower]).stats
      ∧ (analyzeAll env {} [nestedPower, object]).metrics.versions.equiv
        (analyzeAll env {} [object, nestedPower]).metrics.versions := by
  intro env object
  have swapped : [nestedPower, object].Perm [object, nestedPower] := .swap ..
  have unguarded : ∀ tree ∈ [nestedPower, object], ∀ v ∈ visits tree, v.guards = [] := by
    decide +kernel
  obtain ⟨marks, stats, versions⟩ :=
    order_of_files_immaterial env [nestedPower, object] [object, nestedPower] swapped
  refine ⟨swapped, unguarded, (marks .classes "f").symm.trans ?_, stats, versions unguarded⟩
  decide +kernel

end Analyzer

end Requisite
