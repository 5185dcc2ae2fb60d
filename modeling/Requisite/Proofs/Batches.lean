import Requisite.Project

/-!
# Batches do not matter

A run loads the trees of a project batch by batch, and the size of a batch depends on the number of
threads. The analyzer goes on from one batch to the next where it was, so a run comes to the same as
loading everything and analyzing the trees one after the other, however the paths are cut into
batches (`foldlM_runBatch`). All that can be different is whether the threads can be started at all,
which is up to the machine (`run_of_start_eq_error`).
-/
namespace Requisite

theorem Analyzer.analyzeAll_append (env : Env) (s : State) (trees more : List Code.Tree) :
    analyzeAll env s (trees ++ more) = analyzeAll env (analyzeAll env s trees) more :=
  List.foldl_append

namespace Project

variable {references : References} {machine : Machine} {load : String → Except Error Code.Tree}

theorem flatten_batches {α : Type} (size : Nat) (list : List α) :
    (batches size list).flatten = list := by
  fun_induction batches size list with
  | case1 => rfl
  | case2 a rest ih => simp [ih]

/-- Any number of batches, whatever their sizes, are as good as a single one. -/
theorem foldlM_runBatch (pieces : List (List String)) (s : Analyzer.State) :
    pieces.foldlM (runBatch references load) s = runBatch references load s pieces.flatten := by
  induction pieces generalizing s with
  | nil => rfl
  | cons piece rest ih =>
    simp only [List.foldlM_cons, ih, runBatch, List.flatten_cons, List.mapM_append]
    cases piece.mapM load with
    | error e => rfl
    | ok trees =>
      cases rest.flatten.mapM load with
      | error e => rfl
      | ok more => exact congrArg Except.ok (Analyzer.analyzeAll_append _ s trees more).symm

theorem mapM_eq_ok_iff {paths : List String} {trees : List Code.Tree} :
    paths.mapM load = .ok trees ↔ paths.map load = trees.map .ok := by
  induction paths generalizing trees with
  | nil => cases trees <;> simp [pure, Except.pure]
  | cons path paths ih =>
    simp only [List.mapM_cons, List.map_cons]
    cases load path with
    | error e => cases trees <;> simp [bind, Except.bind]
    | ok tree =>
      cases rest : paths.mapM load with
      | error e => cases trees <;> simp [bind, Except.bind, ← ih, rest]
      | ok loaded => cases trees <;> simp [bind, Except.bind, pure, Except.pure, ← ih, rest]

theorem exists_map_eq_iff {paths : List String} :
    (∃ trees : List Code.Tree, paths.map load = trees.map .ok)
      ↔ ∀ path ∈ paths, ∃ tree, load path = .ok tree := by
  constructor
  · rintro ⟨trees, loaded⟩ path mem
    have mem' : load path ∈ trees.map Except.ok := loaded ▸ List.mem_map_of_mem mem
    obtain ⟨tree, -, eq⟩ := List.mem_map.1 mem'
    exact ⟨tree, eq.symm⟩
  · intro all
    induction paths with
    | nil => exact ⟨[], rfl⟩
    | cons path paths ih =>
      obtain ⟨tree, first⟩ := all path List.mem_cons_self
      obtain ⟨trees, rest⟩ := ih fun p mem => all p (List.mem_cons_of_mem _ mem)
      exact ⟨tree :: trees, by simp [first, rest]⟩

theorem run_of_start_eq_ok {threads : Nat} (started : machine.start threads = .ok ())
    (paths : List String) :
    run references machine threads load paths
      = (runBatch references load {} paths).map fun s => ⟨s.metrics, s.stats⟩ := by
  rw [run, started, foldlM_runBatch, flatten_batches]
  rfl

/-- Without threads nothing is loaded, so it does not matter what the paths are. -/
theorem run_of_start_eq_error {threads : Nat} {reason : String}
    (failed : machine.start threads = .error reason) (paths : List String) :
    run references machine threads load paths = .error (.noThreadPool reason) := by
  rw [run, failed]
  rfl

theorem run_eq_ok_iff {threads : Nat} {paths : List String} {outcome : Outcome} :
    run references machine threads load paths = .ok outcome
      ↔ machine.start threads = .ok ()
        ∧ ∃ trees, paths.map load = trees.map .ok
          ∧ outcome.metrics = (Analyzer.analyzeAll { references } {} trees).metrics
          ∧ outcome.stats = (Analyzer.analyzeAll { references } {} trees).stats := by
  cases started : machine.start threads with
  | error reason => simp [run_of_start_eq_error started]
  | ok =>
    simp only [run_of_start_eq_ok started, runBatch, ← mapM_eq_ok_iff, true_and]
    cases paths.mapM load with
    | error e => simp [bind, Except.bind, Except.map]
    | ok trees =>
      cases outcome
      simp only [bind, Except.bind, Except.map, pure, Except.pure, Except.ok.injEq]
      grind

/-- A number of threads to run with: there are some, the size of their batches fits a machine word,
and the machine can start them. -/
structure Usable (machine : Machine) (threads : Nat) : Prop where
  positive : 1 ≤ threads
  fits : batchSize threads < UInt64.size
  starts : machine.start threads = .ok ()

theorem Usable.run_eq_ok_iff {threads : Nat} (h : Usable machine threads) {paths : List String}
    {outcome : Outcome} :
    run references machine threads load paths = .ok outcome
      ↔ ∃ trees, paths.map load = trees.map .ok
        ∧ outcome.metrics = (Analyzer.analyzeAll { references } {} trees).metrics
        ∧ outcome.stats = (Analyzer.analyzeAll { references } {} trees).stats :=
  Project.run_eq_ok_iff.trans (and_iff_right h.starts)

/-- With threads that can be started, a run succeeds just when every path can be loaded. Then it
leaves behind what a fresh analyzer does that is given all the trees in the order of their paths. So
the number of threads makes no difference to a run that succeeds. If the threads cannot be started,
the run fails for that reason, and no path is loaded. -/
theorem run_independent_of_threads (references : References) {machine : Machine} {threads : Nat}
    (usable : Usable machine threads) (load : String → Except Error Code.Tree)
    (paths : List String) :
    ((∃ outcome, run references machine threads load paths = .ok outcome)
        ↔ ∀ path ∈ paths, ∃ tree, load path = .ok tree)
      ∧ (∀ outcome, run references machine threads load paths = .ok outcome
          ↔ ∃ trees, paths.map load = trees.map .ok
            ∧ outcome.metrics = (Analyzer.analyzeAll { references } {} trees).metrics
            ∧ outcome.stats = (Analyzer.analyzeAll { references } {} trees).stats)
      ∧ (∀ threads', Usable machine threads' → ∀ outcome,
          run references machine threads load paths = .ok outcome
            ↔ run references machine threads' load paths = .ok outcome)
      ∧ ∀ threads' reason, machine.start threads' = .error reason →
          run references machine threads' load paths = .error (.noThreadPool reason) := by
  refine ⟨?_, fun outcome => usable.run_eq_ok_iff,
    fun threads' usable' outcome => usable.run_eq_ok_iff.trans usable'.run_eq_ok_iff.symm,
    fun threads' reason failed => run_of_start_eq_error failed paths⟩
  rw [← exists_map_eq_iff]
  constructor
  · rintro ⟨outcome, ran⟩
    obtain ⟨trees, loaded, -⟩ := usable.run_eq_ok_iff.1 ran
    exact ⟨trees, loaded⟩
  · rintro ⟨trees, loaded⟩
    exact ⟨⟨_, _⟩, usable.run_eq_ok_iff.2 ⟨trees, loaded, rfl, rfl⟩⟩

/-- On a machine with two threads, five trees come to the same in two batches and in one. A sixth
that cannot be loaded, or a third thread, is too much. -/
theorem run_with_two_threads :
    let machine : Machine :=
      ⟨2, fun threads => if threads ≤ 2 then .ok () else .error "out of threads"⟩
    let load (path : String) : Except Error Code.Tree :=
      if path = "" then .error (.unreadableFile path "no name") else .ok { path }
    let paths := ["a", "b", "c", "d", "e"]
    let run := run (fun _ _ _ => none) machine
    Usable machine 1 ∧ Usable machine 2
      ∧ (∃ outcome, run 1 load paths = .ok outcome ∧ run 2 load paths = .ok outcome
        ∧ outcome.stats.filesAnalyzed = 5)
      ∧ (¬∃ outcome, run 1 load (paths ++ [""]) = .ok outcome)
      ∧ run 3 load paths = .error (.noThreadPool "out of threads") := by
  intro machine load paths run
  have one : Usable machine 1 := ⟨by decide, by decide, rfl⟩
  have two : Usable machine 2 := ⟨by decide, by decide, rfl⟩
  obtain ⟨-, exactly, same, failed⟩ := run_independent_of_threads (fun _ _ _ => none) one load paths
  refine ⟨one, two, ?_, ?_, failed 3 _ rfl⟩
  · have ran := (exactly ⟨_, _⟩).2 ⟨paths.map fun path => { path }, rfl, rfl, rfl⟩
    exact ⟨_, ran, (same 2 two _).1 ran, by decide +kernel⟩
  · rw [(run_independent_of_threads (fun _ _ _ => none) one load (paths ++ [""])).1]
    intro all
    obtain ⟨tree, loaded⟩ := all "" (by decide)
    cases loaded

end Project

end Requisite
