import Requisite.Analyzer
import Requisite.Code.Json

/-!
# Analyzing a project

The trees of a project are loaded in batches, so that no more than a batch of them is held at a
time, and a batch is analyzed as soon as it is loaded. The threads that load them are started first.
If they cannot be, nothing is loaded, and the first tree that cannot be loaded ends the run.
-/
namespace Requisite.Project

/-- What a run leaves behind. -/
structure Outcome where
  metrics : Metrics
  stats : Analyzer.Stats
deriving Inhabited

/-- What a run is carried out on. -/
structure Machine where
  /-- The number of threads to use if none is asked for. -/
  threads : Nat
  /-- Starts a number of threads, or says why that is not possible. -/
  start : Nat → Except String Unit

/-- How many trees each thread is given at a time. -/
def treesPerThread : Nat := 4

def batchSize (threads : Nat) : Nat :=
  threads * treesPerThread

/-- The number of threads asked for, or that of the machine if none is. -/
def effectiveThreads (machine : Machine) (requested : Nat) : Nat :=
  if requested = 0 then machine.threads else requested

/-- A list cut into pieces of `size`, of which the last may be shorter. No piece is empty. -/
def batches {α : Type} (size : Nat) : List α → List (List α)
  | [] => []
  | a :: rest => (a :: rest.take (size - 1)) :: batches size (rest.drop (size - 1))
termination_by list => list.length
decreasing_by rw [List.length_drop, List.length_cons]; omega

/-- Loads one batch and analyzes it. -/
def runBatch (references : References) (load : String → Except Error Code.Tree)
    (s : Analyzer.State) (paths : List String) : Except Error Analyzer.State := do
  let trees ← paths.mapM load
  return Analyzer.analyzeAll { references } s trees

/-- Analyzes the trees at `paths`, in their order, from nothing. -/
def run (references : References) (machine : Machine) (threads : Nat)
    (load : String → Except Error Code.Tree) (paths : List String) : Except Error Outcome := do
  (machine.start threads).mapError .noThreadPool
  let s ← (batches (batchSize threads) paths).foldlM (runBatch references load) {}
  return { metrics := s.metrics, stats := s.stats }

/-- The counters of a run. -/
def Outcome.toJson (o : Outcome) : Json :=
  .object [("files_analyzed", .whole o.stats.filesAnalyzed), ("analyzer", o.stats.toJson)]

end Requisite.Project
