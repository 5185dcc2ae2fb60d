import Requisite.Analyzer.Visit

/-!
# Analyzing trees

A tree is analyzed by beginning its file, taking the events of the tree in order, and ending the
file. Several trees are analyzed one after the other, from one state.
-/
namespace Requisite.Analyzer

/-- What one event does. -/
def step (env : Env) (s : State) : Code.Event → State
  | .enter node => s.enter env node
  | .leave node => s.leave env node

def analyze (env : Env) (s : State) (tree : Code.Tree) : State :=
  (tree.events.foldl (step env) (s.beginFile tree)).endFile

def analyzeAll (env : Env) (s : State) (trees : List Code.Tree) : State :=
  trees.foldl (analyze env) s

end Requisite.Analyzer
