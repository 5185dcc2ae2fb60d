import Requisite.Catalog
import Requisite.Code.Event
import Requisite.Metrics
import Requisite.Scopes

/-!
# The state of an analysis

An analysis goes through files one after the other. Its metrics and its counters go on from file to
file; its scopes and what it remembers of lookups belong to the file at hand. The journal says what
happened along the way, for those who want to follow it.

The counters are natural numbers, which have no greatest. Machine words in their place would hold
the same numbers as long as those are below `UInt64.size`.
-/
namespace Requisite.Analyzer

/-- What has been done so far. -/
structure Stats where
  filesAnalyzed : Nat := 0
  nodesVisited : Nat := 0
  referencesResolved : Nat := 0
  cacheHits : Nat := 0
  guardedReferences : Nat := 0
  /-- Calls of methods on an object of unknown class. -/
  unresolvedMethodCalls : Nat := 0
  /-- Calls, instantiations and guards whose name is only known when the code runs. -/
  dynamicNamesSkipped : Nat := 0
deriving DecidableEq, Repr, Inhabited

namespace Stats

/-- The counters with their names, in their order. -/
def counters (s : Stats) : List (String × Nat) :=
  [("files_analyzed", s.filesAnalyzed), ("nodes_visited", s.nodesVisited),
    ("references_resolved", s.referencesResolved), ("cache_hits", s.cacheHits),
    ("guarded_references", s.guardedReferences),
    ("unresolved_method_calls", s.unresolvedMethodCalls),
    ("dynamic_names_skipped", s.dynamicNamesSkipped)]

def toJson (s : Stats) : Json :=
  .object (s.counters.map fun (name, count) => (name, .whole count))

end Stats

inductive Severity where
  | debug
  | warn
deriving DecidableEq, Repr, Inhabited

def Severity.label : Severity → String
  | .debug => "DEBUG"
  | .warn => "WARN"

/-- Something that happened during an analysis. -/
inductive Notice where
  | fileBegun (file : String)
  /-- A symbol was looked up, and was known or not. -/
  | lookedUp (category : Category) (name : String) (argCount : Option Nat) (known : Bool)
  | scopesLeftOpen (count : Nat) (file : String)
  | exitWithoutScope (file : String)
  | methodUnattributed (method file : String)
  | guardWithoutLiteral (function file : String)
  | defineWithoutLiteral (file : String)
deriving DecidableEq, Repr, Inhabited

namespace Notice

def severity : Notice → Severity
  | .scopesLeftOpen .. | .exitWithoutScope _ => .warn
  | _ => .debug

/-- The wording of a notice; nothing is said of a symbol that was known. -/
def message? : Notice → Option String
  | .fileBegun file => s!"Analyzing {file}"
  | .lookedUp _ _ _ true => none
  | .lookedUp category name _ false =>
    s!"No reference for {category} {name}, assuming user-defined"
  | .scopesLeftOpen count file =>
    s!"{count} scope(s) still open at the end of {file}, closing them"
  | .exitWithoutScope file => s!"Unbalanced scope exit in {file}"
  | .methodUnattributed method file => s!"Cannot attribute ->{method}() to a class in {file}"
  | .guardWithoutLiteral function file => s!"{function}() without a literal argument in {file}"
  | .defineWithoutLiteral file => s!"define() without a literal name in {file}"

/-- The notice as a line of a log. -/
def line? (n : Notice) : Option String :=
  n.message?.map fun message => n.severity.label ++ " " ++ message

end Notice

/-- What an analysis consults. -/
structure Env where
  references : References
  /-- Whether a node that was looked up is remembered until the end of its file. -/
  memoize : Bool := true

/-- What is remembered of a lookup: who asked, and for what. -/
structure LookupKey where
  node : UInt32
  category : Category
  name : String
deriving DecidableEq, Repr, Inhabited

structure State where
  metrics : Metrics := {}
  scopes : Scopes := {}
  /-- The lookups of the file at hand. -/
  cache : List (LookupKey × Range) := []
  stats : Stats := {}
  /-- The path and the source of the file at hand. -/
  file : String := ""
  source : Option String := none
  /-- What happened, the latest first. -/
  journal : List Notice := []
deriving Inhabited

namespace State

def note (s : State) (n : Notice) : State :=
  { s with journal := n :: s.journal }

def count (s : State) (f : Stats → Stats) : State :=
  { s with stats := f s.stats }

def modifyElements (s : State) (f : Elements → Elements) : State :=
  { s with metrics := { s.metrics with elements := f s.metrics.elements } }

/-- Creates or widens the entry of an element. -/
def update (s : State) (category : Category) (name : String) (range : Range) : State :=
  s.modifyElements fun t => t.update category name range

/-- Creates or widens the entry of an element and counts one use of it. -/
def use (s : State) (category : Category) (name : String) (range : Range) : State :=
  s.modifyElements fun t => t.use category name range

/-- Raises the overall requirement. -/
def widen (s : State) (range : Range) : State :=
  { s with metrics := { s.metrics with versions := s.metrics.versions.widen range } }

/-- Widens the entry of the innermost scope. -/
def mergeIntoCurrent (s : State) (range : Range) : State :=
  let (category, name) := s.scopes.current
  s.update category name range

/-- One more name that is only known when the code runs. -/
def skipDynamic (s : State) : State :=
  s.count fun stats => { stats with dynamicNamesSkipped := stats.dynamicNamesSkipped + 1 }

/-- The state in one line. -/
def summary (s : State) : String :=
  let counters := String.intercalate ", " (s.stats.counters.map fun (name, n) => s!"{name}: {n}")
  "CompatibilityAnalyzer \x7b file: " ++ Text.quoted s.file
    ++ s!", depth: {s.scopes.depth}, cached: {s.cache.length}, stats: AnalyzerStats "
    ++ "\x7b " ++ counters ++ " \x7d, .. \x7d"

end State

end Requisite.Analyzer
