import Requisite.Error
import Requisite.Filter
import Requisite.Settings.Toml

/-!
# Settings

What a project is analyzed with: the file of the catalog, the number of threads, and a filter for
the report. Settings come from a file, and each of them can be overridden.
-/
namespace Requisite

structure Settings where
  reference : Option String := none
  /-- The number of threads; zero leaves it to the machine. -/
  threads : Nat := 0
  filter : Option String := none
deriving DecidableEq, Repr, Inhabited

namespace Settings

/-- The value under a key that may occur once; `none` if it occurs more often. -/
def entry? (key : String) (entries : List (String × Toml.Value)) : Option (Option Toml.Value) :=
  match entries.filter fun e => e.1 == key with
  | [] => some none
  | [e] => some (some e.2)
  | _ => none

def text? : Option Toml.Value → Option (Option String)
  | none => some none
  | some (.string s) => some (some s)
  | some (.integer _) => none

/-- A number of threads, which fits in 64 bits. -/
def threads? : Option Toml.Value → Option Nat
  | none => some 0
  | some (.integer n) => if 0 ≤ n ∧ n < UInt64.size then some n.toNat else none
  | some (.string _) => none

def keys : List String := ["reference", "threads", "filter"]

/-- Reads settings; a key that is none of theirs is refused. -/
def ofToml? (text : String) : Option Settings := do
  let entries ← Toml.document? text
  guard (entries.all fun e => keys.contains e.1)
  return {
    reference := ← text? (← entry? "reference" entries)
    threads := ← threads? (← entry? "threads" entries)
    filter := ← text? (← entry? "filter" entries) }

/-- Reads settings; the error names the file they came from. -/
def ofToml (path text : String) : Except Error Settings :=
  match ofToml? text with
  | some settings => .ok settings
  | none => .error (.malformedSettings path)

/-- The settings with those that are given in place of their own. -/
def override (s : Settings) (reference : Option String) (threads : Option Nat)
    (filter : Option String) : Settings where
  reference := reference.or s.reference
  threads := threads.getD s.threads
  filter := filter.or s.filter

/-- The filter of the settings, if there is one. -/
def versionFilter (s : Settings) : Except Error (Option Filter) :=
  match s.filter with
  | none => .ok none
  | some text => (Filter.parse text).map some

end Settings

end Requisite
