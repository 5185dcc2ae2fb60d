import Requisite.Error
import Requisite.Version

/-!
# Version filters

A filter is a comparison and a version, such as `>=5.4` or `lt 5.3.0`, and a version passes it if it
stands in that relation to the filter's own.
-/
namespace Requisite

inductive Comparison where
  | less
  | lessOrEqual
  | greater
  | greaterOrEqual
  | equal
  | notEqual
deriving DecidableEq, Repr, Inhabited

namespace Comparison

/-- Every spelling with its meaning. One that begins another comes after it. -/
def spellings : List (String × Comparison) :=
  [("<=", .lessOrEqual), (">=", .greaterOrEqual), ("==", .equal), ("!=", .notEqual),
    ("<>", .notEqual), ("<", .less), (">", .greater), ("=", .equal), ("lt", .less),
    ("le", .lessOrEqual), ("gt", .greater), ("ge", .greaterOrEqual), ("eq", .equal),
    ("ne", .notEqual)]

/-- Whether a version that compares to the filter's as `o` passes. -/
def holds : Comparison → Ordering → Bool
  | .less, o => o == .lt
  | .lessOrEqual, o => o != .gt
  | .greater, o => o == .gt
  | .greaterOrEqual, o => o != .lt
  | .equal, o => o == .eq
  | .notEqual, o => o != .eq

def name : Comparison → String
  | .less => "less"
  | .lessOrEqual => "less_or_equal"
  | .greater => "greater"
  | .greaterOrEqual => "greater_or_equal"
  | .equal => "equal"
  | .notEqual => "not_equal"

/-- The comparison that a text begins with, and the rest of the text. -/
def split? (cs : List Char) : Option (Comparison × List Char) :=
  spellings.findSome? fun (spelling, comparison) =>
    if spelling.toList.isPrefixOf cs then some (comparison, cs.drop spelling.length) else none

end Comparison

structure Filter where
  comparison : Comparison
  version : Version
deriving DecidableEq, Repr, Inhabited

namespace Filter

def accepts (f : Filter) (version : Version) : Bool :=
  f.comparison.holds (compare version f.version)

def parse? (text : String) : Option Filter := do
  let (comparison, rest) ← Comparison.split? (Text.trimChars text.toList)
  return { comparison, version := ← Version.parse? (String.ofList rest) }

/-- Reads a filter; the error shows the text as it was given. -/
def parse (text : String) : Except Error Filter :=
  match parse? text with
  | some filter => .ok filter
  | none => .error (.invalidFilter text)

end Filter

end Requisite
