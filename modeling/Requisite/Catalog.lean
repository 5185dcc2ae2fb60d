import Requisite.Error
import Requisite.Grouped
import Requisite.Json.Reader
import Requisite.Range.Json

/-!
# The catalog of built-in symbols

The catalog says of a built-in symbol since which release and from which extension it is available.
Symbols are known by category and name; a leading backslash never matters, and the case of ASCII
letters matters for constants and conditions only.

An entry whose bounds are the wrong way round is refused when it is inserted. Insertions are steps
on a catalog, and one that is refused leaves a catalog behind as well.
-/
namespace Requisite

namespace Catalog

/-- A call with at least `minCount` arguments needs at least `phpMin`. -/
structure ArgumentRule where
  minCount : UInt64
  phpMin : Version
deriving DecidableEq

structure Entry where
  extension : String := userExtension
  extMin : Option Version := none
  extMax : Option Version := none
  phpMin : Version := .baseline
  phpMax : Option Version := none
  excluded : VersionSet := ∅
  arguments : List ArgumentRule := []
deriving DecidableEq

namespace Entry

/-- The first pair of bounds that is the wrong way round, releases before extension versions. -/
def inverted? (e : Entry) : Option (Version × Version) :=
  let pair : Option Version → Option Version → Option (Version × Version)
    | some lo, some hi => if hi < lo then some (lo, hi) else none
    | _, _ => none
  (pair e.phpMin e.phpMax).or (pair e.extMin e.extMax)

/-- Refuses an entry with bounds that are the wrong way round. -/
def validate (e : Entry) (category : Category) (name : String) : Except Error Unit :=
  match e.inverted? with
  | some (lo, hi) => .error (.invertedRange category name lo hi)
  | none => .ok ()

/-- The range of a use of the symbol with `argCount` arguments, if their number is known. -/
def toRange (e : Entry) (argCount : Option Nat) : Range :=
  let range : Range :=
    { extension := e.extension
      extensionMin := e.extMin
      extensionMax := e.extMax
      min := e.phpMin
      max := e.phpMax
      excluded := e.excluded }
  match argCount with
  | none => range
  | some count =>
    (e.arguments.filter fun rule => rule.minCount.toNat ≤ count).foldl
      (fun range rule => range.require rule.phpMin) range

end Entry

/-- A name as the catalog knows it. -/
def normalize (category : Category) (name : String) : String :=
  let bare := String.ofList (name.toList.dropWhile (· == '\\'))
  if category.ignoresCase then Text.foldCase bare else bare

end Catalog

structure Catalog where
  entries : Grouped Catalog.Entry := {}

namespace Catalog

instance : Inhabited Catalog := ⟨{}⟩

def get? (c : Catalog) (category : Category) (name : String) : Option Entry :=
  c.entries.get? category (normalize category name)

/-- Puts an entry into the catalog, in place of any of the same name. -/
def insert (category : Category) (name : String) (entry : Entry) : EStateM Error Catalog Unit := do
  MonadExcept.ofExcept (entry.validate category name)
  modify fun c => ⟨c.entries.insert category (normalize category name) entry⟩

/-- Inserts entries one after the other, up to the first that is refused. -/
def insertAll (entries : List (Category × String × Entry)) : EStateM Error Catalog Unit :=
  forM entries fun e => insert e.1 e.2.1 e.2.2

def size (c : Catalog) : Nat :=
  c.entries.size

/-- The range of a symbol, if the catalog knows it. -/
def find? (c : Catalog) (category : Category) (name : String) (argCount : Option Nat) :
    Option Range :=
  (c.get? category name).map fun entry => entry.toRange argCount

/-- The range of a symbol; what the catalog does not know is defined by the code. -/
def find (c : Catalog) (category : Category) (name : String) (argCount : Option Nat) : Range :=
  (c.find? category name argCount).getD Range.user

/-- The catalog of a list of entries, if none of them is refused. -/
def ofEntries (entries : List (Category × String × Entry)) : Except Error Catalog :=
  match (insertAll entries).run {} with
  | .ok _ c => .ok c
  | .error refusal _ => .error refusal

/-! ### JSON -/

namespace ArgumentRule

def toJson (rule : ArgumentRule) : Json :=
  .object [("min_count", .whole rule.minCount.toNat), ("php_min", rule.phpMin.toJson)]

def ofJson? (j : Json) : Option ArgumentRule := do
  j.expectRecord 2
  return {
    minCount := ← j.required 0 "min_count" Json.word64?
    phpMin := ← j.required 1 "php_min" Version.ofJson? }

end ArgumentRule

namespace Entry

def toJson (e : Entry) : Json :=
  .object
    ([("extension", .text e.extension),
      ("ext_min", Bound.toJson e.extMin),
      ("ext_max", Bound.toJson e.extMax),
      ("php_min", e.phpMin.toJson),
      ("php_max", Bound.toJson e.phpMax)]
      ++ Range.excludedMember "excluded" e.excluded
      ++ if e.arguments.isEmpty then []
        else [("arguments", .array (e.arguments.map ArgumentRule.toJson))])

def ofJson? (j : Json) : Option Entry := do
  j.expectRecord 7
  return {
    extension := ← j.optional 0 "extension" Json.text? userExtension
    extMin := ← j.optional 1 "ext_min" Bound.ofJson? none
    extMax := ← j.optional 2 "ext_max" Bound.ofJson? none
    phpMin := ← j.optional 3 "php_min" Version.ofJson? .baseline
    phpMax := ← j.optional 4 "php_max" Bound.ofJson? none
    excluded := ← j.optional 5 "excluded" VersionSet.ofJson? ∅
    arguments := ← j.optional 6 "arguments" (Json.list? ArgumentRule.ofJson?) [] }

end Entry

/-- Reads the text of a catalog: an object of categories, each an object of entries. -/
def ofJsonText (text : String) : Except Error Catalog :=
  match (Json.parse? text).bind (Grouped.ofJson? Entry.ofJson?) with
  | none => .error .malformedCatalog
  | some entries => ofEntries entries.elements

end Catalog

/-- Where the ranges of built-in symbols come from: `none` for a symbol that is not known. -/
abbrev References := Category → String → Option Nat → Option Range

end Requisite
