import Requisite.Grouped
import Requisite.Range.Json

/-!
# Metrics

What an analysis produces: the releases that everything together needs, and a table of the ranges
of all elements. Entries of the table are created and widened, and never taken away.
-/
namespace Requisite

/-- The releases that everything analyzed needs. -/
structure Requirement where
  min : Version := .baseline
  max : Option Version := none
deriving DecidableEq, Inhabited

namespace Requirement

/-- Raises both ends to those of `range`. -/
def widen (r : Requirement) (range : Range) : Requirement :=
  { min := r.min.raise range.min, max := raiseBound r.max range.max }

def band (r : Requirement) : String :=
  Requisite.band r.min r.max

def toJson (r : Requirement) : Json :=
  .object [("minVersion", r.min.toJson), ("maxVersion", Bound.toJson r.max)]

def ofJson? (j : Json) : Option Requirement := do
  j.expectRecord 2
  return {
    min := ← j.required 0 "minVersion" Version.ofJson?
    max := ← j.optional 1 "maxVersion" Bound.ofJson? none }

end Requirement

/-- The ranges of all elements. -/
abbrev Elements := Grouped Range

namespace Elements

/-- A new entry is the range without its uses; an old one is widened. -/
def widened (range : Range) (entry : Option Range) : Range :=
  (entry.getD { range with usageCount := 0, optional := false }).merge range

/-- Creates or widens the entry of an element, and then changes it by `change`. -/
def updateWith (t : Elements) (category : Category) (name : String) (range : Range)
    (change : Range → Range) : Elements :=
  t.alter category name fun entry => change (widened range entry)

/-- Creates or widens the entry of an element. -/
def update (t : Elements) (category : Category) (name : String) (range : Range) : Elements :=
  t.updateWith category name range id

/-- Creates or widens the entry of an element and counts one use of it. -/
def use (t : Elements) (category : Category) (name : String) (range : Range) : Elements :=
  t.updateWith category name range fun r => { r with usageCount := r.usageCount + 1 }

/-- Creates or widens the entry of an element and marks it as optional. -/
def makeOptional (t : Elements) (category : Category) (name : String) (range : Range) : Elements :=
  t.updateWith category name range fun r => { r with optional := true }

def toJson (t : Elements) : Json :=
  Grouped.toJson Range.toJson t

def ofJson? (j : Json) : Option Elements :=
  Grouped.ofJson? Range.ofJson? j

end Elements

structure Metrics where
  versions : Requirement := {}
  elements : Elements := {}
deriving DecidableEq, Inhabited

namespace Metrics

/-- The requirement comes first, then the categories. -/
def toJson (m : Metrics) : Json :=
  .object (("versions", m.versions.toJson) :: m.elements.toMembers Range.toJson)

end Metrics

end Requisite
