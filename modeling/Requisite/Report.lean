import Requisite.Filter
import Requisite.Metrics

/-!
# Reports

A report has a summary for each category that has elements. Its figures are those of all elements of
the category; a filter only chooses which of them are listed.
-/
namespace Requisite

namespace Report

structure Row where
  name : String
  extension : String
  extensionBand : String
  versionBand : String
  usageCount : Nat
  /-- Whether the element is only used where it was found to exist. -/
  conditional : Bool
  /-- Whether the element is missing in some releases of its range. -/
  excluded : Bool
deriving DecidableEq, Repr, Inhabited

structure Summary where
  category : Category
  shown : Nat
  total : Nat
  conditional : Nat
  excluded : Nat
  /-- The greatest ends of all elements. -/
  band : String
  rows : List Row
deriving DecidableEq, Repr, Inhabited

def Row.ofRange (name : String) (range : Range) : Row where
  name := name
  extension := range.extension
  extensionBand := range.extensionBand
  versionBand := range.versionBand
  usageCount := range.usageCount
  conditional := range.optional
  excluded := !range.excluded.isEmpty

/-- Whether a filter, if there is one, accepts the first release of a range. -/
def passes (filter : Option Filter) (range : Range) : Bool :=
  filter.all fun f => f.accepts range.min

namespace Summary

/-- What is known of a category after some of its elements. -/
structure Progress where
  rows : Array Row := #[]
  total : Nat := 0
  conditional : Nat := 0
  excluded : Nat := 0
  overall : Requirement := {}

/-- Goes on to the next element, which counts whether it is listed or not. -/
def Progress.add (filter : Option Filter) (p : Progress) (element : String × Range) : Progress :=
  let (name, range) := element
  { rows := if passes filter range then p.rows.push (Row.ofRange name range) else p.rows
    total := p.total + 1
    conditional := p.conditional + range.optional.toNat
    excluded := p.excluded + (!range.excluded.isEmpty).toNat
    overall := p.overall.widen range }

def build (category : Category) (elements : List (String × Range)) (filter : Option Filter) :
    Summary :=
  let p := elements.foldl (Progress.add filter) {}
  { category
    shown := p.rows.size
    total := p.total
    conditional := p.conditional
    excluded := p.excluded
    band := p.overall.band
    rows := p.rows.toList }

end Summary

end Report

structure Report where
  requires : Requirement
  summaries : List Report.Summary
deriving DecidableEq, Inhabited

namespace Report

def build (metrics : Metrics) (filter : Option Filter) : Report where
  requires := metrics.versions
  summaries := metrics.elements.nonempty.map fun (category, group) =>
    Summary.build category group.entries filter

def summary? (r : Report) (category : Category) : Option Summary :=
  r.summaries.find? fun s => s.category == category

/-- The overall requirement in words. -/
def requirement (r : Report) : String :=
  s!"Requires PHP {r.requires.min} (min)"
    ++ r.requires.max.elim "" fun max => s!", PHP {max} (max)"

/-! ### Text -/

/-- The text filled up with blanks to a number of characters. -/
def pad (width : Nat) (s : String) : String :=
  s ++ String.ofList (List.replicate (width - s.length) ' ')

/-- Two columns that say whether an element is conditional and whether releases are excluded. -/
def Row.marker (row : Row) : String :=
  (if row.conditional then "C" else " ") ++ (if row.excluded then "W" else " ")

def Row.line (row : Row) : String :=
  s!"  {row.marker} {pad 40 row.name} {pad 12 row.extension} {pad 14 row.extensionBand} "
    ++ s!"{pad 16 row.versionBand} {row.usageCount}"

def Summary.heading (s : Summary) : String :=
  s!"{s.category.title} Analysis [{s.shown}/{s.total}]  conditional: {s.conditional}  "
    ++ s!"excluded: {s.excluded}  {s.band}"

/-- The lines of a summary, with a blank line at the end. -/
def Summary.lines (s : Summary) : List String :=
  s.heading :: s.rows.map Row.line ++ [""]

/-- All summaries, then the overall requirement. -/
def render (r : Report) : String :=
  String.intercalate "\n" (r.summaries.flatMap Summary.lines ++ [r.requirement])

/-! ### JSON -/

def Row.toJson (row : Row) : Json :=
  .object
    [("name", .text row.name), ("extension", .text row.extension),
      ("extension_band", .text row.extensionBand), ("version_band", .text row.versionBand),
      ("usage_count", .whole row.usageCount), ("conditional", .bool row.conditional),
      ("excluded", .bool row.excluded)]

def Summary.toJson (s : Summary) : Json :=
  .object
    [("category", .text s.category.plural), ("shown", .whole s.shown), ("total", .whole s.total),
      ("conditional", .whole s.conditional), ("excluded", .whole s.excluded),
      ("band", .text s.band), ("rows", .array (s.rows.map Row.toJson))]

def toJson (r : Report) : Json :=
  .object
    [("requires", r.requires.toJson), ("summaries", .array (r.summaries.map Summary.toJson))]

end Report

end Requisite
