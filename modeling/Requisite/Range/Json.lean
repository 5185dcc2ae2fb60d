import Requisite.Version.Json

/-!
# Ranges in JSON

All fields of a range are written, except for an empty set of excluded releases. All but the name
of the extension may be left out when reading.
-/
namespace Requisite.Range

/-- The member for a set of versions, left out when there are none. -/
def excludedMember (name : String) (versions : VersionSet) : List (String × Json) :=
  if versions.isEmpty then [] else [(name, versions.toJson)]

def toJson (r : Range) : Json :=
  .object
    ([("extensionName", .text r.extension),
      ("extensionMin", Bound.toJson r.extensionMin),
      ("extensionMax", Bound.toJson r.extensionMax),
      ("minVersion", r.min.toJson),
      ("maxVersion", Bound.toJson r.max),
      ("usageCount", .whole r.usageCount),
      ("optional", .bool r.optional)]
      ++ excludedMember "excludedVersions" r.excluded)

def ofJson? (j : Json) : Option Range := do
  j.expectRecord 8
  return {
    extension := ← j.required 0 "extensionName" Json.text?
    extensionMin := ← j.optional 1 "extensionMin" Bound.ofJson? none
    extensionMax := ← j.optional 2 "extensionMax" Bound.ofJson? none
    min := ← j.optional 3 "minVersion" Version.ofJson? .baseline
    max := ← j.optional 4 "maxVersion" Bound.ofJson? none
    usageCount := ← j.optional 5 "usageCount" Json.nat64? 0
    optional := ← j.optional 6 "optional" Json.bool? false
    excluded := ← j.optional 7 "excludedVersions" VersionSet.ofJson? ∅ }

end Requisite.Range
