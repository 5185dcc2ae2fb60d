import Requisite.Json.Record
import Requisite.Range

/-!
# Versions in JSON

A version is written as its text. Where a bound may be absent, `null` and blank text say so.
-/
namespace Requisite

namespace Version

def toJson (v : Version) : Json :=
  .text v.toString

def ofJson? : Json → Option Version
  | .text s => parse? s
  | _ => none

end Version

namespace Bound

def toJson : Option Version → Json :=
  Json.ofOption Version.toJson

/-- Reads a bound; blank text is no bound. -/
def ofJson? : Json → Option (Option Version)
  | .null => some none
  | .text s =>
    let trimmed := Text.trim s
    if trimmed.isEmpty then some none else (Version.parse? trimmed).map some
  | _ => none

end Bound

namespace VersionSet

def toJson (versions : VersionSet) : Json :=
  .array (versions.keys.map Version.toJson)

def ofJson? (j : Json) : Option VersionSet :=
  (j.list? Version.ofJson?).map ofVersions

end VersionSet

end Requisite
