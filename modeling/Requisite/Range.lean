import Requisite.Table
import Requisite.Version.Order

/-!
# Ranges

What an element needs: a stretch of releases of the runtime, and the extension it comes from with
a stretch of its versions. Ranges are put together by `Range.merge`, where the most demanding
requirement wins, on both ends.

The uses of an element are counted in natural numbers. They are stored as 64-bit words, so what is
read back is below `UInt64.size`, but adding them up never overflows.
-/
namespace Requisite

/-- A set of versions in ascending order. -/
abbrev VersionSet := Table Version Unit

namespace VersionSet

/-- The set of the versions in a list; of equal versions it holds the one that comes first. -/
def ofVersions (versions : List Version) : VersionSet :=
  Table.ofList (versions.map fun v => (v, ()))

/-- The set of the versions in a list; of equal versions it holds the one that comes last. -/
def latest (versions : List Version) : VersionSet :=
  ofVersions versions.reverse

end VersionSet

/-- The name that stands for no extension. -/
def userExtension : String := "user"

structure Range where
  /-- The extension that an element belongs to, or `userExtension`. -/
  extension : String := userExtension
  extensionMin : Option Version := none
  extensionMax : Option Version := none
  min : Version := .baseline
  max : Option Version := none
  usageCount : Nat := 0
  /-- Whether the element is only used where it was found to exist. -/
  optional : Bool := false
  /-- Releases in between in which the element is missing. -/
  excluded : VersionSet := ∅
deriving DecidableEq

namespace Range

/-- The range of an element that is defined by the code itself. -/
def user : Range := {}

instance : Inhabited Range := ⟨user⟩

/-- A range that begins with `version` and belongs to no extension. -/
def since (version : Version) : Range :=
  { user with min := version }

/-- A range of the extension `name`. -/
def ofExtension (name : String) (extensionMin : Option Version) (min : Version) : Range :=
  { user with extension := name, extensionMin, min }

def isUser (r : Range) : Bool :=
  r.extension == userExtension

/-- The range that begins no earlier than `version`. -/
def require (r : Range) (version : Version) : Range :=
  { r with min := r.min.raise version }

/-- The range with the bounds of `other` folded in: on both ends the greater bound wins. Bounds on
an extension come only from ranges that belong to one. -/
def merge (r other : Range) : Range :=
  let r := { r.require other.min with max := raiseBound r.max other.max }
  if other.isUser then r
  else
    { r with
      extensionMin := raiseBound r.extensionMin other.extensionMin
      extensionMax := raiseBound r.extensionMax other.extensionMax }

/-- The bounds on the runtime alone, which is what a reference asks of the code around it. -/
def runtimeBounds (r : Range) : Range :=
  { since r.min with max := r.max }

/-- Whether two ranges say the same, with versions compared by their place in the order. -/
def equiv (a b : Range) : Bool :=
  a.extension == b.extension
    && sameBound a.extensionMin b.extensionMin
    && sameBound a.extensionMax b.extensionMax
    && a.min.equiv b.min
    && sameBound a.max b.max
    && a.usageCount == b.usageCount
    && a.optional == b.optional
    && sameVersions a.excluded.keys b.excluded.keys
where
  sameBound : Option Version → Option Version → Bool
    | none, none => true
    | some v, some w => v.equiv w
    | _, _ => false
  sameVersions : List Version → List Version → Bool
    | [], [] => true
    | v :: vs, w :: ws => v.equiv w && sameVersions vs ws
    | _, _ => false

def versionBand (r : Range) : String :=
  band r.min r.max

def extensionBand (r : Range) : String :=
  band r.extensionMin r.extensionMax

end Range

end Requisite
