import Requisite.Text.Ascii
import Requisite.Text.Blank

/-!
# Versions

A version is a dotted list of numbers, a stability, and the number of the pre-release or patch.
Versions are ordered by their numbers first, where numbers that are not written count as zero, then
by stability (`dev < alpha < beta < RC < stable < pl`), then by the number after it. So `5.3` and
`5.3.0` are different texts of equal versions.

`Version.parse?` reads a version and `Version.toString` writes it.
-/
namespace Requisite

/-- How finished a release is. -/
inductive Stability where
  | dev
  | alpha
  | beta
  | candidate
  | stable
  | patch
deriving DecidableEq, Repr, Inhabited

namespace Stability

/-- The place of a stability on the way to a patched release. -/
def rank : Stability → Nat
  | .dev => 0
  | .alpha => 1
  | .beta => 2
  | .candidate => 3
  | .stable => 4
  | .patch => 5

/-- How a stability is written after the numbers. -/
def tag : Stability → String
  | .dev => "dev"
  | .alpha => "alpha"
  | .beta => "beta"
  | .candidate => "RC"
  | .stable => ""
  | .patch => "pl"

/-- Reads a tag in any case; three of them have a short form. -/
def ofTag? (tag : String) : Option Stability :=
  match Text.foldCase tag with
  | "dev" => some .dev
  | "alpha" | "a" => some .alpha
  | "beta" | "b" => some .beta
  | "rc" => some .candidate
  | "" => some .stable
  | "pl" | "p" => some .patch
  | _ => none

end Stability

/-- A release number such as `5.3.0` or `7.0.0RC1`. -/
structure Version where
  major : UInt32
  /-- The numbers after the first. -/
  minors : List UInt32
  stability : Stability := .stable
  /-- The number after the stability, zero when there is none. -/
  number : UInt32 := 0
deriving DecidableEq, Repr, Inhabited

namespace Version

/-- All numbers in front of the stability. -/
def parts (v : Version) : List UInt32 :=
  v.major :: v.minors

/-- A stable release with three numbers. -/
def release (major minor patch : UInt32) : Version :=
  { major, minors := [minor, patch] }

/-- The oldest release there is anything to know about. -/
def baseline : Version :=
  release 4 0 0

/-- Patched releases are stable releases too. -/
def isStable (v : Version) : Bool :=
  v.stability == .stable || v.stability == .patch

/-! ### Order -/

/-- Compares two lists of numbers as if the shorter went on with zeros. -/
def compareParts : List UInt32 → List UInt32 → Ordering
  | [], bs => if bs.all (· == 0) then .eq else .lt
  | a :: as, bs => (compare a (bs.headD 0)).then (compareParts as bs.tail)

instance : Ord Version where
  compare a b :=
    (compareParts a.parts b.parts).then
      ((compare a.stability.rank b.stability.rank).then (compare a.number b.number))

instance : LT Version := ltOfOrd

instance : LE Version := leOfOrd

/-- Whether two versions stand at the same place of the order, however they are written. -/
def equiv (a b : Version) : Bool :=
  compare a b == .eq

/-- The numbers up to the last one that is not zero. -/
def significantParts (v : Version) : List UInt32 :=
  (v.parts.reverse.dropWhile (· == 0)).reverse

/-- What equal versions have in common: two versions are equal just when these agree. -/
def hashKey (v : Version) : List UInt32 × Stability × UInt32 :=
  (v.significantParts, v.stability, v.number)

/-- `v`, unless `w` is greater. -/
def raise (v w : Version) : Version :=
  if v < w then w else v

/-! ### Text -/

/-- The characters that the numbers of a version are made of. -/
def isNumeric (c : Char) : Bool :=
  c.isDigit || c == '.'

/-- The characters that may stand between the numbers and the stability. -/
def isSeparator (c : Char) : Bool :=
  c == '-' || c == '.' || c == '_' || c == '+'

/-- Reads the dotted numbers; dots at the end say nothing. -/
def readParts? (cs : List Char) : Option (List UInt32) :=
  (((cs.reverse.dropWhile (· == '.')).reverse).splitOn '.').mapM Text.readWord32?

/-- Reads the stability and the number after it. -/
def readSuffix? (cs : List Char) : Option (Stability × UInt32) := do
  let cs := cs.dropWhile isSeparator
  let stability ← Stability.ofTag? (String.ofList (cs.takeWhile fun c => !c.isDigit))
  match cs.dropWhile fun c => !c.isDigit with
  | [] => return (stability, 0)
  | digits => return (stability, ← Text.readWord32? digits)

/-- Reads a version with white space around it. -/
def parse? (text : String) : Option Version := do
  let cs := Text.trimChars text.toList
  match ← readParts? (cs.takeWhile isNumeric) with
  | [] => none
  | major :: minors =>
    let (stability, number) ← readSuffix? (cs.dropWhile isNumeric)
    return { major, minors, stability, number }

/-- The numbers, the stability, and the number after it unless it is zero. -/
protected def toString (v : Version) : String :=
  String.intercalate "." (v.parts.map fun n => toString n.toNat) ++ v.stability.tag
    ++ if v.number = 0 then "" else toString v.number.toNat

instance : ToString Version := ⟨Version.toString⟩

end Version

/-! ### Bounds

A bound that is absent is below every version. -/

/-- The greater of two bounds, the first if they are equal. -/
def raiseBound : Option Version → Option Version → Option Version
  | bound, none => bound
  | none, some w => some w
  | some v, some w => some (v.raise w)

/-- The two ends of a stretch of releases as reports show them. -/
def band : Option Version → Option Version → String
  | some lo, some hi => s!"{lo} => {hi}"
  | some lo, none => toString lo
  | none, some hi => s!" => {hi}"
  | none, none => ""

end Requisite
