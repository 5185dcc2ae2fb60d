import Requisite.Text.Ascii

/-!
# Decimal numbers and the range of doubles

Whether a decimal number is read as a finite double. Its digits are taken into one whole number of
64 bits, as many as fit, and the point and the digits that do not fit count as powers of ten. Then
the whole number, the power of ten and their product are each rounded to a double. So a number close
to the greatest double can be found too great, or small enough, by the rounding alone.
-/
namespace Requisite.Json

/-- The number `significand * 10 ^ exponent`. -/
structure Decimal where
  significand : Nat
  exponent : Int
deriving DecidableEq, Repr, Inhabited

namespace Decimal

/-- Takes digits into a number while it fits in 64 bits: the number, and the digits left over. -/
def absorb (n : Nat) : List Char → Nat × List Char
  | [] => (n, [])
  | c :: rest =>
    let next := 10 * n + (c.toNat - '0'.toNat)
    if next < UInt64.size then absorb next rest else (n, c :: rest)

/-- The decimal with these digits before and after the point, times a power of ten. -/
def ofDigits (int frac : List Char) (power : Int) : Decimal :=
  let (leading, dropped) := absorb 0 int
  let (significand, unread) := absorb leading frac
  { significand, exponent := power + dropped.length - (frac.length - unread.length : Nat) }

/-- The whole number with 53 significant bits that is nearest to `n`, of two the even one. -/
def roundWhole (n : Nat) : Nat :=
  if n < Nat.pow 2 53 then n
  else
    let unit := Nat.pow 2 (n.log2 - 52)
    let low := n / unit
    let rest := 2 * (n % unit)
    if unit < rest || (rest == unit && low % 2 == 1) then (low + 1) * unit else low * unit

/-- The exponent of the greatest power of ten among the doubles. -/
def maxPower : Nat := 308

/-- Whether the number is read as a finite double. Only a product can be too great. -/
def isFinite (d : Decimal) : Bool :=
  d.significand == 0 || d.exponent < 0 ||
    (d.exponent ≤ maxPower &&
      roundWhole (roundWhole d.significand * roundWhole (Nat.pow 10 d.exponent.toNat))
        < Nat.pow 2 1024)

end Decimal

end Requisite.Json
