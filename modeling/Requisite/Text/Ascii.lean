/-!
# ASCII letters and digits

Names are compared without regard to the case of ASCII letters only, and numbers are written in
ASCII digits only. Letters and digits of other scripts are ordinary characters here.
-/
namespace Requisite.Text

/-- The text with ASCII capitals made small. -/
def foldCase (s : String) : String :=
  s.map Char.toLower

/-- Whether two texts agree up to the case of ASCII letters. -/
def sameFold (a b : String) : Bool :=
  foldCase a == foldCase b

/-- The number that a list of decimal digits writes, most significant first. -/
def digitsValue (cs : List Char) : Nat :=
  cs.foldl (fun n c => 10 * n + (c.toNat - '0'.toNat)) 0

/-- Reads one or more decimal digits, and nothing else. -/
def readNat? (cs : List Char) : Option Nat :=
  if cs.isEmpty || !cs.all Char.isDigit then none else some (digitsValue cs)

/-- Reads a decimal number that fits in 32 bits. -/
def readWord32? (cs : List Char) : Option UInt32 :=
  (readNat? cs).bind fun n => if n < UInt32.size then some (UInt32.ofNat n) else none

/-- Reads a decimal number that fits in 64 bits. -/
def readWord64? (cs : List Char) : Option UInt64 :=
  (readNat? cs).bind fun n => if n < UInt64.size then some (UInt64.ofNat n) else none

/-- The value of a hexadecimal digit of either case. -/
def hexValue? (c : Char) : Option Nat :=
  if '0' ≤ c ∧ c ≤ '9' then some (c.toNat - '0'.toNat)
  else if 'a' ≤ c ∧ c ≤ 'f' then some (c.toNat - 'a'.toNat + 10)
  else if 'A' ≤ c ∧ c ≤ 'F' then some (c.toNat - 'A'.toNat + 10)
  else none

/-- The character with a given code point, unless the number is no code point of a character. -/
def scalar? (n : Nat) : Option Char :=
  if n.isValidChar then some (Char.ofNat n) else none

end Requisite.Text
