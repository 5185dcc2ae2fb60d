/-!
# White space

The white space of Unicode, and text with the white space around it removed.
-/
namespace Requisite.Text

/-- Ranges of code points with the Unicode property of being white space. -/
def blankRanges : List (Nat × Nat) :=
  [(0x09, 0x0D), (0x20, 0x20), (0x85, 0x85), (0xA0, 0xA0), (0x1680, 0x1680), (0x2000, 0x200A),
    (0x2028, 0x2029), (0x202F, 0x202F), (0x205F, 0x205F), (0x3000, 0x3000)]

def isBlank (c : Char) : Bool :=
  blankRanges.any fun (lo, hi) => lo ≤ c.toNat && c.toNat ≤ hi

def trimStart (cs : List Char) : List Char :=
  cs.dropWhile isBlank

def trimEnd (cs : List Char) : List Char :=
  (cs.reverse.dropWhile isBlank).reverse

/-- The characters without the white space on either side. -/
def trimChars (cs : List Char) : List Char :=
  trimEnd (trimStart cs)

/-- The text without the white space on either side. -/
def trim (s : String) : String :=
  String.ofList (trimChars s.toList)

end Requisite.Text
