import Requisite.Json.Basic
import Requisite.Json.Decimal

/-!
# Reading JSON text

`Json.parse?` accepts exactly the grammar of JSON: four kinds of white space, no leading zeros, no
trailing commas, no raw control characters in strings, and nothing but white space after the value.

Each reader takes the characters that are left and gives back a value with the rest, so a failure
of any part is a failure of the whole text.
-/
namespace Requisite.Json.Reader

/-- How many arrays and objects may be nested in one another. -/
def nestingLimit : Nat := 127

def isSpace (c : Char) : Bool :=
  c == ' ' || c == '\t' || c == '\n' || c == '\r'

def skipSpace (cs : List Char) : List Char :=
  cs.dropWhile isSpace

/-! ### Strings -/

def isHighSurrogate (n : Nat) : Bool := 0xD800 ≤ n && n < 0xDC00

def isLowSurrogate (n : Nat) : Bool := 0xDC00 ≤ n && n < 0xE000

/-- The character of a one-letter escape. -/
def shortEscape? : Char → Option Char
  | '"' => some '"'
  | '\\' => some '\\'
  | '/' => some '/'
  | 'b' => some (Char.ofNat 8)
  | 'f' => some (Char.ofNat 12)
  | 'n' => some '\n'
  | 'r' => some '\r'
  | 't' => some '\t'
  | _ => none

/-- The code unit that four hexadecimal digits write. -/
def hexUnit? (a b c d : Char) : Option Nat := do
  return (((← Text.hexValue? a) * 16 + (← Text.hexValue? b)) * 16 + (← Text.hexValue? c)) * 16
    + (← Text.hexValue? d)

/-- Reads up to the closing quote. A plain character counts as one unit, its code point. -/
def stringUnits? : List Char → Option (List Nat × List Char)
  | [] => none
  | '"' :: rest => some ([], rest)
  | '\\' :: 'u' :: a :: b :: c :: d :: rest => do
    let unit ← hexUnit? a b c d
    let (units, rest) ← stringUnits? rest
    return (unit :: units, rest)
  | '\\' :: e :: rest => do
    let c ← shortEscape? e
    let (units, rest) ← stringUnits? rest
    return (c.toNat :: units, rest)
  | c :: rest =>
    if c == '\\' || c.toNat < 0x20 then none
    else (stringUnits? rest).map fun (units, rest) => (c.toNat :: units, rest)

/-- The text of a list of units: surrogates in pairs are one character, and alone they are none. -/
def joinUnits? : List Nat → Option (List Char)
  | [] => some []
  | [unit] => (Text.scalar? unit).map fun c => [c]
  | high :: low :: rest =>
    if isHighSurrogate high && isLowSurrogate low then do
      let c ← Text.scalar? (0x10000 + (high - 0xD800) * 0x400 + (low - 0xDC00))
      return c :: (← joinUnits? rest)
    else do
      let c ← Text.scalar? high
      return c :: (← joinUnits? (low :: rest))

/-- Reads a string after its opening quote; the inner `none` is a string that is no text. -/
def string? (cs : List Char) : Option (Option String × List Char) :=
  (stringUnits? cs).map fun (units, rest) => ((joinUnits? units).map String.ofList, rest)

/-! ### Numbers -/

/-- Splits off the digits in front, at least one. -/
def digits? (cs : List Char) : Option (List Char × List Char) :=
  match cs.takeWhile Char.isDigit with
  | [] => none
  | ds => some (ds, cs.dropWhile Char.isDigit)

/-- The integer part: no zero in front of other digits. -/
def integerPart? (cs : List Char) : Option (List Char × List Char) :=
  match digits? cs with
  | some ('0' :: _ :: _, _) => none
  | r => r

/-- The digits after a decimal point, if there is one. -/
def fractionPart? : List Char → Option (Option (List Char) × List Char)
  | '.' :: rest => (digits? rest).map fun (ds, rest) => (some ds, rest)
  | cs => some (none, cs)

/-- The exponent, if there is one: whether it is negative, and its digits. -/
def exponentPart? : List Char → Option (Option (Bool × List Char) × List Char)
  | c :: rest =>
    if c == 'e' || c == 'E' then
      match rest with
      | '+' :: rest => (digits? rest).map fun (ds, rest) => (some (false, ds), rest)
      | '-' :: rest => (digits? rest).map fun (ds, rest) => (some (true, ds), rest)
      | rest => (digits? rest).map fun (ds, rest) => (some (false, ds), rest)
    else some (none, c :: rest)
  | [] => some (none, [])

/-- Reads an unsigned number; `negative` says whether a sign came before it. -/
def unsigned? (negative : Bool) (cs : List Char) : Option (Json × List Char) := do
  let (int, rest) ← integerPart? cs
  let (frac, rest) ← fractionPart? rest
  let (exp, rest) ← exponentPart? rest
  let value := Text.digitsValue int
  if !negative && frac.isNone && exp.isNone && value < UInt64.size then
    return (.whole value, rest)
  let power : Int := match exp with
    | none => 0
    | some (false, ds) => Text.digitsValue ds
    | some (true, ds) => -(Text.digitsValue ds : Int)
  if !(Decimal.ofDigits int (frac.getD []) power).isFinite then return (.unreadable, rest)
  let spelling := (if negative then ['-'] else []) ++ cs.take (cs.length - rest.length)
  return (.number (String.ofList spelling), rest)

def number? : List Char → Option (Json × List Char)
  | '-' :: rest => unsigned? true rest
  | cs => unsigned? false cs

/-! ### Values -/

/-- Reads a value that starts with a letter or begins a number. -/
def scalar? : List Char → Option (Json × List Char)
  | 'n' :: 'u' :: 'l' :: 'l' :: rest => some (.null, rest)
  | 't' :: 'r' :: 'u' :: 'e' :: rest => some (.bool true, rest)
  | 'f' :: 'a' :: 'l' :: 's' :: 'e' :: rest => some (.bool false, rest)
  | cs => number? cs

/-- An array or object with `room` levels left for it: without any it cannot be held. -/
def nested (room : Nat) (value : Json) : Json :=
  if room = 0 then .unreadable else value

/-- An object, unless one of its names is no text. -/
def ofMembers (members : List (Option String × Json)) : Json :=
  match members.mapM fun (name, value) => name.map fun name => (name, value) with
  | some members => .object members
  | none => .unreadable

mutual

/-- Reads a value. The first argument bounds the number of steps, `room` is the number of levels
that may still be nested. -/
def value? : Nat → Nat → List Char → Option (Json × List Char)
  | 0, _, _ => none
  | steps + 1, room, cs =>
    match skipSpace cs with
    | '"' :: rest => (string? rest).map fun (s, rest) => ((s.map Json.text).getD .unreadable, rest)
    | '[' :: rest =>
      match skipSpace rest with
      | ']' :: rest => some (nested room (.array []), rest)
      | rest => (items? steps (room - 1) rest).map fun (xs, rest) => (nested room (.array xs), rest)
    | '{' :: rest =>
      match skipSpace rest with
      | '}' :: rest => some (nested room (.object []), rest)
      | rest => (members? steps (room - 1) rest).map fun (ms, rest) =>
          (nested room (ofMembers ms), rest)
    | cs => scalar? cs

/-- Reads one or more items up to the closing bracket. -/
def items? : Nat → Nat → List Char → Option (List Json × List Char)
  | 0, _, _ => none
  | steps + 1, room, cs =>
    match value? steps room cs with
    | none => none
    | some (x, rest) =>
      match skipSpace rest with
      | ',' :: rest => (items? steps room rest).map fun (xs, rest) => (x :: xs, rest)
      | ']' :: rest => some ([x], rest)
      | _ => none

/-- Reads one or more members up to the closing brace. -/
def members? : Nat → Nat → List Char → Option (List (Option String × Json) × List Char)
  | 0, _, _ => none
  | steps + 1, room, cs =>
    match skipSpace cs with
    | '"' :: rest =>
      match string? rest with
      | none => none
      | some (name, rest) =>
        match skipSpace rest with
        | ':' :: rest =>
          match value? steps room rest with
          | none => none
          | some (x, rest) =>
            match skipSpace rest with
            | ',' :: rest =>
              (members? steps room rest).map fun (ms, rest) => ((name, x) :: ms, rest)
            | '}' :: rest => some ([(name, x)], rest)
            | _ => none
        | _ => none
    | _ => none

end

end Reader

/-- Reads a whole text with at most `limit` levels of nesting. Every step but the one that enters
a list consumes a character, so twice the length of the text is enough. -/
def parseNested? (limit : Nat) (text : String) : Option Json :=
  let cs := text.toList
  match Reader.value? (2 * cs.length + 2) limit cs with
  | some (value, rest) => if (Reader.skipSpace rest).isEmpty then some value else none
  | none => none

/-- Reads a whole text. -/
def parse? (text : String) : Option Json :=
  parseNested? Reader.nestingLimit text

end Requisite.Json
