import Requisite.Text.Ascii

/-!
# Flat TOML documents

The part of TOML that settings are written in: lines of a key and a value, where a value is a string
of any of the four kinds or a whole number of any of the four bases, with comments and blank lines
between them. `Toml.document?` refuses every other form of key or value.
-/
namespace Requisite.Toml

inductive Value where
  | string (text : String)
  | integer (value : Int)
deriving DecidableEq, Repr, Inhabited

/-! ### Lines -/

def isSpace (c : Char) : Bool :=
  c == ' ' || c == '\t'

def skipSpace (cs : List Char) : List Char :=
  cs.dropWhile isSpace

/-- The characters that can stand in a comment or a string: no controls but the tab. -/
def isPlain (c : Char) : Bool :=
  c == '\t' || (0x20 ≤ c.toNat && c.toNat != 0x7F)

/-- Passes over a line break, or over nothing at the end of the text. -/
def lineBreak? : List Char → Option (List Char)
  | [] => some []
  | '\n' :: rest => some rest
  | '\r' :: '\n' :: rest => some rest
  | _ => none

/-- Passes over white space, a comment, and the line break. -/
def lineEnd? (cs : List Char) : Option (List Char) :=
  match skipSpace cs with
  | '#' :: rest => lineBreak? (rest.dropWhile isPlain)
  | rest => lineBreak? rest

/-! ### Strings -/

/-- The character with the code point that hexadecimal digits write. -/
def hexChar? (digits : List Char) : Option Char := do
  let values ← digits.mapM Text.hexValue?
  Text.scalar? (values.foldl (fun n d => 16 * n + d) 0)

/-- The character of a one-letter escape. -/
def shortEscape? : Char → Option Char
  | 'b' => some (Char.ofNat 8)
  | 't' => some '\t'
  | 'n' => some '\n'
  | 'f' => some (Char.ofNat 12)
  | 'r' => some '\r'
  | 'e' => some (Char.ofNat 27)
  | '"' => some '"'
  | '\\' => some '\\'
  | _ => none

/-- A string with its first character, and what comes after the string. -/
def prepend (c : Char) (read : List Char × List Char) : List Char × List Char :=
  (c :: read.1, read.2)

/-- Reads a basic string after its opening quote. -/
def basic? : List Char → Option (List Char × List Char)
  | [] => none
  | '"' :: rest => some ([], rest)
  | '\\' :: 'x' :: a :: b :: rest => do
    let c ← hexChar? [a, b]
    return prepend c (← basic? rest)
  | '\\' :: 'u' :: a :: b :: c :: d :: rest => do
    let c ← hexChar? [a, b, c, d]
    return prepend c (← basic? rest)
  | '\\' :: 'U' :: a :: b :: c :: d :: e :: f :: g :: h :: rest => do
    let c ← hexChar? [a, b, c, d, e, f, g, h]
    return prepend c (← basic? rest)
  | '\\' :: e :: rest => do
    let c ← shortEscape? e
    return prepend c (← basic? rest)
  | c :: rest => if isPlain c && c != '\\' then (basic? rest).map (prepend c) else none

/-- Reads a literal string after its opening quote. -/
def literal? : List Char → Option (List Char × List Char)
  | [] => none
  | '\'' :: rest => some ([], rest)
  | c :: rest => if isPlain c then (literal? rest).map (prepend c) else none

/-- Whether nothing but white space comes before the next line break. -/
def endsLine (cs : List Char) : Bool :=
  match skipSpace cs with
  | '\n' :: _ | '\r' :: '\n' :: _ => true
  | _ => false

/-- Reads a basic string of several lines after its opening quotes. Line breaks are kept as they are
written. While `joining`, white space and line breaks are passed over, as they are after a backslash
at the end of a line. -/
def basicLines? (joining : Bool) : List Char → Option (List Char × List Char)
  | [] => none
  | '"' :: '"' :: '"' :: '"' :: '"' :: rest => some (['"', '"'], rest)
  | '"' :: '"' :: '"' :: '"' :: rest => some (['"'], rest)
  | '"' :: '"' :: '"' :: rest => some ([], rest)
  | '\n' :: rest =>
    if joining then basicLines? true rest else (basicLines? false rest).map (prepend '\n')
  | '\r' :: '\n' :: rest =>
    if joining then basicLines? true rest
    else (basicLines? false rest).map fun read => prepend '\r' (prepend '\n' read)
  | '\\' :: 'x' :: a :: b :: rest => do
    let c ← hexChar? [a, b]
    return prepend c (← basicLines? false rest)
  | '\\' :: 'u' :: a :: b :: c :: d :: rest => do
    let c ← hexChar? [a, b, c, d]
    return prepend c (← basicLines? false rest)
  | '\\' :: 'U' :: a :: b :: c :: d :: e :: f :: g :: h :: rest => do
    let c ← hexChar? [a, b, c, d, e, f, g, h]
    return prepend c (← basicLines? false rest)
  | '\\' :: e :: rest =>
    if endsLine (e :: rest) then basicLines? true (e :: rest)
    else do
      let c ← shortEscape? e
      return prepend c (← basicLines? false rest)
  | c :: rest =>
    if joining && isSpace c then basicLines? true rest
    else if isPlain c && c != '\\' then (basicLines? false rest).map (prepend c)
    else none

/-- Reads a literal string of several lines after its opening quotes, line breaks as they are. -/
def literalLines? : List Char → Option (List Char × List Char)
  | [] => none
  | '\'' :: '\'' :: '\'' :: '\'' :: '\'' :: rest => some (['\'', '\''], rest)
  | '\'' :: '\'' :: '\'' :: '\'' :: rest => some (['\''], rest)
  | '\'' :: '\'' :: '\'' :: rest => some ([], rest)
  | '\n' :: rest => (literalLines? rest).map (prepend '\n')
  | '\r' :: '\n' :: rest =>
    (literalLines? rest).map fun read => prepend '\r' (prepend '\n' read)
  | c :: rest => if isPlain c then (literalLines? rest).map (prepend c) else none

/-- A line break right after the opening quotes is not part of the string. -/
def skipFirstBreak (cs : List Char) : List Char :=
  match cs with
  | '\n' :: rest => rest
  | '\r' :: '\n' :: rest => rest
  | cs => cs

/-- Reads a string of one line. -/
def quotedLine? : List Char → Option (String × List Char)
  | '"' :: rest => (basic? rest).map fun (s, rest) => (String.ofList s, rest)
  | '\'' :: rest => (literal? rest).map fun (s, rest) => (String.ofList s, rest)
  | _ => none

/-- Reads a string of any kind. -/
def string? : List Char → Option (String × List Char)
  | '"' :: '"' :: '"' :: rest =>
    (basicLines? false (skipFirstBreak rest)).map fun (s, rest) => (String.ofList s, rest)
  | '\'' :: '\'' :: '\'' :: rest =>
    (literalLines? (skipFirstBreak rest)).map fun (s, rest) => (String.ofList s, rest)
  | cs => quotedLine? cs

/-! ### Whole numbers -/

/-- The digits without the underscores between them; every group has to have digits. -/
def joinGroups? (cs : List Char) : Option (List Char) :=
  let groups := cs.splitOn '_'
  if groups.any List.isEmpty then none else some groups.flatten

/-- Reads digits of a base. -/
def ofBase? (base : Nat) (cs : List Char) : Option Nat := do
  let digits ← joinGroups? cs
  let values ← digits.mapM Text.hexValue?
  guard (values.all (· < base))
  return values.foldl (fun n d => base * n + d) 0

/-- Reads a decimal number without a sign; no zero stands in front of other digits. -/
def decimal? (cs : List Char) : Option Nat :=
  match cs with
  | '0' :: _ :: _ => none
  | cs => ofBase? 10 cs

def integer? : List Char → Option Int
  | '0' :: 'x' :: digits => (ofBase? 16 digits).map Int.ofNat
  | '0' :: 'o' :: digits => (ofBase? 8 digits).map Int.ofNat
  | '0' :: 'b' :: digits => (ofBase? 2 digits).map Int.ofNat
  | '+' :: digits => (decimal? digits).map Int.ofNat
  | '-' :: digits => (decimal? digits).map fun n => -Int.ofNat n
  | digits => (decimal? digits).map Int.ofNat

/-! ### Documents -/

/-- The characters of a key that is not quoted. -/
def isBare (c : Char) : Bool :=
  c.isAlphanum || c == '_' || c == '-'

def key? (cs : List Char) : Option (String × List Char) :=
  match cs.takeWhile isBare with
  | [] => quotedLine? cs
  | name => some (String.ofList name, cs.dropWhile isBare)

/-- The characters that a value other than a string goes on with. -/
def isNumberChar (c : Char) : Bool :=
  isBare c || c == '+' || c == '.' || c == ':'

def value? (cs : List Char) : Option (Value × List Char) :=
  match string? cs with
  | some (s, rest) => some (.string s, rest)
  | none =>
    (integer? (cs.takeWhile isNumberChar)).map fun n => (.integer n, cs.dropWhile isNumberChar)

/-- Reads a key and its value. -/
def entry? (cs : List Char) : Option ((String × Value) × List Char) := do
  let (key, rest) ← key? cs
  match skipSpace rest with
  | '=' :: rest =>
    let (value, rest) ← value? (skipSpace rest)
    return ((key, value), rest)
  | _ => none

/-- Reads the lines of a document, as many as the first argument allows. -/
def lines? : Nat → List Char → Option (List (String × Value))
  | 0, _ => none
  | count + 1, cs =>
    match skipSpace cs with
    | [] => some []
    | cs =>
      match lineEnd? cs with
      | some rest => lines? count rest
      | none => do
        let (entry, rest) ← entry? cs
        let rest ← lineEnd? rest
        return entry :: (← lines? count rest)

/-- Reads a document. A byte order mark may stand in front of it, and every line but the last has a
character of its own. -/
def document? (text : String) : Option (List (String × Value)) :=
  let cs := match text.toList with
    | c :: rest => if c.toNat = 0xFEFF then rest else c :: rest
    | [] => []
  lines? (cs.length + 1) cs

end Requisite.Toml
