import Requisite.Json.Basic

/-!
# Writing JSON text

Two layouts of one value: `render` without any space, and `pretty` with one item a line, two spaces
a level, and empty arrays and objects closed at once. Members are written in their order.
-/
namespace Requisite.Json

/-- The two hexadecimal digits of a number below 256. -/
def hexPair (n : Nat) : List Char :=
  [Nat.digitChar (n / 16), Nat.digitChar (n % 16)]

/-- How one character stands in a string. -/
def escapeChar (c : Char) : List Char :=
  if c = '"' then ['\\', '"']
  else if c = '\\' then ['\\', '\\']
  else if c = '\n' then ['\\', 'n']
  else if c = '\r' then ['\\', 'r']
  else if c = '\t' then ['\\', 't']
  else if c.toNat = 8 then ['\\', 'b']
  else if c.toNat = 12 then ['\\', 'f']
  else if c.toNat < 0x20 then ['\\', 'u', '0', '0'] ++ hexPair c.toNat
  else [c]

def renderText (s : String) : String :=
  String.ofList ('"' :: s.toList.flatMap escapeChar ++ ['"'])

/-- The text of a value that has no parts. -/
def renderScalar : Json → String
  | .bool true => "true"
  | .bool false => "false"
  | .whole n => toString n
  | .number spelling => spelling
  | .text s => renderText s
  | _ => "null"

mutual

def render : Json → String
  | .array items => "[" ++ String.intercalate "," (renderItems items) ++ "]"
  | .object members => "\x7b" ++ String.intercalate "," (renderMembers members) ++ "\x7d"
  | value => renderScalar value

def renderItems : List Json → List String
  | [] => []
  | item :: rest => render item :: renderItems rest

def renderMembers : List (String × Json) → List String
  | [] => []
  | (name, value) :: rest => (renderText name ++ ":" ++ render value) :: renderMembers rest

end

/-- A line break followed by the indentation of `level`. -/
def newline (level : Nat) : String :=
  String.ofList ('\n' :: List.replicate (2 * level) ' ')

/-- Lays out the parts of an array or object one level deeper than its brackets. -/
def block (level : Nat) (opening closing : String) (parts : List String) : String :=
  if parts.isEmpty then opening ++ closing
  else
    let lines := String.intercalate ("," ++ newline (level + 1)) parts
    opening ++ newline (level + 1) ++ lines ++ newline level ++ closing

mutual

def prettyAt (level : Nat) : Json → String
  | .array items => block level "[" "]" (prettyItems (level + 1) items)
  | .object members => block level "\x7b" "\x7d" (prettyMembers (level + 1) members)
  | value => renderScalar value

def prettyItems (level : Nat) : List Json → List String
  | [] => []
  | item :: rest => prettyAt level item :: prettyItems level rest

def prettyMembers (level : Nat) : List (String × Json) → List String
  | [] => []
  | (name, value) :: rest =>
    (renderText name ++ ": " ++ prettyAt level value) :: prettyMembers level rest

end

def pretty (value : Json) : String :=
  prettyAt 0 value

end Requisite.Json
