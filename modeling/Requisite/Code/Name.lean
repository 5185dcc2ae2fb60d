import Requisite.Error

/-!
# Names of symbols

A name is a list of parts joined by backslashes. A name with a backslash in front is fully
qualified, and one with several parts is qualified. `Name.toString` joins the parts, and
`Name.source` is the name as it stands in code.
-/
namespace Requisite.Code

inductive NameKind where
  | unqualified
  | qualified
  | fullyQualified
deriving DecidableEq, Repr, Inhabited

structure Name where
  parts : List String
  kind : NameKind
deriving DecidableEq, Repr, Inhabited

namespace Name

/-- A relative name; more than one part makes it qualified. -/
def ofParts (parts : List String) : Name :=
  { parts, kind := if parts.length > 1 then .qualified else .unqualified }

/-- Splits off the backslash that makes a name fully qualified. -/
def splitRoot : List Char → Bool × List Char
  | '\\' :: body => (true, body)
  | body => (false, body)

/-- Reads a name with white space around it. No part of a name is empty. -/
def parse? (text : String) : Option Name :=
  let (rooted, body) := splitRoot (Text.trimChars text.toList)
  let segments := body.splitOn '\\'
  if segments.any List.isEmpty then none
  else
    let name := ofParts (segments.map String.ofList)
    some (if rooted then { name with kind := .fullyQualified } else name)

/-- Reads a name; the error shows the text as it was given. -/
def parse (text : String) : Except Error Name :=
  match parse? text with
  | some name => .ok name
  | none => .error (.invalidName text)

def isQualified (n : Name) : Bool :=
  n.kind == .qualified

def isFullyQualified (n : Name) : Bool :=
  n.kind == .fullyQualified

/-- The last part, empty if there is none. -/
def last (n : Name) : String :=
  n.parts.getLast?.getD ""

/-- The parts joined by backslashes. -/
protected def toString (n : Name) : String :=
  String.intercalate "\\" n.parts

instance : ToString Name := ⟨Name.toString⟩

/-- The name as it stands in code, with the backslash in front of a fully qualified one. -/
def source (n : Name) : String :=
  if n.isFullyQualified then "\\" ++ n.toString else n.toString

end Name

end Requisite.Code
