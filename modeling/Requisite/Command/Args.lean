import Requisite.Text.Ascii

/-!
# Words and options

The words of a command line are positional words and options. An option has a long name, written
`--name`, and may have a letter, written `-n`. Letters can be written together, and the value of an
option can be attached to it or be the next word. After `--` all words are positional.

`Args.scan` only takes the words apart. What they mean, and whether there are too many or too few of
them, is for the command to say.
-/
namespace Requisite.Args

/-- Whether an option takes a value. -/
inductive Takes where
  | nothing
  | value
  /-- A value that can only be attached with an equals sign, or none. -/
  | attached
deriving DecidableEq, Repr, Inhabited

structure Spec where
  name : String
  letter : Option Char := none
  takes : Takes := .nothing
deriving DecidableEq, Repr, Inhabited

/-- A part of a command line. -/
inductive Item where
  | word (text : String)
  | option (name : String) (value : Option String)
  /-- Something that is neither. -/
  | fault
deriving DecidableEq, Repr, Inhabited

/-- Whether a word cannot be taken for an option. -/
def isWord (s : String) : Bool :=
  s == "-" || s.toList.head? != some '-'

/-- Splits a long option at the first equals sign. -/
def splitValue (cs : List Char) : String × Option String :=
  let name := String.ofList (cs.takeWhile (· != '='))
  match cs.dropWhile (· != '=') with
  | [] => (name, none)
  | _ :: value => (name, some (String.ofList value))

/-- A long option without its dashes: the item, or the name of an option that still needs a
value. -/
def long (specs : List Spec) (cs : List Char) : Item ⊕ String :=
  let (name, value) := splitValue cs
  match specs.find? fun spec => spec.name == name with
  | none => .inl .fault
  | some spec =>
    match spec.takes, value with
    | .nothing, none => .inl (.option name none)
    | .nothing, some _ => .inl .fault
    | .value, none => .inr name
    | .value, some value => .inl (.option name (some value))
    | .attached, value => .inl (.option name value)

/-- Letters written together: their items, and the name of the last option if it still needs a
value. -/
def letters (specs : List Spec) : List Char → List Item × Option String
  | [] => ([], none)
  | c :: rest =>
    match specs.find? fun spec => spec.letter == some c with
    | none => ([.fault], none)
    | some spec =>
      match spec.takes with
      | .nothing =>
        let (items, needs) := letters specs rest
        (.option spec.name none :: items, needs)
      | _ =>
        match rest with
        | [] => ([], some spec.name)
        | '=' :: value => ([.option spec.name (some (String.ofList value))], none)
        | value => ([.option spec.name (some (String.ofList value))], none)

/-- Takes the words of a command line apart. -/
def scan (specs : List Spec) : List String → List Item
  | [] => []
  | arg :: rest =>
    let (items, needs) : List Item × Option String :=
      match arg.toList with
      | '-' :: '-' :: cs =>
        match long specs cs with
        | .inl item => ([item], none)
        | .inr name => ([], some name)
      | '-' :: c :: cs => letters specs (c :: cs)
      | _ => ([.word arg], none)
    if arg == "--" then rest.map .word
    else
      match needs, rest with
      | none, rest => items ++ scan specs rest
      | some _, [] => items ++ [.fault]
      | some name, value :: rest =>
        if isWord value then items ++ .option name (some value) :: scan specs rest
        else items ++ [.fault]

/-- Reads a count of 64 bits, with or without a plus sign. -/
def count? (text : String) : Option Nat :=
  let digits := match text.toList with
    | '+' :: digits => digits
    | digits => digits
  (Text.readWord64? digits).map UInt64.toNat

/-- Reads a path, which is not empty. -/
def path? (text : String) : Option String :=
  if text.isEmpty then none else some text

end Requisite.Args
