/-!
# JSON values

A value keeps what its text says and no more: the members of an object stay in the order of the
text, repeated names included. Whole numbers that fit in 64 bits carry their value; any other
number keeps its spelling, because nothing here is measured in fractions.

A text can be well formed and still have parts that cannot be held: a string with half a surrogate
pair, a number beyond the range of doubles, brackets nested too deep. Such a part is `unreadable`.
It does no harm where a reader passes over it, and no reader accepts it.
-/
namespace Requisite

inductive Json where
  | null
  | bool (value : Bool)
  | whole (value : Nat)
  | number (spelling : String)
  | text (value : String)
  | array (items : List Json)
  | object (members : List (String × Json))
  | unreadable
deriving Inhabited

namespace Json

mutual

/-- Whether every part of the value can be held. -/
def readable : Json → Bool
  | .unreadable => false
  | .array items => readableItems items
  | .object members => readableMembers members
  | _ => true

def readableItems : List Json → Bool
  | [] => true
  | item :: rest => item.readable && readableItems rest

def readableMembers : List (String × Json) → Bool
  | [] => true
  | (_, value) :: rest => value.readable && readableMembers rest

end

/-- An absent value is written `null`. -/
def ofOption {α : Type} (write : α → Json) : Option α → Json
  | none => .null
  | some a => write a

end Json

end Requisite
