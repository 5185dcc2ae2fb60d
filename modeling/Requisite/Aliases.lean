import Requisite.Code.Expr

/-!
# Aliases

Which class was last instantiated into a variable, or into a property of a variable. Only
`$var = new Name` and `$var->property = new Name` are remembered, and only these receivers are
resolved.
-/
namespace Requisite

/-- A receiver that an alias can be remembered for. -/
inductive Receiver where
  | var (name : String)
  | property (object field : String)
deriving DecidableEq, Repr, Inhabited

def Receiver.ofExpr? : Code.Expr → Option Receiver
  | .var (some name) => some (.var name)
  | .property (.var (some object)) (some field) => some (.property object field)
  | _ => none

/-- The class last instantiated into each receiver. -/
structure Aliases where
  entries : List (Receiver × String) := []
deriving DecidableEq, Repr, Inhabited

namespace Aliases

/-- The class of a receiver. -/
def get? (t : Aliases) (receiver : Receiver) : Option String :=
  t.entries.lookup receiver

/-- The table with a class for a receiver, in place of any other. -/
def insert (t : Aliases) (receiver : Receiver) (className : String) : Aliases :=
  ⟨(receiver, className) :: t.entries.filter fun e => e.1 != receiver⟩

@[simp] theorem get?_insert_self (t : Aliases) (receiver : Receiver) (className : String) :
    (t.insert receiver className).get? receiver = some className := by
  simp [get?, insert]

theorem get?_insert_of_ne (t : Aliases) {receiver other : Receiver} (className : String)
    (ne : other ≠ receiver) : (t.insert receiver className).get? other = t.get? other := by
  have skip : ∀ entries : List (Receiver × String),
      (entries.filter fun e => e.1 != receiver).lookup other = entries.lookup other := by
    intro entries
    induction entries with
    | nil => rfl
    | cons e rest ih =>
      obtain ⟨r, c⟩ := e
      by_cases hr : r = receiver
      · rw [List.filter_cons_of_neg (by simpa using hr), ih, List.lookup_cons, hr,
          beq_false_of_ne ne]
      · rw [List.filter_cons_of_pos (by simpa using hr), List.lookup_cons, List.lookup_cons, ih]
  rw [get?, insert, List.lookup_cons, beq_false_of_ne ne]
  exact skip t.entries

/-- What an assignment makes known, if anything. -/
def ofAssignment? (target value : Code.Expr) : Option (Receiver × String) :=
  match value with
  | .new (some className) => (Receiver.ofExpr? target).map fun r => (r, className.toString)
  | _ => none

/-- The table after an assignment. -/
def record (t : Aliases) (target value : Code.Expr) : Aliases :=
  match ofAssignment? target value with
  | some (receiver, className) => t.insert receiver className
  | none => t

/-- The class of the object that `receiver` holds, if it is known. -/
def resolve? (t : Aliases) (receiver : Code.Expr) : Option String :=
  (Receiver.ofExpr? receiver).bind t.get?

end Aliases

end Requisite
