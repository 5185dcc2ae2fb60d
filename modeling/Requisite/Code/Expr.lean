import Requisite.Code.Name

/-!
# Operands

The outline of an expression that is looked at without being walked through: receivers of calls,
targets and values of assignments, arguments. A name that is absent is computed when the code runs.
-/
namespace Requisite.Code

inductive Expr where
  /-- `$name` -/
  | var (name : Option String)
  /-- `$object->name` -/
  | property (object : Expr) (name : Option String)
  /-- `new Name(...)` -/
  | new (className : Option Name)
  /-- `name(...)` -/
  | call (name : Option Name)
  | methodCall
  | string (value : String)
  /-- A literal other than a string. -/
  | scalar
  | other
deriving DecidableEq, Repr, Inhabited

namespace Expr

def literal? : Expr → Option String
  | .string value => some value
  | _ => none

def isScalar : Expr → Bool
  | .string _ | .scalar => true
  | _ => false

def isCall : Expr → Bool
  | .call _ => true
  | _ => false

end Expr

end Requisite.Code
