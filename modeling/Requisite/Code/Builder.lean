import Requisite.Code.Node

/-!
# Building trees

Nodes with ids of their own, counted upwards from one in the order in which they are made. Children
are made before the node that holds them.
-/
namespace Requisite.Code

/-- Makes nodes; the state is the next id. -/
abbrev Builder := StateM UInt32

namespace Builder

/-- What a builder makes, starting from the first id. -/
def make {α : Type} (b : Builder α) : α :=
  (b.run 1).1

def freshId : Builder UInt32 :=
  modifyGet fun id => (id, id + 1)

def node (kind : NodeKind) (children : List Node) (span : Span := {}) : Builder Node :=
  return { id := ← freshId, kind, span, children }

def closure (startLine endLine : UInt32) (children : List Node) : Builder Node :=
  node (.closure false) children { startLine, endLine }

def param (variadic : Bool) (typeHint : Option Name) : Builder Node :=
  node (.param { name := some "arg", variadic, typeHint }) []

def newObject (className : Name) (argCount : UInt64) : Builder Node :=
  node (.new (some className) argCount) []

/-- An assignment of a new object, with the instantiation inside it. -/
def assignNew (target : Expr) (className : Name) (argCount : UInt64) : Builder Node := do
  let instantiation ← newObject className argCount
  node (.assign target (.new (some className))) [instantiation]

/-- A declaration of constants, each with an id of its own. -/
def constants (items : List (String × Expr)) : Builder Node := do
  let items ← items.mapM fun (name, value) => do
    return ({ id := ← freshId, name, value } : ConstItem)
  node (.constDecl items) []

/-- An array literal that starts at a byte of the source. -/
def array (startOffset : UInt64) : Builder Node :=
  node .arrayLiteral [] { startOffset }

end Builder

end Requisite.Code
