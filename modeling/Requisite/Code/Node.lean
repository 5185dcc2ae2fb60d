import Requisite.Code.Expr

/-!
# Syntax trees

The tree of one source file: nodes of a closed set of kinds, each with what the analysis needs to
know of it, its place in the file, and the nodes inside it.
-/
namespace Requisite.Code

/-- The place of a node: its lines, and the offsets of its ends in bytes. -/
structure Span where
  startLine : UInt32 := 0
  endLine : UInt32 := 0
  startOffset : UInt64 := 0
  endOffset : UInt64 := 0
deriving DecidableEq, Repr, Inhabited

/-- The characters after the first `n` bytes, unless these end inside a character. -/
def dropBytes : Nat → List Char → Option (List Char)
  | 0, cs => some cs
  | _ + 1, [] => none
  | n + 1, c :: cs => if c.utf8Size ≤ n + 1 then dropBytes (n + 1 - c.utf8Size) cs else none

/-- The source from the first byte of the node on. -/
def Span.textFrom? (span : Span) (source : String) : Option String :=
  (dropBytes span.startOffset.toNat source.toList).map String.ofList

inductive Visibility where
  | pub
  | prot
  | priv
deriving DecidableEq, Repr, Inhabited

structure Modifiers where
  isAbstract : Bool := false
  isFinal : Bool := false
  isStatic : Bool := false
  visibility : Visibility := .pub
deriving DecidableEq, Repr, Inhabited

/-- What a `use` statement imports. -/
inductive UseKind where
  | normal
  | function
  | constant
deriving DecidableEq, Repr, Inhabited

/-- One constant of a `const A = 1, B = 2;` declaration. -/
structure ConstItem where
  id : UInt32
  name : String
  value : Expr
deriving DecidableEq, Repr, Inhabited

structure Param where
  name : Option String := none
  variadic : Bool := false
  byRef : Bool := false
  typeHint : Option Name := none
  hasDefault : Bool := false
deriving DecidableEq, Repr, Inhabited

/-- What a node is. Names of declarations are complete, with the namespace they stand in. -/
inductive NodeKind where
  | namespaceDecl (name : Option Name)
  | classDecl (name : Name) (modifiers : Modifiers) (parent : Option Name) (interfaces : List Name)
  | interfaceDecl (name : Name) (parents : List Name)
  | traitDecl (name : Name)
  | functionDecl (name : Name)
  | methodDecl (name : String) (modifiers : Modifiers)
  | closure (isStatic : Bool)
  | param (param : Param)
  | assign (target value : Expr)
  | new (className : Option Name) (argCount : UInt64)
  | call (name : Option Name) (args : List Expr)
  | methodCall (receiver : Expr) (name : Option String) (argCount : UInt64)
  | constFetch (name : Name)
  | magicConst (name : String)
  | constDecl (items : List ConstItem)
  | useImport (kind : UseKind)
  | arrayLiteral
  | dimFetch (base : Expr)
  | pow
  | other
deriving DecidableEq, Repr, Inhabited

/-- Whether nodes of this kind open a scope. -/
def NodeKind.isScope : NodeKind → Bool
  | .namespaceDecl _ | .classDecl .. | .interfaceDecl .. | .traitDecl _ | .functionDecl _
  | .methodDecl .. | .closure _ => true
  | _ => false

/-- A node; its id is its own within the tree. -/
structure Node where
  id : UInt32
  kind : NodeKind
  span : Span := {}
  children : List Node := []
deriving Repr, Inhabited

namespace Node

mutual

/-- The number of nodes in the tree below and including a node. -/
def size : Node → Nat
  | ⟨_, _, _, children⟩ => sizes children + 1

/-- The number of nodes in a forest. -/
def sizes : List Node → Nat
  | [] => 0
  | node :: rest => size node + sizes rest

end

end Node

/-- The tree of a file, with its source where that was kept. -/
structure Tree where
  path : String
  source : Option String := none
  nodes : List Node := []
deriving Repr, Inhabited

end Requisite.Code
