import Requisite.Code.Node
import Requisite.Range

/-!
# Constructs and language features

The shape of a construct decides which feature of the language it relies on, and the feature which
release it needs. Nothing else is looked at.
-/
namespace Requisite

/-- Features of the language that came with some release. -/
inductive Feature where
  | baseline
  | objectModel
  | namespaces
  | closures
  | traits
  | shortArraySyntax
  | arrayDereferencing
  | variadicFunctions
  | useFunctionAndConst
  | constantScalarExpressions
  | exponentiationOperator
deriving DecidableEq, Repr, Inhabited

namespace Feature

/-- The first release with the feature. -/
def since : Feature → Version
  | .baseline => .release 4 0 0
  | .objectModel => .release 5 0 0
  | .namespaces | .closures => .release 5 3 0
  | .traits | .shortArraySyntax | .arrayDereferencing => .release 5 4 0
  | .variadicFunctions | .useFunctionAndConst | .constantScalarExpressions
  | .exponentiationOperator => .release 5 6 0

end Feature

/-- The shape of a construct. -/
inductive Construct where
  | namespaceDecl (named : Bool)
  | classDecl (qualified isAbstract isFinal : Bool)
  | parentClass (fullyQualified : Bool)
  | interfaceDecl (qualified : Bool)
  | traitDecl
  | closure
  | functionDecl (qualified : Bool)
  | methodDecl
  | parameter (variadic : Bool)
  | typeHint (fullyQualified : Bool)
  | useImport (kind : Code.UseKind)
  | arrayLiteral (shortSyntax : Bool)
  | dimFetch (onCallResult : Bool)
  | constDecl (scalarInitializer : Bool)
  | exponentiation
deriving DecidableEq, Repr, Inhabited

namespace Construct

/-- The shape of a class declaration. -/
def ofClass (name : Code.Name) (modifiers : Code.Modifiers) : Construct :=
  .classDecl name.isQualified modifiers.isAbstract modifiers.isFinal

/-- The feature that a construct relies on. -/
def feature : Construct → Feature
  | .namespaceDecl named => if named then .namespaces else .baseline
  | .classDecl qualified isAbstract isFinal =>
    if qualified then .namespaces
    else if isAbstract || isFinal then .objectModel
    else .baseline
  | .parentClass fullyQualified => if fullyQualified then .namespaces else .baseline
  | .interfaceDecl qualified => if qualified then .namespaces else .objectModel
  | .traitDecl => .traits
  | .closure => .closures
  | .functionDecl qualified => if qualified then .namespaces else .baseline
  | .methodDecl => .baseline
  | .parameter variadic => if variadic then .variadicFunctions else .baseline
  | .typeHint fullyQualified => if fullyQualified then .namespaces else .baseline
  | .useImport .normal => .baseline
  | .useImport _ => .useFunctionAndConst
  | .arrayLiteral shortSyntax => if shortSyntax then .shortArraySyntax else .baseline
  | .dimFetch onCallResult => if onCallResult then .arrayDereferencing else .baseline
  | .constDecl scalarInitializer =>
    if scalarInitializer then .baseline else .constantScalarExpressions
  | .exponentiation => .exponentiationOperator

/-- What the construct itself requires. -/
def contribution (c : Construct) : Range :=
  .since c.feature.since

/-- Whether the construct requires anything beyond the baseline. -/
def isSignificant (c : Construct) : Bool :=
  c.feature != .baseline

end Construct

end Requisite
