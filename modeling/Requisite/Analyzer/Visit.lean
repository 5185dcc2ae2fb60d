import Requisite.Analyzer.Resolution
import Requisite.Construct

/-!
# Visiting a tree

The four steps of an analysis: a file is begun, nodes are entered and left, the file is ended.
Declarations open a scope when they are entered, and when it is left, what it needs is folded into
the scope around it. References are resolved when their node is left.

The steps can be taken in any order. A scope that is left too often is passed over, and scopes that
are still open at the end of a file are closed there.
-/
namespace Requisite.Analyzer.State

open Code (Expr Modifiers Name Node NodeKind Param Span ConstItem)

/-! ### Scopes -/

/-- Creates or widens the entry of a declaration and makes it the innermost scope. -/
def enterScope (s : State) (category : Category) (name : String) (range : Range) : State :=
  let s := s.update category name range
  { s with scopes := s.scopes.push category name }

/-- Closes the innermost scope and folds what it needs into the one around it. -/
def leaveScope (s : State) : State :=
  match s.scopes.pop? with
  | none => s.note (.exitWithoutScope s.file)
  | some (frame, scopes) =>
    let s := { s with scopes }
    let s := match frame.locals with
      | some locals => s.update frame.category frame.name locals.accumulator
      | none => s
    match s.metrics.elements.get? frame.category frame.name with
    | none => s
    | some range =>
      let s := s.mergeIntoCurrent range
      if frame.category = .namespaces then s.widen range else s

/-- Applies what a construct needs to the innermost scope. -/
def apply (s : State) (construct : Construct) : State :=
  if construct.isSignificant then s.mergeIntoCurrent construct.contribution else s

/-! ### Beginning and end of a file -/

/-- The range that the global namespace starts from. -/
def coreRange : Range :=
  .ofExtension coreExtension none .baseline

def beginFile (s : State) (tree : Code.Tree) : State :=
  let s := { s with file := tree.path, source := tree.source, scopes := {}, cache := [] }
  let s := s.update .namespaces globalNamespace coreRange
  let s := s.update .extensions coreExtension coreRange
  s.note (.fileBegun tree.path)

/-- Closes the scopes that are still open. -/
def closeScopes (s : State) : State :=
  match s.scopes.frames.length with
  | 0 => s
  | count => Nat.repeat leaveScope count (s.note (.scopesLeftOpen count s.file))

/-- Folds the file into the global namespace, and that into the overall requirement. -/
def endFile (s : State) : State :=
  let s := s.closeScopes
  let (global, scopes) := s.scopes.takeGlobal
  let s := { s with scopes }
  let s := s.modifyElements fun t =>
    t.updateWith .namespaces globalNamespace global.accumulator fun r =>
      { r with extensionMin := some .baseline }
  let range := (s.metrics.elements.get? .namespaces globalNamespace).getD .user
  let s := s.update .extensions range.extension range
  let s := s.widen range
  s.count fun stats => { stats with filesAnalyzed := stats.filesAnalyzed + 1 }

/-! ### Entering nodes -/

def enterNamespace (s : State) : Option Name → State
  | some name =>
    s.enterScope .namespaces name.toString (Construct.namespaceDecl true).contribution
  | none => s.enterScope .namespaces globalNamespace coreRange

/-- Raises a range to what the interfaces it implements need of the runtime. -/
def inheritInterfaces (env : Env) (s : State) (range : Range) (interfaces : List Name) :
    Range × State :=
  interfaces.foldl
    (fun (range, s) interface =>
      let name := interface.toString
      let (found, s) := s.consult env .interfaces name none
      let s := s.use .interfaces name found
      ({ range.require found.min with max := raiseBound range.max found.max }, s))
    (range, s)

def enterClass (env : Env) (s : State) (name : Name) (modifiers : Modifiers)
    (parent : Option Name) (interfaces : List Name) : State :=
  let range := (Construct.ofClass name modifiers).contribution
  let (range, s) := match parent with
    | none => (range, s)
    | some parent =>
      let inherited := (Construct.parentClass parent.isFullyQualified).contribution
      (range.merge inherited, s.use .classes parent.toString inherited)
  let (range, s) := s.inheritInterfaces env range interfaces
  s.enterScope .classes name.toString range

def enterInterface (env : Env) (s : State) (name : Name) (parents : List Name) : State :=
  let range := (Construct.interfaceDecl name.isQualified).contribution
  let (range, s) := s.inheritInterfaces env range parents
  s.enterScope .interfaces name.toString range

/-- A method is known by the name of the scope around it and its own. -/
def enterMethod (s : State) (method : String) : State :=
  let (_, owner) := s.scopes.current
  s.enterScope .methods (owner ++ "::" ++ method) Construct.methodDecl.contribution

/-- A closure is known by its lines. -/
def closureName (span : Span) : String :=
  s!"closure-{span.startLine.toNat}-{span.endLine.toNat}"

def enterParam (s : State) (param : Param) : State :=
  let variadic := Construct.parameter param.variadic
  let s :=
    if variadic.isSignificant then
      { s with scopes := s.scopes.accumulate variadic.contribution }
    else s
  match param.typeHint with
  | none => s
  | some hint =>
    if hint.isFullyQualified then
      let range := (Construct.typeHint true).contribution
      (s.mergeIntoCurrent range).use .classes hint.toString range
    else s

def enter (env : Env) (s : State) (node : Node) : State :=
  let s := s.count fun stats => { stats with nodesVisited := stats.nodesVisited + 1 }
  match node.kind with
  | .namespaceDecl name => s.enterNamespace name
  | .classDecl name modifiers parent interfaces =>
    s.enterClass env name modifiers parent interfaces
  | .interfaceDecl name parents => s.enterInterface env name parents
  | .traitDecl name => s.enterScope .traits name.toString Construct.traitDecl.contribution
  | .functionDecl name =>
    s.enterScope .functions name.toString (Construct.functionDecl name.isQualified).contribution
  | .methodDecl name _ => s.enterMethod name
  | .closure _ =>
    s.enterScope .functions (closureName node.span) Construct.closure.contribution
  | .param param => s.enterParam param
  | .assign target value => { s with scopes := s.scopes.recordAssignment target value }
  | _ => s

/-! ### Leaving nodes -/

def leaveCall (env : Env) (s : State) (node : UInt32) (name : Option Name) (args : List Expr) :
    State :=
  match name with
  | none => s.skipDynamic
  | some name =>
    let function := name.toString
    let s := s.resolveReference env node .functions function (some args.length)
    if Text.sameFold function "define" then s.registerDefine args
    else
      match Guard.ofFunction? function with
      | some guard => s.registerGuard env node guard args
      | none => s

def leaveMethodCall (env : Env) (s : State) (node : UInt32) (receiver : Expr)
    (method : Option String) (argCount : Nat) : State :=
  match method with
  | none => s.skipDynamic
  | some method =>
    match s.scopes.locals.aliases.resolve? receiver with
    | none =>
      (s.note (.methodUnattributed method s.file)).count fun stats =>
        { stats with unresolvedMethodCalls := stats.unresolvedMethodCalls + 1 }
    | some className =>
      s.resolveReference env node .methods (className ++ "::" ++ method) (some argCount)

/-- Records the constants of a declaration. -/
def leaveConstants (env : Env) (s : State) (items : List ConstItem) : State :=
  items.foldl
    (fun s item =>
      let contribution := (Construct.constDecl item.value.isScalar).contribution
      let (range, s) := s.remember env ⟨item.id, .constants, item.name⟩ fun s => (contribution, s)
      s.recordReference .constants item.name range)
    s

/-- Whether an array literal is written with a bracket, which only the source can tell. -/
def isShortArray (s : State) (span : Span) : Bool :=
  match s.source.bind span.textFrom? with
  | none => false
  | some text => (Text.trimStart text.toList).head? == some '['

def leave (env : Env) (s : State) (node : Node) : State :=
  match node.kind with
  | .namespaceDecl _ | .classDecl .. | .interfaceDecl .. | .traitDecl _ | .functionDecl _
  | .methodDecl .. | .closure _ => s.leaveScope
  | .new none _ => s.skipDynamic
  | .new (some className) argCount =>
    s.resolveReference env node.id .classes className.toString (some argCount.toNat)
  | .call name args => s.leaveCall env node.id name args
  | .methodCall receiver name argCount =>
    s.leaveMethodCall env node.id receiver name argCount.toNat
  | .constFetch name => s.resolveReference env node.id .constants name.toString none
  | .magicConst name => s.resolveReference env node.id .constants name none
  | .constDecl items => s.leaveConstants env items
  | .useImport kind => s.apply (.useImport kind)
  | .arrayLiteral => s.apply (.arrayLiteral (s.isShortArray node.span))
  | .dimFetch base => s.apply (.dimFetch base.isCall)
  | .pow => s.apply .exponentiation
  | .param _ | .assign .. | .other => s

end Requisite.Analyzer.State
