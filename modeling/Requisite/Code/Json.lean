import Requisite.Code.Node
import Requisite.Json.Reader
import Requisite.Json.Record

/-!
# Syntax trees in JSON

Every type of a tree has a writer `toJson` and a reader `ofJson?`. Writers write all fields, except
for an empty list of children; readers fill in what may be left out.

A node is one object that holds the fields of its kind beside its own. So the kind cannot be read
before the whole object is held, and what a node holds beyond its id, its span and its children has
to be readable, whether its kind asks for it or not. In what is held, tags may be given by number.
-/
namespace Requisite.Code

/-! ### Names and operands -/

namespace Name

def toJson (n : Name) : Json :=
  .text n.source

def ofJson? : Json → Option Name
  | .text s => parse? s
  | _ => none

end Name

namespace Expr

/-- The tags of operands in their declared order. -/
def tags : List String :=
  ["variable", "property_fetch", "new", "func_call", "method_call", "string", "scalar", "other"]

def toJson : Expr → Json
  | .var name => .object [("type", .text "variable"), ("name", Json.ofOption .text name)]
  | .property object name =>
    .object [("type", .text "property_fetch"), ("var", object.toJson),
      ("name", Json.ofOption .text name)]
  | .new className =>
    .object [("type", .text "new"), ("class", Json.ofOption Name.toJson className)]
  | .call name => .object [("type", .text "func_call"), ("name", Json.ofOption Name.toJson name)]
  | .methodCall => .object [("type", .text "method_call")]
  | .string value => .object [("type", .text "string"), ("value", .text value)]
  | .scalar => .object [("type", .text "scalar")]
  | .other => .object [("type", .text "other")]

/-- Reads an operand; `held` says whether it is part of a value that was held as a whole. -/
def read? (held : Bool) (j : Json) : Option Expr :=
  match h : j.tagged? "type" with
  | none => none
  | some (tag, fields) =>
    if !fields.readable then none
    else
      match Json.nameAmong? tags held tag with
      | some "variable" => do
        fields.expectRecord 1
        return .var (← fields.optional 0 "name" (Json.nullable Json.text?) none)
      | some "property_fetch" =>
        match hv : fields.field? 0 "var" with
        | some (some object) => do
          have : sizeOf object < sizeOf j :=
            Nat.lt_of_lt_of_le (Json.sizeOf_field hv) (Json.sizeOf_tagged h)
          fields.expectRecord 2
          return .property (← read? true object)
            (← fields.optional 1 "name" (Json.nullable Json.text?) none)
        | _ => none
      | some "new" => do
        fields.expectRecord 1
        return .new (← fields.optional 0 "class" (Json.nullable Name.ofJson?) none)
      | some "func_call" => do
        fields.expectRecord 1
        return .call (← fields.optional 0 "name" (Json.nullable Name.ofJson?) none)
      | some "method_call" => do
        fields.expectRecord 0
        return .methodCall
      | some "string" => do
        fields.expectRecord 1
        return .string (← fields.required 0 "value" Json.text?)
      | some "scalar" => do
        fields.expectRecord 0
        return .scalar
      | some "other" => do
        fields.expectRecord 0
        return .other
      | _ => none
termination_by sizeOf j

def ofJson? : Json → Option Expr :=
  read? false

end Expr

/-! ### Parts of nodes -/

namespace Span

def toJson (s : Span) : Json :=
  .object
    [("start_line", .whole s.startLine.toNat), ("end_line", .whole s.endLine.toNat),
      ("start_offset", .whole s.startOffset.toNat), ("end_offset", .whole s.endOffset.toNat)]

def ofJson? (j : Json) : Option Span := do
  j.expectRecord 4
  return {
    startLine := ← j.optional 0 "start_line" Json.word32? 0
    endLine := ← j.optional 1 "end_line" Json.word32? 0
    startOffset := ← j.optional 2 "start_offset" Json.word64? 0
    endOffset := ← j.optional 3 "end_offset" Json.word64? 0 }

end Span

namespace Visibility

def name : Visibility → String
  | .pub => "public"
  | .prot => "protected"
  | .priv => "private"

def ofName? : String → Option Visibility
  | "public" => some .pub
  | "protected" => some .prot
  | "private" => some .priv
  | _ => none

end Visibility

namespace Modifiers

def toJson (m : Modifiers) : Json :=
  .object
    [("abstract", .bool m.isAbstract), ("final", .bool m.isFinal), ("static", .bool m.isStatic),
      ("visibility", .text m.visibility.name)]

def read? (held : Bool) (j : Json) : Option Modifiers := do
  j.expectRecord 4
  return {
    isAbstract := ← j.optional 0 "abstract" Json.bool? false
    isFinal := ← j.optional 1 "final" Json.bool? false
    isStatic := ← j.optional 2 "static" Json.bool? false
    visibility := ← j.optional 3 "visibility" (Json.choice? held Visibility.ofName?) .pub }

def ofJson? : Json → Option Modifiers :=
  read? false

end Modifiers

namespace UseKind

def name : UseKind → String
  | .normal => "normal"
  | .function => "function"
  | .constant => "constant"

def ofName? : String → Option UseKind
  | "normal" => some .normal
  | "function" => some .function
  | "constant" => some .constant
  | _ => none

def ofJson? : Json → Option UseKind :=
  Json.choice? false ofName?

end UseKind

namespace ConstItem

def toJson (c : ConstItem) : Json :=
  .object [("id", .whole c.id.toNat), ("name", .text c.name), ("value", c.value.toJson)]

def ofJson? (j : Json) : Option ConstItem := do
  j.expectRecord 3
  return {
    id := ← j.required 0 "id" Json.word32?
    name := ← j.required 1 "name" Json.text?
    value := ← j.required 2 "value" (Expr.read? true) }

end ConstItem

/-! ### Nodes -/

namespace NodeKind

/-- The tags of the kinds of nodes in their declared order. -/
def tags : List String :=
  ["namespace", "class", "interface", "trait", "function", "method", "closure", "param", "assign",
    "new", "func_call", "method_call", "const_fetch", "magic_const", "const", "use", "array",
    "array_dim_fetch", "pow", "other"]

def namesToJson (names : List Name) : Json :=
  .array (names.map Name.toJson)

/-- The members of a node that belong to its kind. -/
def toMembers : NodeKind → List (String × Json)
  | .namespaceDecl name =>
    [("kind", .text "namespace"), ("name", Json.ofOption Name.toJson name)]
  | .classDecl name modifiers parent interfaces =>
    [("kind", .text "class"), ("name", name.toJson), ("modifiers", modifiers.toJson),
      ("extends", Json.ofOption Name.toJson parent), ("implements", namesToJson interfaces)]
  | .interfaceDecl name parents =>
    [("kind", .text "interface"), ("name", name.toJson), ("extends", namesToJson parents)]
  | .traitDecl name => [("kind", .text "trait"), ("name", name.toJson)]
  | .functionDecl name => [("kind", .text "function"), ("name", name.toJson)]
  | .methodDecl name modifiers =>
    [("kind", .text "method"), ("name", .text name), ("modifiers", modifiers.toJson)]
  | .closure isStatic => [("kind", .text "closure"), ("static", .bool isStatic)]
  | .param p =>
    [("kind", .text "param"), ("name", Json.ofOption .text p.name), ("variadic", .bool p.variadic),
      ("by_ref", .bool p.byRef), ("type_hint", Json.ofOption Name.toJson p.typeHint),
      ("has_default", .bool p.hasDefault)]
  | .assign target value =>
    [("kind", .text "assign"), ("var", target.toJson), ("expr", value.toJson)]
  | .new className argCount =>
    [("kind", .text "new"), ("class", Json.ofOption Name.toJson className),
      ("arg_count", .whole argCount.toNat)]
  | .call name args =>
    [("kind", .text "func_call"), ("name", Json.ofOption Name.toJson name),
      ("args", .array (args.map Expr.toJson))]
  | .methodCall receiver name argCount =>
    [("kind", .text "method_call"), ("var", receiver.toJson), ("name", Json.ofOption .text name),
      ("arg_count", .whole argCount.toNat)]
  | .constFetch name => [("kind", .text "const_fetch"), ("name", name.toJson)]
  | .magicConst name => [("kind", .text "magic_const"), ("name", .text name)]
  | .constDecl items => [("kind", .text "const"), ("consts", .array (items.map ConstItem.toJson))]
  | .useImport kind => [("kind", .text "use"), ("use_kind", .text kind.name)]
  | .arrayLiteral => [("kind", .text "array")]
  | .dimFetch base => [("kind", .text "array_dim_fetch"), ("var", base.toJson)]
  | .pow => [("kind", .text "pow")]
  | .other => [("kind", .text "other")]

def paramOfJson? (j : Json) : Option Param := do
  return {
    name := ← j.optional 0 "name" (Json.nullable Json.text?) none
    variadic := ← j.optional 1 "variadic" Json.bool? false
    byRef := ← j.optional 2 "by_ref" Json.bool? false
    typeHint := ← j.optional 3 "type_hint" (Json.nullable Name.ofJson?) none
    hasDefault := ← j.optional 4 "has_default" Json.bool? false }

/-- Reads the kind of a node from the object that holds the node. -/
def ofJson? (j : Json) : Option NodeKind := do
  let (tag, fields) ← j.tagged? "kind"
  match ← Json.nameAmong? tags true tag with
  | "namespace" =>
    return .namespaceDecl (← fields.optional 0 "name" (Json.nullable Name.ofJson?) none)
  | "class" =>
    return .classDecl
      (← fields.required 0 "name" Name.ofJson?)
      (← fields.optional 1 "modifiers" (Modifiers.read? true) {})
      (← fields.optional 2 "extends" (Json.nullable Name.ofJson?) none)
      (← fields.optional 3 "implements" (Json.list? Name.ofJson?) [])
  | "interface" =>
    return .interfaceDecl
      (← fields.required 0 "name" Name.ofJson?)
      (← fields.optional 1 "extends" (Json.list? Name.ofJson?) [])
  | "trait" => return .traitDecl (← fields.required 0 "name" Name.ofJson?)
  | "function" => return .functionDecl (← fields.required 0 "name" Name.ofJson?)
  | "method" =>
    return .methodDecl
      (← fields.required 0 "name" Json.text?)
      (← fields.optional 1 "modifiers" (Modifiers.read? true) {})
  | "closure" => return .closure (← fields.optional 0 "static" Json.bool? false)
  | "param" => return .param (← paramOfJson? fields)
  | "assign" =>
    return .assign
      (← fields.required 0 "var" (Expr.read? true))
      (← fields.required 1 "expr" (Expr.read? true))
  | "new" =>
    return .new
      (← fields.optional 0 "class" (Json.nullable Name.ofJson?) none)
      (← fields.optional 1 "arg_count" Json.word64? 0)
  | "func_call" =>
    return .call
      (← fields.optional 0 "name" (Json.nullable Name.ofJson?) none)
      (← fields.optional 1 "args" (Json.list? (Expr.read? true)) [])
  | "method_call" =>
    return .methodCall
      (← fields.required 0 "var" (Expr.read? true))
      (← fields.optional 1 "name" (Json.nullable Json.text?) none)
      (← fields.optional 2 "arg_count" Json.word64? 0)
  | "const_fetch" => return .constFetch (← fields.required 0 "name" Name.ofJson?)
  | "magic_const" => return .magicConst (← fields.required 0 "name" Json.text?)
  | "const" => return .constDecl (← fields.required 0 "consts" (Json.list? ConstItem.ofJson?))
  | "use" =>
    return .useImport
      (← fields.optional 0 "use_kind" (Json.choice? true UseKind.ofName?) .normal)
  | "array" => return .arrayLiteral
  | "array_dim_fetch" => return .dimFetch (← fields.required 0 "var" (Expr.read? true))
  | "pow" => return .pow
  | "other" => return .other
  | _ => none

end NodeKind

namespace Node

mutual

def toJson : Node → Json
  | ⟨id, kind, span, children⟩ =>
    .object
      ([("id", .whole id.toNat)] ++ kind.toMembers ++ [("span", span.toJson)]
        ++ if children.isEmpty then [] else [("children", .array (forestToJson children))])

def forestToJson : List Node → List Json
  | [] => []
  | node :: rest => node.toJson :: forestToJson rest

end

/-- Whether everything in a node but the fields of its own can be held. -/
def isHeld (members : List (String × Json)) : Bool :=
  members.all fun (name, value) => ["id", "span", "children"].contains name || value.readable

/-- The values of the children, none if there is no such field. -/
def childrenOf? (members : List (String × Json)) : Option (List Json) :=
  match Json.member? "children" members with
  | some none => some []
  | some (some (.array items)) => some items
  | _ => none

theorem sizeOf_children {members : List (String × Json)} {items : List Json} {child : Json}
    (h : childrenOf? members = some items) (mem : child ∈ items) :
    sizeOf child < sizeOf members := by
  unfold childrenOf? at h
  split at h
  · simp only [Option.some.injEq] at h
    subst h
    simp at mem
  · rename_i items' found
    simp only [Option.some.injEq] at h
    subst h
    have small := Json.sizeOf_member found
    have smaller := List.sizeOf_lt_of_mem mem
    simp only [Json.array.sizeOf_spec] at small
    omega
  · simp at h

/-- Reads a node, which is always an object. -/
def ofJson? : Json → Option Node
  | .object members =>
    match isHeld members, h : childrenOf? members with
    | true, some items => do
      let record := Json.object members
      let id ← record.required 0 "id" Json.word32?
      let kind ← NodeKind.ofJson? record
      let span ← record.optional 0 "span" Span.ofJson? {}
      let children ← items.attach.mapM fun ⟨child, mem⟩ =>
        have : sizeOf child < sizeOf members := sizeOf_children h mem
        ofJson? child
      return { id, kind, span, children }
    | _, _ => none
  | _ => none
termination_by j => sizeOf j
decreasing_by
  simp only [Json.object.sizeOf_spec]
  omega

end Node

/-! ### Trees -/

namespace Tree

def toJson (t : Tree) : Json :=
  .object
    [("path", .text t.path), ("source", Json.ofOption .text t.source),
      ("nodes", .array (Node.forestToJson t.nodes))]

def ofJson? (j : Json) : Option Tree := do
  j.expectRecord 3
  return {
    path := ← j.required 0 "path" Json.text?
    source := ← j.optional 1 "source" (Json.nullable Json.text?) none
    nodes := ← j.optional 2 "nodes" (Json.list? Node.ofJson?) [] }

/-- Reads the text of a tree; the error names the file it came from. -/
def ofJsonText (path text : String) : Except Error Tree :=
  match (Json.parse? text).bind ofJson? with
  | some tree => .ok tree
  | none => .error (.malformedTree path)

end Tree

end Requisite.Code
