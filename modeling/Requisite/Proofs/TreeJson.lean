import Requisite.Code.Json
import Requisite.Proofs.Records

/-!
# Syntax trees read back

A tree is read back as it was written, whatever its nodes are and however they are nested. Of its
names alone something has to be known: a name is written as it stands in code, and only what some
text is read as can be read from there again.

A node is the object in which the members of its kind stand between its own. The two sets of names
have nothing in common, so each of the readers finds what its writer wrote.
-/
namespace Requisite.Code

/-! ### Names -/

namespace Name

/-- The name is the reading of some text. -/
def Spelled (n : Name) : Prop :=
  ∃ text, parse? text = some n

theorem splitRoot_eq (cs : List Char) :
    (if (splitRoot cs).1 then '\\' :: (splitRoot cs).2 else (splitRoot cs).2) = cs := by
  unfold splitRoot
  split <;> simp

@[simp] theorem isFullyQualified_ofParts (parts : List String) :
    (ofParts parts).isFullyQualified = false := by
  grind [isFullyQualified, ofParts]

theorem toList_toString (n : Name) :
    n.toString.toList = ['\\'].intercalate (n.parts.map String.toList) := by
  simp [Name.toString]

/-- A name stands in code as it was read, but for the white space around it. -/
theorem toList_source {text : String} {n : Name} (h : parse? text = some n) :
    n.source.toList = Text.trimChars text.toList := by
  have whole := splitRoot_eq (Text.trimChars text.toList)
  simp only [parse?] at h
  generalize Text.trimChars text.toList = cs at h whole ⊢
  have joined : ['\\'].intercalate ((splitRoot cs).2.splitOn '\\') = (splitRoot cs).2 :=
    List.intercalate_splitOn '\\'
  have parts (body : List (List Char)) :
      (ofParts (body.map String.ofList)).parts.map String.toList = body := by
    simp [ofParts, Function.comp_def]
  split at h
  · simp at h
  · rw [← whole]
    obtain rfl := Option.some.inj h
    split
    · simp [source, isFullyQualified, toList_toString, parts, joined]
    · simp [source, toList_toString, parts, joined]

theorem parse?_source {n : Name} (h : n.Spelled) : parse? n.source = some n := by
  obtain ⟨text, read⟩ := h
  simp [← read, parse?, toList_source read]

@[simp] theorem ofJson?_toJson {n : Name} (h : n.Spelled) : ofJson? n.toJson = some n :=
  parse?_source h

@[simp] theorem nullable_ofJson? {n : Option Name} (h : ∀ m ∈ n.toList, m.Spelled) :
    Json.nullable ofJson? (Json.ofOption toJson n) = some n :=
  Json.nullable_ofOption (by simp [toJson]) fun m mem => ofJson?_toJson (h m (by simpa using mem))

@[simp] theorem list?_ofJson? {ns : List Name} (h : ∀ n ∈ ns, n.Spelled) :
    Json.list? ofJson? (NodeKind.namesToJson ns) = some ns :=
  Json.list?_map fun n mem => ofJson?_toJson (h n mem)

@[simp] theorem plain_toJson (n : Name) : n.toJson.plain := by
  simp [toJson]

end Name

/-! ### Operands -/

namespace Expr

/-- The names that an operand mentions. -/
def names : Expr → List Name
  | .new className => className.toList
  | .call name => name.toList
  | .property object _ => object.names
  | _ => []

/-- The tag that says which form an operand has. -/
def tag : Expr → String
  | .var _ => "variable"
  | .property .. => "property_fetch"
  | .new _ => "new"
  | .call _ => "func_call"
  | .methodCall => "method_call"
  | .string _ => "string"
  | .scalar => "scalar"
  | .other => "other"

theorem tagged?_toJson (e : Expr) : e.toJson.tagged? "type" = some (.text e.tag, e.toJson) := by
  cases e <;> simp [Json.tagged?, toJson, tag]

theorem nameAmong?_tag (e : Expr) (held : Bool) :
    Json.nameAmong? tags held (.text e.tag) = some e.tag := by
  cases e <;> simp [Json.nameAmong?, tags, tag]

@[simp] theorem plain_toJson (e : Expr) : e.toJson.plain := by
  induction e with
  | property object name ih => simp [toJson, ih]
  | _ => simp [toJson]

theorem read?_toJson (e : Expr) (spelled : ∀ n ∈ e.names, n.Spelled) (held : Bool) :
    read? held e.toJson = some e := by
  rw [read?]
  split
  · rename_i untagged
    simp [tagged?_toJson] at untagged
  · rename_i tag fields tagged
    rw [tagged?_toJson] at tagged
    obtain ⟨rfl, rfl⟩ := tagged
    simp only [Json.readable_of_plain _ (plain_toJson _), nameAmong?_tag, Bool.not_true,
      Bool.false_eq_true, if_false]
    -- Only the fields are left to be read, each form from its own branch.
    cases e with
    | property object name =>
      have back := read?_toJson object spelled true
      simp only [Expr.tag]
      split
      · rename_i found
        simp [toJson, Json.field?] at found
        simp [toJson, ← found, back]
      · rename_i h
        simp [toJson, Json.field?] at h
    | new className => simp [Expr.tag, toJson, Name.nullable_ofJson? spelled]
    | call name => simp [Expr.tag, toJson, Name.nullable_ofJson? spelled]
    | _ => simp [Expr.tag, toJson]

end Expr

/-! ### Parts of nodes -/

@[simp] theorem Span.plain_toJson (s : Span) : s.toJson.plain := by
  simp [toJson]

@[simp] theorem Span.ofJson?_toJson (s : Span) : ofJson? s.toJson = some s := by
  simp [toJson, ofJson?]

@[simp] theorem Visibility.ofName?_name (v : Visibility) : ofName? v.name = some v := by
  cases v <;> rfl

@[simp] theorem UseKind.ofName?_name (k : UseKind) : ofName? k.name = some k := by
  cases k <;> rfl

@[simp] theorem Modifiers.plain_toJson (m : Modifiers) : m.toJson.plain := by
  simp [toJson]

@[simp] theorem Modifiers.read?_toJson (held : Bool) (m : Modifiers) :
    read? held m.toJson = some m := by
  simp [toJson, read?]

@[simp] theorem ConstItem.plain_toJson (c : ConstItem) : c.toJson.plain := by
  simp [toJson]

theorem ConstItem.ofJson?_toJson {c : ConstItem} (spelled : ∀ n ∈ c.value.names, n.Spelled) :
    ofJson? c.toJson = some c := by
  simp [toJson, ofJson?, Expr.read?_toJson c.value spelled]

/-! ### Nodes -/

namespace NodeKind

/-- The names that a node mentions, apart from those of its children. -/
def names : NodeKind → List Name
  | .namespaceDecl name => name.toList
  | .classDecl name _ parent interfaces => name :: (parent.toList ++ interfaces)
  | .interfaceDecl name parents => name :: parents
  | .traitDecl name | .functionDecl name | .constFetch name => [name]
  | .param p => p.typeHint.toList
  | .assign target value => target.names ++ value.names
  | .new className _ => className.toList
  | .call name args => name.toList ++ args.flatMap Expr.names
  | .methodCall receiver _ _ => receiver.names
  | .constDecl items => items.flatMap fun item => item.value.names
  | .dimFetch base => base.names
  | _ => []

/-- The tag that says which kind of node it is. -/
def tag : NodeKind → String
  | .namespaceDecl _ => "namespace"
  | .classDecl .. => "class"
  | .interfaceDecl .. => "interface"
  | .traitDecl _ => "trait"
  | .functionDecl _ => "function"
  | .methodDecl .. => "method"
  | .closure _ => "closure"
  | .param _ => "param"
  | .assign .. => "assign"
  | .new .. => "new"
  | .call .. => "func_call"
  | .methodCall .. => "method_call"
  | .constFetch _ => "const_fetch"
  | .magicConst _ => "magic_const"
  | .constDecl _ => "const"
  | .useImport _ => "use"
  | .arrayLiteral => "array"
  | .dimFetch _ => "array_dim_fetch"
  | .pow => "pow"
  | .other => "other"

theorem nameAmong?_tag (kind : NodeKind) (indexed : Bool) :
    Json.nameAmong? tags indexed (.text kind.tag) = some kind.tag := by
  cases kind <;> simp [Json.nameAmong?, tags, tag]

/-- The members of a node that are its own keep clear of those of its kind. -/
theorem member?_toMembers (kind : NodeKind) {name : String}
    (own : name ∈ ["id", "span", "children"]) : Json.member? name kind.toMembers = some none := by
  simp only [List.mem_cons, List.not_mem_nil, or_false] at own
  rcases own with rfl | rfl | rfl <;> cases kind <;> simp [toMembers]

section
variable {kind : NodeKind} {id : Json} {tail : List (String × Json)}
  (apart : ∀ name, name ≠ "span" → name ≠ "children" → Json.member? name tail = some none)
include apart

theorem tagged?_members :
    Json.tagged? "kind" (.object (("id", id) :: (kind.toMembers ++ tail)))
      = some (.text kind.tag, .object (("id", id) :: (kind.toMembers ++ tail))) := by
  cases kind <;> simp [Json.tagged?, toMembers, tag, apart]

theorem ofJson?_members (spelled : ∀ n ∈ kind.names, n.Spelled) :
    ofJson? (.object (("id", id) :: (kind.toMembers ++ tail))) = some kind := by
  rw [ofJson?, tagged?_members apart]
  simp only [Option.bind_eq_bind, Option.bind_some, nameAmong?_tag]
  -- In each case the tag goes in first, so that one branch of the reader is left to look at.
  cases kind with
  | namespaceDecl name =>
    simp only [tag]
    simp [toMembers, apart, Name.nullable_ofJson? spelled]
  | classDecl name modifiers parent interfaces =>
    simp only [names, List.forall_mem_cons, List.forall_mem_append] at spelled
    obtain ⟨name, parent, interfaces⟩ := spelled
    simp only [tag]
    simp [toMembers, apart, Name.ofJson?_toJson name, Name.nullable_ofJson? parent,
      Name.list?_ofJson? interfaces]
  | interfaceDecl name parents =>
    simp only [names, List.forall_mem_cons] at spelled
    simp only [tag]
    simp [toMembers, apart, Name.ofJson?_toJson spelled.1, Name.list?_ofJson? spelled.2]
  | traitDecl name | functionDecl name | constFetch name =>
    simp only [tag]
    simp [toMembers, apart, Name.ofJson?_toJson (spelled name (by simp [names]))]
  | param p =>
    simp only [tag]
    simp [toMembers, paramOfJson?, apart, Name.nullable_ofJson? spelled]
  | assign target value =>
    simp only [names, List.forall_mem_append] at spelled
    simp only [tag]
    simp [toMembers, apart, Expr.read?_toJson target spelled.1, Expr.read?_toJson value spelled.2]
  | new className argCount =>
    simp only [tag]
    simp [toMembers, apart, Name.nullable_ofJson? spelled]
  | call name args =>
    simp only [names, List.forall_mem_append, List.forall_mem_flatMap] at spelled
    have back : Json.list? (Expr.read? true) (.array (args.map Expr.toJson)) = some args :=
      Json.list?_map fun arg mem => Expr.read?_toJson arg (spelled.2 arg mem) true
    simp only [tag]
    simp [toMembers, apart, Name.nullable_ofJson? spelled.1, back]
  | constDecl items =>
    simp only [names, List.forall_mem_flatMap] at spelled
    have back : Json.list? ConstItem.ofJson? (.array (items.map ConstItem.toJson)) = some items :=
      Json.list?_map fun item mem => ConstItem.ofJson?_toJson (spelled item mem)
    simp only [tag]
    simp [toMembers, apart, back]
  | methodCall receiver name argCount =>
    simp only [tag]
    simp [toMembers, apart, Expr.read?_toJson receiver spelled]
  | dimFetch base =>
    simp only [tag]
    simp [toMembers, apart, Expr.read?_toJson base spelled]
  | _ =>
    simp only [tag]
    simp [toMembers, apart]

end

theorem plain_of_mem_toMembers {kind : NodeKind} {member : String × Json}
    (h : member ∈ kind.toMembers) : member.2.plain := by
  revert member
  cases kind <;> simp [toMembers, namesToJson]

end NodeKind

namespace Node

mutual

/-- The names in the tree below and including a node. -/
def names : Node → List Name
  | ⟨_, kind, _, children⟩ => kind.names ++ forestNames children

def forestNames : List Node → List Name
  | [] => []
  | node :: rest => node.names ++ forestNames rest

end

/-- The members of a node that come after those of its kind. -/
def lastMembers (span : Span) (children : List Node) : List (String × Json) :=
  ("span", span.toJson)
    :: if children.isEmpty then [] else [("children", .array (forestToJson children))]

theorem toJson_eq (id : UInt32) (kind : NodeKind) (span : Span) (children : List Node) :
    toJson ⟨id, kind, span, children⟩
      = .object (("id", .whole id.toNat) :: (kind.toMembers ++ lastMembers span children)) := by
  simp [toJson, lastMembers]

/-- What a node is read from, without the evidence that its children are smaller. -/
theorem ofJson?_object {members : List (String × Json)} {items : List Json}
    (held : isHeld members) (children : childrenOf? members = some items) :
    ofJson? (.object members) = do
      let id ← (Json.object members).required 0 "id" Json.word32?
      let kind ← NodeKind.ofJson? (.object members)
      let span ← (Json.object members).optional 0 "span" Span.ofJson? {}
      return { id, kind, span, children := ← items.mapM ofJson? } := by
  rw [ofJson?]
  split
  · rename_i items' _ children'
    obtain rfl : items = items' := by simpa [children] using children'
    simp
  · rename_i other
    exact absurd children (other items held)

section
variable {id : Json} {kind : NodeKind} {span : Span} {children : List Node}

theorem member?_lastMembers {name : String} (span_ne : name ≠ "span") (ne : name ≠ "children") :
    Json.member? name (lastMembers span children) = some none := by
  simp [lastMembers, span_ne.symm, ne.symm]

theorem member?_span :
    Json.member? "span" (lastMembers span children) = some (some span.toJson) := by
  simp [lastMembers]

theorem childrenOf?_lastMembers :
    childrenOf? (lastMembers span children) = some (forestToJson children) := by
  cases children <;> simp [childrenOf?, lastMembers, forestToJson]

theorem isHeld_members :
    isHeld (("id", id) :: (kind.toMembers ++ lastMembers span children)) := by
  have readable : ∀ m ∈ kind.toMembers, m.2.readable := fun m mem =>
    Json.readable_of_plain m.2 (NodeKind.plain_of_mem_toMembers mem)
  have own : ∀ m ∈ lastMembers span children, m.1 = "span" ∨ m.1 = "children" := by
    unfold lastMembers
    split <;> simp
  simp only [isHeld, List.all_cons, List.all_append]
  grind

theorem childrenOf?_members :
    childrenOf? (("id", id) :: (kind.toMembers ++ lastMembers span children))
      = some (forestToJson children) := by
  have last : childrenOf? (lastMembers span children) = _ := childrenOf?_lastMembers
  simpa [childrenOf?, NodeKind.member?_toMembers] using last

end

mutual

theorem ofJson?_toJson : (node : Node) → (∀ n ∈ node.names, n.Spelled) →
    ofJson? node.toJson = some node
  | ⟨id, kind, span, children⟩, spelled => by
    rw [names, List.forall_mem_append] at spelled
    have kind_back : NodeKind.ofJson? (.object (("id", .whole id.toNat)
        :: (kind.toMembers ++ lastMembers span children))) = some kind :=
      NodeKind.ofJson?_members (fun _ => member?_lastMembers) spelled.1
    have children_back := mapM_forestToJson children spelled.2
    rw [toJson_eq, ofJson?_object isHeld_members childrenOf?_members]
    have no_id : Json.member? "id" (kind.toMembers ++ lastMembers span children) = some none := by
      simp [NodeKind.member?_toMembers, member?_lastMembers]
    simp [kind_back, children_back, no_id, NodeKind.member?_toMembers, member?_span]

theorem mapM_forestToJson : (nodes : List Node) → (∀ n ∈ forestNames nodes, n.Spelled) →
    (forestToJson nodes).mapM ofJson? = some nodes
  | [], _ => rfl
  | node :: rest, spelled => by
    rw [forestNames, List.forall_mem_append] at spelled
    simp [forestToJson, ofJson?_toJson node spelled.1, mapM_forestToJson rest spelled.2]

end

mutual

theorem plain_toJson : (node : Node) → node.toJson.plain
  | ⟨id, kind, span, children⟩ => by
    have below := plain_of_mem_forestToJson children
    have own : ∀ m ∈ lastMembers span children, m.2.plain := by
      unfold lastMembers
      split
      · simp
      · simpa using below
    rw [toJson_eq, Json.plain_object_iff]
    simp only [List.mem_cons, List.mem_append]
    rintro m (rfl | mem | mem)
    · simp
    · exact NodeKind.plain_of_mem_toMembers mem
    · exact own m mem

theorem plain_of_mem_forestToJson : (nodes : List Node) → ∀ j ∈ forestToJson nodes, j.plain
  | [] => by simp [forestToJson]
  | node :: rest => by
    simpa [forestToJson, plain_toJson node] using plain_of_mem_forestToJson rest

end

end Node

/-! ### Trees -/

namespace Tree

/-- The names in a tree. -/
def names (t : Tree) : List Name :=
  Node.forestNames t.nodes

theorem plain_toJson (t : Tree) : t.toJson.plain := by
  simpa [toJson] using Node.plain_of_mem_forestToJson t.nodes

theorem ofJson?_toJson {t : Tree} (spelled : ∀ n ∈ t.names, n.Spelled) :
    ofJson? t.toJson = some t := by
  have nodes_back : Json.list? Node.ofJson? (.array (Node.forestToJson t.nodes)) = some t.nodes :=
    Node.mapM_forestToJson t.nodes spelled
  simp [toJson, ofJson?, nodes_back]

/-- A tree whose names are the readings of texts is read back as it is, from its value and, if its
nesting is within what is read at all, from the text of that. -/
theorem reads_back (t : Tree) (spelled : ∀ n ∈ t.names, n.Spelled) :
    ofJson? t.toJson = some t
      ∧ (t.toJson.depth ≤ Json.Reader.nestingLimit →
          ∀ path, ofJsonText path t.toJson.render = .ok t) := by
  refine ⟨ofJson?_toJson spelled, fun shallow path => ?_⟩
  simp [ofJsonText, Json.parse?_render t.plain_toJson shallow, ofJson?_toJson spelled]

/-- A file with a node of most kinds, some of them without what they may go without. -/
def shop : Tree where
  path := "src/\"Shop\".php"
  source := some "<?php\n\tnamespace Acme;"
  nodes := [
    { id := 0
      kind := .namespaceDecl (some ⟨["Acme"], .unqualified⟩)
      span := { startLine := 1, endLine := 4294967295, endOffset := 18446744073709551615 }
      children := [
        { id := 1, kind := .useImport .function },
        { id := 2
          kind := .classDecl ⟨["Acme", "Shop"], .qualified⟩ { isFinal := true, visibility := .prot }
            (some ⟨["ArrayObject"], .fullyQualified⟩) [⟨["Countable"], .fullyQualified⟩]
          children := [
            { id := 3, kind := .constDecl [⟨4, "RATE", .scalar⟩, ⟨5, "", .string "\u00e9\x00"⟩] },
            { id := 6
              kind := .methodDecl "sell" {}
              children := [
                { id := 7, kind := .param { typeHint := some ⟨["array"], .unqualified⟩ } },
                { id := 8
                  kind := .assign (.property (.property (.var (some "this")) none) (some "log"))
                    (.new (some ⟨["Acme", "Log"], .qualified⟩)) },
                { id := 9, kind := .call none [.call (some ⟨["f"], .unqualified⟩), .methodCall] },
                { id := 10
                  kind := .methodCall (.var none) none 2
                  children := [
                    { id := 11, kind := .closure true },
                    { id := 12, kind := .pow }] }] }] },
        { id := 13, kind := .namespaceDecl none }] }]

theorem shop_reads_back :
    ofJson? shop.toJson = some shop ∧ ofJsonText "shop.json" shop.toJson.render = .ok shop := by
  have read : ∀ n ∈ shop.names, Name.parse? n.source = some n := by decide +kernel
  have back := reads_back shop fun n mem => ⟨n.source, read n mem⟩
  exact ⟨back.1, back.2 (by decide +kernel) "shop.json"⟩

end Tree

end Requisite.Code
