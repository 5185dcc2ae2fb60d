import Requisite.Json.Basic

/-!
# Records in JSON

A record is an object with a member for each of its fields, or an array of its fields in their
declared order. Members with other names are passed over; a field given twice is refused.

`Json.required` and `Json.optional` read one field by its position and its name. What a field was
read from is smaller than the record, which is what recursive readers need to end.
-/
namespace Requisite.Json

variable {α : Type}

/-! ### Single values -/

def bool? : Json → Option Bool
  | .bool b => some b
  | _ => none

def text? : Json → Option String
  | .text s => some s
  | _ => none

def nat64? : Json → Option Nat
  | .whole n => if n < UInt64.size then some n else none
  | _ => none

def word32? : Json → Option UInt32
  | .whole n => if n < UInt32.size then some (UInt32.ofNat n) else none
  | _ => none

def word64? : Json → Option UInt64
  | .whole n => if n < UInt64.size then some (UInt64.ofNat n) else none
  | _ => none

/-- `null` is no value; anything else has to be one. -/
def nullable (read : Json → Option α) : Json → Option (Option α)
  | .null => some none
  | value => (read value).map some

def items? : Json → Option (List Json)
  | .array items => some items
  | _ => none

def list? (read : Json → Option α) : Json → Option (List α)
  | .array items => items.mapM read
  | _ => none

def members? : Json → Option (List (String × Json))
  | .object members => some members
  | _ => none

/-! ### Fields -/

/-- Whether the value has the outline of a record with `count` fields. -/
def isRecord (count : Nat) : Json → Bool
  | .object _ => true
  | .array items => items.length ≤ count
  | _ => false

def expectRecord (j : Json) (count : Nat) : Option Unit :=
  if j.isRecord count then some () else none

/-- The value of a member, absent when no member has the name, refused when several have. -/
def member? (name : String) (members : List (String × Json)) : Option (Option Json) :=
  match members.filter fun m => m.1 == name with
  | [] => some none
  | [m] => some (some m.2)
  | _ => none

/-- The value of a field, by its name in an object and by its position in an array. -/
def field? (record : Json) (position : Nat) (name : String) : Option (Option Json) :=
  match record with
  | .object members => member? name members
  | .array items => some items[position]?
  | _ => none

/-- Reads a field that has to be there. -/
def required (record : Json) (position : Nat) (name : String) (read : Json → Option α) : Option α :=
  match record.field? position name with
  | some (some value) => read value
  | _ => none

/-- Reads a field that may be missing, and then has the value `absent`. -/
def optional (record : Json) (position : Nat) (name : String) (read : Json → Option α)
    (absent : α) : Option α :=
  match record.field? position name with
  | some (some value) => read value
  | some none => some absent
  | none => none

/-- The value of the tag that says which form a record has, with the record itself. In an array the
tag comes before the fields. -/
def tagged? (tag : String) : Json → Option (Json × Json)
  | .object members =>
    match member? tag members with
    | some (some value) => some (value, .object members)
    | _ => none
  | .array (value :: fields) => some (value, .array fields)
  | _ => none

/-- One of a list of names, by its text or, where `indexed`, by its place in the list. -/
def nameAmong? (names : List String) (indexed : Bool) : Json → Option String
  | .text s => if names.contains s then some s else none
  | .whole n => if indexed then names[n]? else none
  | _ => none

/-- A choice without fields: its name, or an object with the name and an empty value. Inside a
value that is `held` as a whole before it is read, an empty object counts as empty too. -/
def choice? (held : Bool) (ofName : String → Option α) : Json → Option α
  | .text s => ofName s
  | .object [(s, .null)] => ofName s
  | .object [(s, .object [])] => if held then ofName s else none
  | _ => none

/-! ### Fields are smaller than their record -/

theorem sizeOf_member {name : String} {value : Json} {members : List (String × Json)}
    (h : member? name members = some (some value)) : sizeOf value < sizeOf members := by
  unfold member? at h
  split at h
  · simp at h
  · rename_i m hm
    obtain rfl : m.2 = value := by simpa using h
    have mem : m ∈ members := (List.mem_filter.1 (hm ▸ List.mem_singleton.2 rfl)).1
    have size := List.sizeOf_lt_of_mem mem
    obtain ⟨n, v⟩ := m
    simp only [Prod.mk.sizeOf_spec] at size
    show sizeOf v < _
    omega
  · simp at h

theorem sizeOf_field {record value : Json} {position : Nat} {name : String}
    (h : record.field? position name = some (some value)) : sizeOf value < sizeOf record := by
  unfold field? at h
  split at h
  · have := sizeOf_member h
    simp only [Json.object.sizeOf_spec]
    omega
  · have mem := List.mem_of_getElem? (Option.some.inj h)
    have := List.sizeOf_lt_of_mem mem
    simp only [Json.array.sizeOf_spec]
    omega
  · simp at h

theorem sizeOf_tagged {tag : String} {record value fields : Json}
    (h : record.tagged? tag = some (value, fields)) : sizeOf fields ≤ sizeOf record := by
  unfold tagged? at h
  split at h
  · split at h
    · simp only [Option.some.injEq, Prod.mk.injEq] at h
      exact h.2 ▸ Nat.le_refl _
    · simp at h
  · simp only [Option.some.injEq, Prod.mk.injEq] at h
    obtain ⟨rfl, rfl⟩ := h
    simp
  · simp at h

end Requisite.Json
