import Requisite.Json.Record
import Requisite.Proofs.JsonText

/-!
# Records read back

A record is written as an object in which no name is repeated. So each field finds its own member,
wherever that stands. The lemmas here say what a field is read as, and `simp` puts them together for
the records of a particular kind.
-/
namespace Requisite.Json

variable {α : Type}

/-! ### Members -/

theorem member?_eq_absent_iff {name : String} {members : List (String × Json)} :
    member? name members = some none ↔ members.filter (fun m => m.1 == name) = [] := by
  unfold member?
  cases members.filter fun m => m.1 == name with
  | nil => simp
  | cons m rest => cases rest <;> simp

@[simp] theorem member?_nil (name : String) : member? name [] = some none := by
  simp [member?]

@[simp] theorem member?_cons_of_ne {name other : String} (h : other ≠ name) (value : Json)
    (rest : List (String × Json)) : member? name ((other, value) :: rest) = member? name rest := by
  simp [member?, h]

@[simp] theorem member?_cons_self {name : String} {rest : List (String × Json)}
    (h : member? name rest = some none) (value : Json) :
    member? name ((name, value) :: rest) = some (some value) := by
  simp [member?, member?_eq_absent_iff.1 h]

@[simp] theorem member?_append_of_left {name : String} {members : List (String × Json)}
    (h : member? name members = some none) (rest : List (String × Json)) :
    member? name (members ++ rest) = member? name rest := by
  simp [member?, member?_eq_absent_iff.1 h]

@[simp] theorem member?_append_of_right {name : String} {rest : List (String × Json)}
    (h : member? name rest = some none) (members : List (String × Json)) :
    member? name (members ++ rest) = member? name members := by
  simp [member?, member?_eq_absent_iff.1 h]

/-- A member that is left out under some condition. -/
@[simp] theorem member?_unless_self {c : Prop} [Decidable c] (name : String) (value : Json) :
    member? name (if c then [] else [(name, value)]) = some (if c then none else some value) := by
  split <;> simp

@[simp] theorem member?_unless_of_ne {c : Prop} [Decidable c] {name other : String}
    (h : other ≠ name) (value : Json) :
    member? name (if c then [] else [(other, value)]) = some none := by
  split <;> simp [h]

@[simp] theorem expectRecord_object (members : List (String × Json)) (count : Nat) :
    expectRecord (.object members) count = some () := rfl

@[simp] theorem required_object (members : List (String × Json)) (position : Nat) (name : String)
    (read : Json → Option α) :
    required (.object members) position name read
      = match member? name members with
        | some (some value) => read value
        | _ => none := rfl

@[simp] theorem optional_object (members : List (String × Json)) (position : Nat) (name : String)
    (read : Json → Option α) (absent : α) :
    optional (.object members) position name read absent
      = match member? name members with
        | some (some value) => read value
        | some none => some absent
        | none => none := rfl

/-- A field is read back that is left out just when it has the value to be assumed then. -/
theorem optional_unless {c : Prop} [Decidable c] {members : List (String × Json)} {position : Nat}
    {name : String} {read : Json → Option α} {value : Json} {absent a : α}
    (found : member? name members = some (if c then none else some value))
    (left_out : c → absent = a) (back : read value = some a) :
    optional (.object members) position name read absent = some a := by
  by_cases h : c
  · simp [found, h, left_out h]
  · simp [found, h, back]

/-! ### Values of fields -/

@[simp] theorem bool?_bool (b : Bool) : bool? (.bool b) = some b := rfl

@[simp] theorem text?_text (s : String) : text? (.text s) = some s := rfl

@[simp] theorem nat64?_whole {n : Nat} (h : n < UInt64.size) : nat64? (.whole n) = some n :=
  if_pos h

@[simp] theorem word32?_whole (n : UInt32) : word32? (.whole n.toNat) = some n := by
  simp [word32?, n.toNat_lt_size]

@[simp] theorem word64?_whole (n : UInt64) : word64? (.whole n.toNat) = some n := by
  simp [word64?, n.toNat_lt_size]

@[simp] theorem choice?_text (held : Bool) (ofName : String → Option α) (s : String) :
    choice? held ofName (.text s) = ofName s := rfl

/-- A value that is not written `null` is told apart from its absence. -/
theorem nullable_ofOption {write : α → Json} {read : Json → Option α} {a : Option α}
    (present : ∀ x, write x ≠ .null) (h : ∀ x ∈ a, read (write x) = some x) :
    nullable read (ofOption write a) = some a := by
  cases a with
  | none => rfl
  | some x =>
    have back := h x rfl
    simp only [ofOption]
    unfold nullable
    split
    · rename_i null
      exact absurd null (present x)
    · simp [back]

@[simp] theorem nullable_text (s : Option String) : nullable text? (ofOption .text s) = some s :=
  nullable_ofOption (by simp) (by simp)

theorem list?_map {write : α → Json} {read : Json → Option α} {items : List α}
    (h : ∀ a ∈ items, read (write a) = some a) :
    list? read (.array (items.map write)) = some items :=
  Text.mapM_map_eq_some h

/-! ### What records are made of is plain -/

@[simp] theorem plain_bool (b : Bool) : (bool b).plain := by
  simp [plain]

@[simp] theorem plain_text (s : String) : (text s).plain := by
  simp [plain]

@[simp] theorem plain_word32 (n : UInt32) : (whole n.toNat).plain := by
  have := n.toNat_lt
  simp only [plain, UInt64.size, decide_eq_true_eq]
  omega

@[simp] theorem plain_word64 (n : UInt64) : (whole n.toNat).plain := by
  simpa [plain] using n.toNat_lt_size

@[simp] theorem plain_ofOption {write : α → Json} (h : ∀ a, (write a).plain) (a : Option α) :
    (ofOption write a).plain := by
  cases a with
  | none => simp [ofOption, plain]
  | some a => exact h a

@[simp] theorem plain_array_iff {items : List Json} :
    (array items).plain ↔ ∀ item ∈ items, item.plain := by
  rw [plain, plainItems_iff]

@[simp] theorem plain_object_iff {members : List (String × Json)} :
    (object members).plain ↔ ∀ member ∈ members, member.2.plain := by
  rw [plain, plainMembers_iff]

/-! ### How deep records are -/

@[simp] theorem depth_bool (b : Bool) : (bool b).depth = 0 := by
  simp [depth]

@[simp] theorem depth_whole (n : Nat) : (whole n).depth = 0 := by
  simp [depth]

@[simp] theorem depth_text (s : String) : (text s).depth = 0 := by
  simp [depth]

@[simp] theorem depth_array_le_iff {items : List Json} {n : Nat} :
    (array items).depth ≤ n + 1 ↔ ∀ item ∈ items, item.depth ≤ n := by
  rw [depth, Nat.add_le_add_iff_right, depthItems_le_iff]

@[simp] theorem depth_object_le_iff {members : List (String × Json)} {n : Nat} :
    (object members).depth ≤ n + 1 ↔ ∀ member ∈ members, member.2.depth ≤ n := by
  rw [depth, Nat.add_le_add_iff_right, depthMembers_le_iff]

/-! ### Records and their texts -/

/-- A shallow record that is read back from its value is read back from the text of that. -/
theorem bind_parse?_render {write : α → Json} {read : Json → Option α} {a : α}
    (back : read (write a) = some a) (plain : (write a).plain)
    (shallow : (write a).depth ≤ Reader.nestingLimit) :
    (parse? (write a).render).bind read = some a := by
  rw [parse?_render plain shallow, Option.bind_some, back]

end Requisite.Json
