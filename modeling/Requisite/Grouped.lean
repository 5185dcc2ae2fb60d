import Requisite.Category
import Requisite.Json.Record
import Requisite.Table

/-!
# Tables by category and name

Two levels of sorted tables: categories in the order of reports, and in each the names in the order
of their characters. A category can be present without any names.
-/
namespace Requisite

variable {α : Type}

/-- Reads a category by its name. -/
def Category.ofJson? : Json → Option Category :=
  Json.choice? false Category.ofName?

structure Grouped (α : Type) where
  groups : Table Category (Table String α) := ∅
deriving DecidableEq

namespace Grouped

instance : Inhabited (Grouped α) := ⟨{}⟩

def group? (t : Grouped α) (category : Category) : Option (Table String α) :=
  t.groups.get? category

def get? (t : Grouped α) (category : Category) (name : String) : Option α :=
  (t.group? category).bind fun group => group.get? name

/-- The table with `f` of the old element under a category and a name. -/
def alter (t : Grouped α) (category : Category) (name : String) (f : Option α → α) : Grouped α :=
  ⟨t.groups.alter category fun group => (group.getD ∅).alter name f⟩

/-- The table with `value` under a category and a name, whatever was there. -/
def insert (t : Grouped α) (category : Category) (name : String) (value : α) : Grouped α :=
  t.alter category name fun _ => value

/-- How many names a category has. -/
def count (t : Grouped α) (category : Category) : Nat :=
  (t.group? category).elim 0 Table.size

/-- How many names there are in all. -/
def size (t : Grouped α) : Nat :=
  t.groups.entries.foldr (fun (_, group) total => group.size + total) 0

/-- The categories that have names, in their order. -/
def nonempty (t : Grouped α) : List (Category × Table String α) :=
  t.groups.entries.filter fun (_, group) => !group.isEmpty

/-- All elements, by category and then by name. -/
def elements (t : Grouped α) : List (Category × String × α) :=
  t.groups.entries.flatMap fun (category, group) =>
    group.entries.map fun (name, value) => (category, name, value)

/-! ### Lookup after a change -/

@[simp] theorem get?_alter_self (t : Grouped α) (category : Category) (name : String)
    (f : Option α → α) :
    (t.alter category name f).get? category name = some (f (t.get? category name)) := by
  unfold get? group? alter
  rw [Table.get?_alter_self, Option.bind_some, Table.get?_alter_self]
  cases t.groups.get? category <;> rfl

theorem get?_alter_of_ne (t : Grouped α) {category category' : Category} {name name' : String}
    (f : Option α → α) (ne : ¬(category' = category ∧ name' = name)) :
    (t.alter category name f).get? category' name' = t.get? category' name' := by
  unfold get? group? alter
  by_cases hc : category' = category
  · subst hc
    have hn : compare name' name ≠ .eq := fun h => ne ⟨rfl, Std.LawfulEqCmp.eq_of_compare h⟩
    rw [Table.get?_alter_self, Option.bind_some, Table.get?_alter_of_ne _ f hn]
    cases t.groups.get? category' <;> rfl
  · have hc' : compare category' category ≠ .eq := fun h => hc (Std.LawfulEqCmp.eq_of_compare h)
    rw [Table.get?_alter_of_ne _ _ hc']

theorem alter_eq_self {t : Grouped α} {category : Category} {name : String} {f : Option α → α}
    {value : α} (found : t.get? category name = some value) (same : f (some value) = value) :
    t.alter category name f = t := by
  obtain ⟨group, here, found⟩ := Option.bind_eq_some_iff.1 found
  have groups : t.groups.alter category (fun group => (group.getD ∅).alter name f) = t.groups :=
    Table.alter_eq_self here (Table.alter_eq_self found same)
  rw [alter, groups]

/-! ### JSON -/

def groupToJson (write : α → Json) (group : Table String α) : Json :=
  .object (group.entries.map fun (name, value) => (name, write value))

def groupOfJson? (read : Json → Option α) : Json → Option (Table String α)
  | .object members => do
    let entries ← members.mapM fun (name, value) => do return (name, ← read value)
    return Table.ofList entries
  | _ => none

/-- The members of the object that holds a table: one for each category. -/
def toMembers (write : α → Json) (t : Grouped α) : List (String × Json) :=
  t.groups.entries.map fun (category, group) => (category.plural, groupToJson write group)

def toJson (write : α → Json) (t : Grouped α) : Json :=
  .object (t.toMembers write)

/-- Reads a table. A name given twice has its last value, and so has a category. -/
def ofJson? (read : Json → Option α) : Json → Option (Grouped α)
  | .object members => do
    let groups ← members.mapM fun (name, value) => do
      return (← Category.ofName? name, ← groupOfJson? read value)
    return ⟨Table.ofList groups⟩
  | _ => none

end Grouped

end Requisite
