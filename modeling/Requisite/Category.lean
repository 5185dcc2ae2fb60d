import Requisite.Text.Ascii

/-!
# Categories

The kinds of elements that ranges are kept for, in the order in which they are reported.
-/
namespace Requisite

inductive Category where
  | extensions
  | namespaces
  | interfaces
  | traits
  | classes
  | methods
  | functions
  | constants
  | conditions
deriving DecidableEq, Repr, Inhabited

namespace Category

/-- The place of a category in reports. -/
def rank : Category → Nat
  | .extensions => 0
  | .namespaces => 1
  | .interfaces => 2
  | .traits => 3
  | .classes => 4
  | .methods => 5
  | .functions => 6
  | .constants => 7
  | .conditions => 8

instance : Ord Category where
  compare a b := compare a.rank b.rank

theorem compare_def (a b : Category) : compare a b = compare a.rank b.rank := rfl

instance : Std.TransOrd Category where
  eq_swap {a b} := by
    rw [compare_def, compare_def]
    exact Std.OrientedCmp.eq_swap
  isLE_trans {a b c} hab hbc := by
    rw [compare_def] at hab hbc ⊢
    exact Std.TransCmp.isLE_trans hab hbc

theorem rank_injective {a b : Category} (h : a.rank = b.rank) : a = b := by
  cases a <;> cases b <;> simp_all [rank]

instance : Std.LawfulEqOrd Category where
  eq_of_compare {a b} h := by
    rw [compare_def] at h
    exact rank_injective (Std.LawfulEqCmp.eq_of_compare h)
  compare_self {a} := by
    rw [compare_def]
    exact Std.ReflCmp.compare_self

/-- The name of the group of elements. -/
def plural : Category → String
  | .extensions => "extensions"
  | .namespaces => "namespaces"
  | .interfaces => "interfaces"
  | .traits => "traits"
  | .classes => "classes"
  | .methods => "methods"
  | .functions => "functions"
  | .constants => "constants"
  | .conditions => "conditions"

/-- The heading of the group in a report. -/
def title : Category → String
  | .extensions => "Extension"
  | .namespaces => "Namespace"
  | .interfaces => "Interface"
  | .traits => "Trait"
  | .classes => "Class"
  | .methods => "Method"
  | .functions => "Function"
  | .constants => "Constant"
  | .conditions => "Condition"

instance : ToString Category := ⟨plural⟩

/-- Reads the name of a group or of one of its elements, in small letters. -/
def ofName? : String → Option Category
  | "extensions" | "extension" => some .extensions
  | "namespaces" | "namespace" => some .namespaces
  | "interfaces" | "interface" => some .interfaces
  | "traits" | "trait" => some .traits
  | "classes" | "class" => some .classes
  | "methods" | "method" => some .methods
  | "functions" | "function" => some .functions
  | "constants" | "constant" => some .constants
  | "conditions" | "condition" => some .conditions
  | _ => none

/-- Whether names of elements are compared without regard to case. -/
def ignoresCase : Category → Bool
  | .constants | .conditions => false
  | _ => true

end Category

end Requisite
