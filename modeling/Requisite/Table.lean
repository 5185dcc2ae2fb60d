/-!
# Sorted tables

A finite map whose entries stand in strictly ascending order of their keys, so that a table has one
form and is listed in one order. Keys that compare as equal are one key, spelled as it was first.

`Table.alter` is the one way to change a table: a single pass finds the place of the key. Its lemmas
say what that does to `Table.get?`.
-/
namespace Requisite

variable {κ ν : Type} [Ord κ]

structure Table (κ ν : Type) [Ord κ] where
  entries : List (κ × ν)
  sorted : entries.Pairwise fun a b => compare a.1 b.1 = .lt
deriving DecidableEq

namespace Table

/-- A table is its entries. -/
theorem eq_of_entries {s t : Table κ ν} (h : s.entries = t.entries) : s = t := by
  cases s
  cases t
  simp_all

/-- The value under `key` in a list of entries. -/
def find? (key : κ) : List (κ × ν) → Option ν
  | [] => none
  | (k, v) :: rest => if compare key k == .eq then some v else find? key rest

/-- Puts `f` of the value under `key`, if there is one, in its place. -/
def place (key : κ) (f : Option ν → ν) : List (κ × ν) → List (κ × ν)
  | [] => [(key, f none)]
  | (k, v) :: rest =>
    match compare key k with
    | .lt => (key, f none) :: (k, v) :: rest
    | .eq => (k, f (some v)) :: rest
    | .gt => (k, v) :: place key f rest

/-- A key below another stays below whatever is placed there. -/
theorem below_place [Std.TransOrd κ] {k key : κ} {f : Option ν → ν} {entries : List (κ × ν)}
    (hk : compare k key = .lt) (h : ∀ e ∈ entries, compare k e.1 = .lt) :
    ∀ e ∈ place key f entries, compare k e.1 = .lt := by
  induction entries with
  | nil => simpa [place] using hk
  | cons head rest ih =>
    obtain ⟨k', v⟩ := head
    have hrest : ∀ e ∈ rest, compare k e.1 = .lt := fun e he => h e (List.mem_cons_of_mem _ he)
    have hhead : compare k k' = .lt := h (k', v) List.mem_cons_self
    intro e he
    rw [place] at he
    split at he
    · rcases List.mem_cons.1 he with rfl | he
      · exact hk
      · exact h e he
    · rcases List.mem_cons.1 he with rfl | he
      · exact hhead
      · exact hrest e he
    · rcases List.mem_cons.1 he with rfl | he
      · exact hhead
      · exact ih hrest e he

theorem sorted_place [Std.TransOrd κ] (key : κ) (f : Option ν → ν) {entries : List (κ × ν)}
    (h : entries.Pairwise fun a b => compare a.1 b.1 = .lt) :
    (place key f entries).Pairwise fun a b => compare a.1 b.1 = .lt := by
  induction entries with
  | nil => simp [place]
  | cons head rest ih =>
    obtain ⟨k, v⟩ := head
    obtain ⟨hhead, hrest⟩ := List.pairwise_cons.1 h
    rw [place]
    split
    · rename_i lt
      refine List.pairwise_cons.2 ⟨fun e he => ?_, h⟩
      rcases List.mem_cons.1 he with rfl | he
      · exact lt
      · exact Std.TransCmp.lt_trans lt (hhead e he)
    · exact List.pairwise_cons.2 ⟨hhead, hrest⟩
    · rename_i gt
      have lt : compare k key = .lt := Std.OrientedCmp.lt_of_gt gt
      exact List.pairwise_cons.2 ⟨below_place lt hhead, ih hrest⟩

def empty : Table κ ν := ⟨[], List.Pairwise.nil⟩

instance : EmptyCollection (Table κ ν) := ⟨empty⟩

instance : Inhabited (Table κ ν) := ⟨empty⟩

def get? (t : Table κ ν) (key : κ) : Option ν :=
  find? key t.entries

/-- The table with `f` of the old value under `key`. -/
def alter [Std.TransOrd κ] (t : Table κ ν) (key : κ) (f : Option ν → ν) : Table κ ν :=
  ⟨place key f t.entries, sorted_place key f t.sorted⟩

/-- The table with `value` under `key`, whatever was there. -/
def insert [Std.TransOrd κ] (t : Table κ ν) (key : κ) (value : ν) : Table κ ν :=
  t.alter key fun _ => value

/-- The table of a list of entries, where a later one replaces an earlier one. -/
def ofList [Std.TransOrd κ] (entries : List (κ × ν)) : Table κ ν :=
  entries.foldl (fun t e => t.insert e.1 e.2) empty

def size (t : Table κ ν) : Nat := t.entries.length

def isEmpty (t : Table κ ν) : Bool := t.entries.isEmpty

/-- The keys in ascending order. -/
def keys (t : Table κ ν) : List κ := t.entries.map (·.1)

/-! ### Lookup after a change -/

theorem find?_eq_none_of_below {key : κ} {entries : List (κ × ν)}
    (h : ∀ e ∈ entries, compare key e.1 = .lt) : find? key entries = none := by
  induction entries with
  | nil => rfl
  | cons e rest ih =>
    have lt := h e List.mem_cons_self
    simp [find?, lt, ih fun e he => h e (List.mem_cons_of_mem _ he)]

theorem find?_place_self [Std.TransOrd κ] (key : κ) (f : Option ν → ν) {entries : List (κ × ν)}
    (h : entries.Pairwise fun a b => compare a.1 b.1 = .lt) :
    find? key (place key f entries) = some (f (find? key entries)) := by
  induction entries with
  | nil => simp [place, find?]
  | cons head rest ih =>
    obtain ⟨k, v⟩ := head
    obtain ⟨hhead, hrest⟩ := List.pairwise_cons.1 h
    rw [place]
    split
    · rename_i lt
      have below : ∀ e ∈ rest, compare key e.1 = .lt := fun e he =>
        Std.TransCmp.lt_trans lt (hhead e he)
      simp [find?, lt, find?_eq_none_of_below below]
    · rename_i eq
      simp [find?, eq]
    · rename_i gt
      simp [find?, gt, ih hrest]

theorem find?_place_of_ne [Std.TransOrd κ] {key other : κ} (f : Option ν → ν)
    (ne : compare other key ≠ .eq) (entries : List (κ × ν)) :
    find? other (place key f entries) = find? other entries := by
  induction entries with
  | nil => simp [place, find?, ne]
  | cons head rest ih =>
    obtain ⟨k, v⟩ := head
    rw [place]
    split
    · simp [find?, ne]
    · rename_i eq
      have ne' : compare other k ≠ .eq := Std.TransCmp.congr_right eq ▸ ne
      simp [find?, ne']
    · simp [find?, ih]

/-- Nothing changes if a value is replaced by itself. -/
theorem place_eq_self [Std.TransOrd κ] {key : κ} {f : Option ν → ν} {entries : List (κ × ν)}
    {value : ν} (h : entries.Pairwise fun a b => compare a.1 b.1 = .lt)
    (found : find? key entries = some value) (same : f (some value) = value) :
    place key f entries = entries := by
  induction entries with
  | nil => simp [find?] at found
  | cons head rest ih =>
    obtain ⟨k, v⟩ := head
    obtain ⟨hhead, hrest⟩ := List.pairwise_cons.1 h
    rw [place]
    split
    · rename_i lt
      have below : ∀ e ∈ rest, compare key e.1 = .lt := fun e he =>
        Std.TransCmp.lt_trans lt (hhead e he)
      simp [find?, lt, find?_eq_none_of_below below] at found
    · rename_i eq
      have held : v = value := by simpa [find?, eq] using found
      rw [held, same]
    · rename_i gt
      rw [ih hrest (by simpa [find?, gt] using found)]

@[simp] theorem get?_empty (key : κ) : (empty : Table κ ν).get? key = none := rfl

@[simp] theorem get?_alter_self [Std.TransOrd κ] (t : Table κ ν) (key : κ) (f : Option ν → ν) :
    (t.alter key f).get? key = some (f (t.get? key)) :=
  find?_place_self key f t.sorted

theorem get?_alter_of_ne [Std.TransOrd κ] (t : Table κ ν) {key other : κ} (f : Option ν → ν)
    (ne : compare other key ≠ .eq) : (t.alter key f).get? other = t.get? other :=
  find?_place_of_ne f ne t.entries

theorem alter_eq_self [Std.TransOrd κ] {t : Table κ ν} {key : κ} {f : Option ν → ν} {value : ν}
    (found : t.get? key = some value) (same : f (some value) = value) : t.alter key f = t :=
  eq_of_entries (place_eq_self t.sorted found same)

end Table

end Requisite
