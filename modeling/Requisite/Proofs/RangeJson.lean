import Requisite.Catalog
import Requisite.Metrics
import Requisite.Proofs.Records

/-!
# Ranges, catalog entries and tables read back

Ranges, the entries of a catalog and the tables of elements are read back as they were written, if
the versions in them are. What is left out is what a reader assumes in its place; and a table or a
set has its entries in ascending order, so that the entries are put in again one behind the other.
-/
namespace Requisite

/-! ### Sorted tables -/

namespace Table

variable {κ ν : Type} [Ord κ]

theorem eq_empty_of_isEmpty {t : Table κ ν} (h : t.isEmpty) : t = ∅ :=
  eq_of_entries (List.isEmpty_iff.1 h)

variable [Std.TransOrd κ]

/-- What comes after all keys is placed at the end. -/
theorem place_of_above {key : κ} (f : Option ν → ν) {entries : List (κ × ν)}
    (h : ∀ e ∈ entries, compare e.1 key = .lt) :
    place key f entries = entries ++ [(key, f none)] := by
  induction entries with
  | nil => rfl
  | cons e rest ih =>
    have gt : compare key e.1 = .gt := Std.OrientedCmp.gt_of_lt (h e List.mem_cons_self)
    simp [place, gt, ih fun e he => h e (List.mem_cons_of_mem _ he)]

/-- Entries that come in order, and after all that are there, are put in as they are. -/
theorem entries_foldl_insert (t : Table κ ν) (rest : List (κ × ν))
    (h : (t.entries ++ rest).Pairwise fun a b => compare a.1 b.1 = .lt) :
    (rest.foldl (fun t e => t.insert e.1 e.2) t).entries = t.entries ++ rest := by
  induction rest generalizing t with
  | nil => simp
  | cons e rest ih =>
    have above : ∀ x ∈ t.entries, compare x.1 e.1 = .lt := fun x mem =>
      (List.pairwise_append.1 h).2.2 x mem e List.mem_cons_self
    have last : (t.insert e.1 e.2).entries = t.entries ++ [e] := place_of_above _ above
    have rest_put := ih (t.insert e.1 e.2) (by simpa [last] using h)
    simpa [last] using rest_put

@[simp] theorem ofList_entries (t : Table κ ν) : ofList t.entries = t :=
  eq_of_entries (entries_foldl_insert empty t.entries t.sorted)

end Table

/-! ### Versions -/

namespace Version

/-- The version is read back from its text as it is. -/
def Rereads (v : Version) : Prop :=
  parse? v.toString = some v

instance (v : Version) : Decidable v.Rereads :=
  inferInstanceAs (Decidable (parse? v.toString = some v))

@[simp] theorem ofJson?_toJson {v : Version} (h : v.Rereads) : ofJson? v.toJson = some v := h

@[simp] theorem plain_toJson (v : Version) : v.toJson.plain := by
  simp [toJson]

@[simp] theorem depth_toJson (v : Version) : v.toJson.depth = 0 := by
  simp [toJson]

theorem parse?_trim (text : String) : parse? (Text.trim text) = parse? text := by
  simp [parse?, Text.trim]

/-- The text of a version that is read back does not pass for the absence of a bound. -/
theorem Rereads.trim_ne_empty {v : Version} (h : v.Rereads) : Text.trim v.toString ≠ "" := by
  intro blank
  have read : parse? "" = some v := by rw [← blank, parse?_trim, h]
  have unread : parse? "" = none := by decide +kernel
  simp [unread] at read

end Version

namespace Bound

@[simp] theorem plain_toJson (b : Option Version) : (toJson b).plain :=
  Json.plain_ofOption Version.plain_toJson b

@[simp] theorem depth_toJson (b : Option Version) : (toJson b).depth = 0 := by
  cases b with
  | none => simp [toJson, Json.ofOption, Json.depth]
  | some v => simp [toJson, Json.ofOption]

theorem ofJson?_toJson {b : Option Version} (h : ∀ v ∈ b.toList, v.Rereads) :
    ofJson? (toJson b) = some b := by
  cases b with
  | none => rfl
  | some v =>
    have v_rereads : v.Rereads := h v (by simp)
    have read : Version.parse? v.toString = some v := v_rereads
    simp [toJson, Json.ofOption, Version.toJson, ofJson?, v_rereads.trim_ne_empty,
      Version.parse?_trim, read]

end Bound

namespace VersionSet

theorem keys_ascending (versions : VersionSet) : versions.keys.Pairwise (· < ·) :=
  List.pairwise_map.2 versions.sorted

@[simp] theorem plain_toJson (versions : VersionSet) : (toJson versions).plain := by
  simp [toJson]

@[simp] theorem depth_toJson_le (versions : VersionSet) : (toJson versions).depth ≤ 1 := by
  simp [toJson]

theorem ofJson?_toJson {versions : VersionSet} (h : ∀ v ∈ versions.keys, v.Rereads) :
    ofJson? versions.toJson = some versions := by
  have read : Json.list? Version.ofJson? versions.toJson = some versions.keys := Json.list?_map h
  have entries : versions.keys.map (fun v => (v, ())) = versions.entries := by
    simp [Table.keys, Function.comp_def]
  simp [ofJson?, read, ofVersions, entries]

end VersionSet

/-! ### Ranges -/

namespace Range

/-- The versions that a range mentions. -/
def versions (r : Range) : List Version :=
  r.min :: (r.max.toList ++ r.extensionMin.toList ++ r.extensionMax.toList ++ r.excluded.keys)

theorem of_mem_excludedMember {name : String} {versions : VersionSet} :
    ∀ m ∈ excludedMember name versions, m.2.plain ∧ m.2.depth ≤ 1 := by
  unfold excludedMember
  split <;> simp

theorem plain_toJson {r : Range} (count : r.usageCount < UInt64.size) : r.toJson.plain := by
  have whole : (Json.whole r.usageCount).plain := by simpa [Json.plain] using count
  simp only [toJson, Json.plain_object_iff, List.forall_mem_append]
  exact ⟨by simp [whole], fun m mem => (of_mem_excludedMember m mem).1⟩

theorem depth_toJson_le (r : Range) : r.toJson.depth ≤ 2 := by
  simp only [toJson, Json.depth_object_le_iff, List.forall_mem_append]
  exact ⟨by simp, fun m mem => (of_mem_excludedMember m mem).2⟩

theorem ofJson?_toJson {r : Range} (count : r.usageCount < UInt64.size)
    (rereads : ∀ v ∈ r.versions, v.Rereads) : ofJson? r.toJson = some r := by
  simp only [versions, List.forall_mem_cons, List.forall_mem_append] at rereads
  obtain ⟨min, ⟨⟨max, extensionMin⟩, extensionMax⟩, excluded⟩ := rereads
  have excluded_back : r.toJson.optional 7 "excludedVersions" VersionSet.ofJson? ∅
      = some r.excluded :=
    Json.optional_unless (by simp [excludedMember]) (fun h => (Table.eq_empty_of_isEmpty h).symm)
      (VersionSet.ofJson?_toJson excluded)
  simp only [ofJson?, excluded_back]
  simp [toJson, excludedMember, Bound.ofJson?_toJson max, Bound.ofJson?_toJson extensionMin,
    Bound.ofJson?_toJson extensionMax, Version.ofJson?_toJson min, count]

end Range

/-! ### Catalog entries -/

namespace Catalog

namespace ArgumentRule

@[simp] theorem plain_toJson (rule : ArgumentRule) : rule.toJson.plain := by
  simp [toJson]

theorem depth_toJson_le (rule : ArgumentRule) : rule.toJson.depth ≤ 1 := by
  simp [toJson]

theorem ofJson?_toJson {rule : ArgumentRule} (h : rule.phpMin.Rereads) :
    ofJson? rule.toJson = some rule := by
  simp [toJson, ofJson?, Version.ofJson?_toJson h]

end ArgumentRule

namespace Entry

/-- The versions that an entry mentions. -/
def versions (e : Entry) : List Version :=
  e.phpMin :: (e.phpMax.toList ++ e.extMin.toList ++ e.extMax.toList ++ e.excluded.keys
    ++ e.arguments.map (·.phpMin))

/-- The members of an entry that may be left out. -/
def lastMembers (e : Entry) : List (String × Json) :=
  Range.excludedMember "excluded" e.excluded
    ++ if e.arguments.isEmpty then []
      else [("arguments", .array (e.arguments.map ArgumentRule.toJson))]

theorem toJson_eq (e : Entry) :
    e.toJson = .object ([("extension", .text e.extension), ("ext_min", Bound.toJson e.extMin),
      ("ext_max", Bound.toJson e.extMax), ("php_min", e.phpMin.toJson),
      ("php_max", Bound.toJson e.phpMax)] ++ e.lastMembers) := by
  simp [toJson, lastMembers]

theorem member?_lastMembers {e : Entry} {name : String} (h : name ≠ "excluded")
    (h' : name ≠ "arguments") : Json.member? name e.lastMembers = some none := by
  simp [lastMembers, Range.excludedMember, h.symm, h'.symm]

theorem of_mem_lastMembers {e : Entry} : ∀ m ∈ e.lastMembers, m.2.plain ∧ m.2.depth ≤ 2 := by
  simp only [lastMembers, List.forall_mem_append]
  refine ⟨fun m mem => ?_, ?_⟩
  · obtain ⟨plain, shallow⟩ := Range.of_mem_excludedMember m mem
    exact ⟨plain, Nat.le_succ_of_le shallow⟩
  · split
    · simp
    · simp [ArgumentRule.depth_toJson_le]

theorem plain_toJson (e : Entry) : e.toJson.plain := by
  simp only [toJson_eq, Json.plain_object_iff, List.forall_mem_append]
  exact ⟨by simp, fun m mem => (of_mem_lastMembers m mem).1⟩

theorem depth_toJson_le (e : Entry) : e.toJson.depth ≤ 3 := by
  simp only [toJson_eq, Json.depth_object_le_iff, List.forall_mem_append]
  exact ⟨by simp, fun m mem => (of_mem_lastMembers m mem).2⟩

theorem ofJson?_toJson {e : Entry} (rereads : ∀ v ∈ e.versions, v.Rereads) :
    ofJson? e.toJson = some e := by
  simp only [versions, List.forall_mem_cons, List.forall_mem_append, List.forall_mem_map] at rereads
  obtain ⟨phpMin, ⟨⟨⟨phpMax, extMin⟩, extMax⟩, excluded⟩, arguments⟩ := rereads
  have excluded_back : e.toJson.optional 5 "excluded" VersionSet.ofJson? ∅ = some e.excluded :=
    Json.optional_unless (by simp [Range.excludedMember])
      (fun h => (Table.eq_empty_of_isEmpty h).symm) (VersionSet.ofJson?_toJson excluded)
  have arguments_back : e.toJson.optional 6 "arguments" (Json.list? ArgumentRule.ofJson?) []
      = some e.arguments :=
    Json.optional_unless (by simp [Range.excludedMember]) (fun h => (List.isEmpty_iff.1 h).symm)
      (Json.list?_map fun rule mem => ArgumentRule.ofJson?_toJson (arguments rule mem))
  simp only [ofJson?, excluded_back, arguments_back]
  simp [toJson_eq, member?_lastMembers, Bound.ofJson?_toJson phpMax, Bound.ofJson?_toJson extMin,
    Bound.ofJson?_toJson extMax, Version.ofJson?_toJson phpMin]

end Entry

end Catalog

/-! ### Tables of elements -/

theorem Category.ofName?_plural (c : Category) : ofName? c.plural = some c := by
  cases c <;> rfl

namespace Grouped

section

variable {α : Type} {write : α → Json} {read : Json → Option α}

theorem mem_elements_of_mem {t : Grouped α} {category : Category} {group : Table String α}
    {name : String} {a : α} (h : (category, group) ∈ t.groups.entries)
    (mem : (name, a) ∈ group.entries) : (category, name, a) ∈ t.elements := by
  simp only [elements, List.mem_flatMap, List.mem_map, Prod.exists]
  exact ⟨category, group, h, name, a, mem, rfl⟩

theorem plain_toJson {t : Grouped α} (h : ∀ x ∈ t.elements, (write x.2.2).plain) :
    (toJson write t).plain := by
  simp only [toJson, toMembers, groupToJson, Json.plain_object_iff, List.forall_mem_map]
  intro group mem e he
  exact h _ (mem_elements_of_mem mem he)

theorem depth_toJson_le {t : Grouped α} {n : Nat} (h : ∀ a, (write a).depth ≤ n) :
    (toJson write t).depth ≤ n + 2 := by
  simp only [toJson, toMembers, groupToJson, Json.depth_object_le_iff, List.forall_mem_map]
  intro group mem e he
  exact h e.2

theorem groupOfJson?_groupToJson {group : Table String α}
    (h : ∀ e ∈ group.entries, read (write e.2) = some e.2) :
    groupOfJson? read (groupToJson write group) = some group := by
  rw [groupToJson, groupOfJson?, Text.mapM_map_eq_some fun e mem => by simp [h e mem]]
  simp

theorem ofJson?_toJson {t : Grouped α}
    (h : ∀ x ∈ t.elements, read (write x.2.2) = some x.2.2) :
    ofJson? read (toJson write t) = some t := by
  have group_back : ∀ e ∈ t.groups.entries, groupOfJson? read (groupToJson write e.2) = some e.2 :=
    fun e mem => groupOfJson?_groupToJson fun x hx => h _ (mem_elements_of_mem mem hx)
  rw [toJson, toMembers, ofJson?,
    Text.mapM_map_eq_some fun e mem => by simp [Category.ofName?_plural, group_back e mem]]
  simp

end

end Grouped

/-! ### All of them -/

/-- Ranges, catalog entries and tables of elements whose versions are all read back are read back
themselves, from their values and from the texts of these. The counts of uses have to be numbers of
64 bits. The sets of versions are in ascending order, before and after. -/
theorem records_read_back :
    (∀ r : Range, r.usageCount < UInt64.size → (∀ v ∈ r.versions, v.Rereads) →
        Range.ofJson? r.toJson = some r
          ∧ (Json.parse? r.toJson.render).bind Range.ofJson? = some r
          ∧ r.excluded.keys.Pairwise (· < ·))
      ∧ (∀ e : Catalog.Entry, (∀ v ∈ e.versions, v.Rereads) →
          Catalog.Entry.ofJson? e.toJson = some e
            ∧ (Json.parse? e.toJson.render).bind Catalog.Entry.ofJson? = some e
            ∧ e.excluded.keys.Pairwise (· < ·))
      ∧ ∀ t : Elements,
          (∀ x ∈ t.elements, x.2.2.usageCount < UInt64.size ∧ ∀ v ∈ x.2.2.versions, v.Rereads) →
          Elements.ofJson? t.toJson = some t
            ∧ (Json.parse? t.toJson.render).bind Elements.ofJson? = some t := by
  have limit : 4 ≤ Json.Reader.nestingLimit := by decide
  refine ⟨fun r count rereads => ?_, fun e rereads => ?_, fun t h => ?_⟩
  · have back := Range.ofJson?_toJson count rereads
    have shallow := r.depth_toJson_le
    exact ⟨back, Json.bind_parse?_render back (Range.plain_toJson count) (by omega),
      VersionSet.keys_ascending _⟩
  · have back := Catalog.Entry.ofJson?_toJson rereads
    have shallow := e.depth_toJson_le
    exact ⟨back, Json.bind_parse?_render back e.plain_toJson (by omega),
      VersionSet.keys_ascending _⟩
  · have back : Elements.ofJson? t.toJson = some t :=
      Grouped.ofJson?_toJson fun x mem => Range.ofJson?_toJson (h x mem).1 (h x mem).2
    have plain : t.toJson.plain :=
      Grouped.plain_toJson fun x mem => Range.plain_toJson (h x mem).1
    have shallow : t.toJson.depth ≤ 4 := Grouped.depth_toJson_le Range.depth_toJson_le
    exact ⟨back, Json.bind_parse?_render back plain (by omega)⟩

/-- A range with as many uses as can be counted, and with releases left out. -/
def heavilyUsed : Range where
  extension := "date"
  extensionMin := some { major := 5, minors := [1, 0], stability := .candidate, number := 2 }
  min := .release 5 1 0
  usageCount := 18446744073709551615
  optional := true
  excluded := .ofVersions [.release 5 2 1, .release 5 2 0]

/-- An entry with two argument rules. -/
def ruledEntry : Catalog.Entry where
  phpMax := some (.release 7 4 0)
  arguments := [⟨2, .release 5 3 0⟩, ⟨1, .release 5 0 0⟩]

/-- A table with an empty group, and with a name that needs to be escaped. -/
def mixedElements : Elements :=
  ⟨.ofList [(.functions, .ofList [("", .user), ("a\"\n\u00e9", heavilyUsed)]), (.classes, ∅)]⟩

theorem records_read_back_mixed :
    Range.ofJson? heavilyUsed.toJson = some heavilyUsed
      ∧ (Json.parse? ruledEntry.toJson.render).bind Catalog.Entry.ofJson? = some ruledEntry
      ∧ Elements.ofJson? mixedElements.toJson = some mixedElements :=
  ⟨(records_read_back.1 heavilyUsed (by decide +kernel) (by decide +kernel)).1,
    (records_read_back.2.1 ruledEntry (by decide +kernel)).2.1,
    (records_read_back.2.2 mixedElements (by decide +kernel)).1⟩

end Requisite
