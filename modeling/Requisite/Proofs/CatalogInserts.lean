import Mathlib.Data.List.Induction
import Requisite.Proofs.ByteOrder
import Requisite.Proofs.CatalogBounds
import Requisite.Proofs.Tables

/-!
# Insertions into a catalog

A catalog is a map from the names it knows to entries, whatever was asked to be inserted and in
which spelling. One insertion changes what is known under one key, or nothing if it is refused
(`get?_offer`). So under each key the last insertion that was accepted stays (`get?_foldl_offer`),
and there are as many entries as keys (`size_foldl_offer`).

A catalog is read from a text by inserting its entries in ascending order of their names, all of
which have to be accepted (`ofEntries_eq_ok_iff`). Then the last of several names that the catalog
takes for one is the greatest of them (`get?_ofEntries_elements`).
-/
namespace Requisite

namespace Catalog

/-! ### Names -/

/-- A name loses all its leading backslashes, and its capitals unless their case matters. -/
theorem exists_normalize_eq (category : Category) (name : String) :
    ∃ slashes body, name.toList = List.replicate slashes '\\' ++ body ∧ body.head? ≠ some '\\'
      ∧ (normalize category name).toList
        = if category = .constants ∨ category = .conditions then body
          else body.map Char.toLower := by
  let slash : Char → Bool := (· == '\\')
  have slashes : name.toList.takeWhile slash
      = List.replicate (name.toList.takeWhile slash).length '\\' := by
    refine List.eq_replicate_iff.2 ⟨rfl, fun c mem => ?_⟩
    simpa [slash] using List.all_eq_true.1 List.all_takeWhile c mem
  refine ⟨(name.toList.takeWhile slash).length, name.toList.dropWhile slash, ?_, ?_, ?_⟩
  · rw [← slashes, List.takeWhile_append_dropWhile]
  · intro first
    have kept := List.head?_dropWhile_not slash name.toList
    simp [first, slash] at kept
  · cases category <;> simp [normalize, Category.ignoresCase, Text.foldCase, slash]

/-! ### One insertion -/

namespace Entry

/-- Whether an entry has a pair of bounds that is the wrong way round. -/
def Inverted (e : Entry) : Prop :=
  (∃ hi, e.phpMax = some hi ∧ hi < e.phpMin)
    ∨ ∃ lo hi, e.extMin = some lo ∧ e.extMax = some hi ∧ hi < lo

theorem not_inverted_iff {e : Entry} : ¬e.Inverted ↔ e.inverted? = none := by
  rw [inverted?_eq_none_iff, Inverted]
  grind [Std.not_lt]

instance (e : Entry) : Decidable e.Inverted :=
  decidable_of_iff (e.inverted? ≠ none) (by rw [ne_eq, ← not_inverted_iff, not_not])

end Entry

/-- What is asked to be inserted: a category, a name and an entry. -/
abbrev Insertion := Category × String × Entry

namespace Insertion

def entry (i : Insertion) : Entry := i.2.2

/-- The category, and the name as the catalog knows it. -/
def key (i : Insertion) : Category × String :=
  (i.1, normalize i.1 i.2.1)

theorem key_eq_iff {i : Insertion} {category : Category} {name : String} :
    i.key = (category, normalize category name)
      ↔ i.1 = category ∧ normalize category i.2.1 = normalize category name := by
  rw [key, Prod.mk.injEq]
  exact and_congr_right (by rintro rfl; rfl)

end Insertion

/-- The catalog that is left behind when an insertion was asked for, refused or not. -/
def offer (c : Catalog) (i : Insertion) : Catalog :=
  match (insert i.1 i.2.1 i.entry).run c with
  | .ok _ left => left
  | .error _ left => left

theorem exists_insert_eq_error_iff (c : Catalog) (category : Category) (name : String)
    {entry : Entry} :
    (∃ refusal left, (insert category name entry).run c = .error refusal left)
      ↔ entry.Inverted := by
  rw [← not_iff_not, Entry.not_inverted_iff]
  rcases bounds : entry.inverted? with _ | ⟨lo, hi⟩
  · simp [run_insert_of_upright bounds]
  · simp [run_insert_of_inverted bounds]

theorem eq_of_insert_eq_error {c left : Catalog} {category : Category} {name : String}
    {entry : Entry} {refusal : Error}
    (refused : (insert category name entry).run c = .error refusal left) : left = c := by
  rcases bounds : entry.inverted? with _ | ⟨lo, hi⟩
  · simp [run_insert_of_upright bounds] at refused
  · rw [run_insert_of_inverted bounds] at refused
    cases refused
    rfl

theorem insert_eq_ok_offer {c : Catalog} {i : Insertion} (h : ¬i.entry.Inverted) :
    (insert i.1 i.2.1 i.2.2).run c = .ok () (c.offer i) := by
  have accepted : (insert i.1 i.2.1 i.entry).run c = .ok () _ :=
    run_insert_of_upright (Entry.not_inverted_iff.1 h)
  rw [offer, accepted]
  exact accepted

theorem offer_of_inverted (c : Catalog) {i : Insertion} (h : i.entry.Inverted) : c.offer i = c := by
  obtain ⟨refusal, left, refused⟩ := (exists_insert_eq_error_iff c i.1 i.2.1).2 h
  rw [offer, refused]
  exact eq_of_insert_eq_error refused

theorem offer_of_not_inverted {c : Catalog} {i : Insertion} (h : ¬i.entry.Inverted) :
    c.offer i = ⟨c.entries.insert i.key.1 i.key.2 i.entry⟩ :=
  (insert_eq_ok_iff.1 (insert_eq_ok_offer h)).2

/-- What is known under a key after an insertion was asked for. -/
theorem get?_offer (c : Catalog) (i : Insertion) (key : Category × String) :
    (c.offer i).entries.get? key.1 key.2
      = if ¬i.entry.Inverted ∧ i.key = key then some i.entry else c.entries.get? key.1 key.2 := by
  by_cases inverted : i.entry.Inverted
  · simp [offer_of_inverted c inverted, inverted]
  · rw [offer_of_not_inverted inverted]
    by_cases here : i.key = key
    · simp [Grouped.insert, ← here, inverted]
    · have elsewhere : ¬(key.1 = i.key.1 ∧ key.2 = i.key.2) := fun h =>
        here (Prod.ext h.1 h.2).symm
      simp [Grouped.insert, Grouped.get?_alter_of_ne _ _ elsewhere, here]

/-! ### Many insertions -/

/-- Those of some insertions that are accepted. -/
def accepted (inserts : List Insertion) : List Insertion :=
  inserts.filter fun i => ¬i.entry.Inverted

/-- The insertions under a key that are accepted. -/
def acceptedUnder (inserts : List Insertion) (key : Category × String) : List Insertion :=
  (accepted inserts).filter fun i => i.key = key

/-- Under a key, the last insertion that is accepted stays. -/
theorem get?_foldl_offer (inserts : List Insertion) (key : Category × String) :
    (inserts.foldl offer {}).entries.get? key.1 key.2
      = (acceptedUnder inserts key).getLast?.map Insertion.entry := by
  induction inserts using List.reverseRecOn with
  | nil => rfl
  | append_singleton inserts i ih =>
    rw [List.foldl_append, List.foldl_cons, List.foldl_nil, get?_offer, ih]
    by_cases inverted : i.entry.Inverted
    · simp [acceptedUnder, accepted, inverted]
    · by_cases here : i.key = key <;> simp [acceptedUnder, accepted, inverted, here]

theorem mem_keys_foldl_offer {inserts : List Insertion} {key : Category × String} :
    key ∈ (inserts.foldl offer {}).entries.keys ↔ key ∈ (accepted inserts).map Insertion.key := by
  rw [Grouped.mem_keys_iff, get?_foldl_offer]
  simp [acceptedUnder]

theorem size_foldl_offer (inserts : List Insertion) :
    (inserts.foldl offer {}).size = ((accepted inserts).map Insertion.key).dedup.length := by
  rw [size, ← Grouped.length_keys]
  exact length_eq_length_dedup (Grouped.nodup_keys _) fun _ => mem_keys_foldl_offer

/-! ### Catalogs from texts -/

theorem insertAll_eq_ok_iff {c c' : Catalog} {inserts : List Insertion} :
    (insertAll inserts).run c = .ok () c'
      ↔ (∀ i ∈ inserts, ¬i.entry.Inverted) ∧ inserts.foldl offer c = c' := by
  induction inserts generalizing c with
  | nil => simp [insertAll]
  | cons i rest ih =>
    rw [insertAll_cons_eq_ok_iff, List.foldl_cons, List.forall_mem_cons]
    by_cases inverted : i.entry.Inverted
    · obtain ⟨refusal, left, refused⟩ := (exists_insert_eq_error_iff c i.1 i.2.1).2 inverted
      have refused : (insert i.1 i.2.1 i.2.2).run c = .error refusal left := refused
      simp [refused, inverted]
    · simp [insert_eq_ok_offer inverted, inverted, ih]

theorem ofEntries_eq_ok_iff {c : Catalog} {inserts : List Insertion} :
    ofEntries inserts = .ok c
      ↔ (∀ i ∈ inserts, ¬i.entry.Inverted) ∧ inserts.foldl offer {} = c :=
  ofEntries_eq_ok_iff_insertAll.trans insertAll_eq_ok_iff

/-- Of the names in a table that the catalog takes for `name`, the one that comes last by its
bytes. -/
structure LastAlike (file : Grouped Entry) (category : Category) (name last : String) : Prop where
  given : (file.get? category last).isSome
  alike : normalize category last = normalize category name
  behind : ∀ other, (file.get? category other).isSome →
    normalize category other = normalize category name →
    other = last ∨ Text.precedesInBytes other last

theorem get?_ofEntries_elements {file : Grouped Entry} {c : Catalog}
    (built : ofEntries file.elements = .ok c) {category : Category} {name : String}
    {entry : Entry} :
    c.get? category name = some entry
      ↔ ∃ last, LastAlike file category name last ∧ file.get? category last = some entry := by
  obtain ⟨upright, rfl⟩ := ofEntries_eq_ok_iff.1 built
  -- nothing was refused, so under a key are the entries of the file there, and still in order
  have all : accepted file.elements = file.elements :=
    List.filter_eq_self.2 fun i mem => by simpa using upright i mem
  have ascending : (acceptedUnder file.elements (category, normalize category name)).Pairwise
      Grouped.precedes := by
    rw [acceptedUnder, all]
    exact Grouped.elements_ascending.filter _
  have mem (i : Insertion) : i ∈ acceptedUnder file.elements (category, normalize category name)
      ↔ file.get? i.1 i.2.1 = some i.entry ∧ i.1 = category
        ∧ normalize category i.2.1 = normalize category name := by
    rw [acceptedUnder, all, List.mem_filter, ← Grouped.mem_elements_iff, decide_eq_true_iff,
      Insertion.key_eq_iff]
    rfl
  have found := get?_foldl_offer file.elements (category, normalize category name)
  rw [get?, found, Option.map_eq_some_iff]
  simp only [getLast?_eq_some_iff_of_pairwise (fun _ _ => Grouped.precedes_asymm) ascending, mem]
  constructor
  · rintro ⟨⟨_, last, _⟩, ⟨⟨given, rfl, alike⟩, behind⟩, rfl⟩
    refine ⟨last, ⟨Option.isSome_of_eq_some given, alike, fun other given' alike' => ?_⟩, given⟩
    obtain ⟨entry', given'⟩ := Option.isSome_iff_exists.1 given'
    rcases behind (_, other, entry') ⟨given', rfl, alike'⟩ with same | lt | ⟨-, lt⟩
    · exact Or.inl (congrArg (·.2.1) same)
    · simp at lt
    · exact Or.inr (Text.precedesInBytes_iff_compare.2 lt)
  · rintro ⟨last, ⟨-, alike, behind⟩, given⟩
    refine ⟨(category, last, entry), ⟨⟨given, rfl, alike⟩, ?_⟩, rfl⟩
    rintro ⟨_, other, entry'⟩ ⟨given', rfl, alike'⟩
    rcases behind other (Option.isSome_of_eq_some given') alike' with rfl | before
    · exact Or.inl (by simpa [Insertion.entry] using given'.symm.trans given)
    · exact Or.inr (Or.inr ⟨rfl, Text.precedesInBytes_iff_compare.1 before⟩)

/-- A text that can be read gives a catalog unless an entry in it is inverted. -/
theorem exists_ofJsonText_iff {text : String} {file : Grouped Entry}
    (read : (Json.parse? text).bind (Grouped.ofJson? Entry.ofJson?) = some file) :
    (∃ c, ofJsonText text = .ok c)
      ↔ ∀ category name entry, file.get? category name = some entry → ¬entry.Inverted := by
  simp only [ofJsonText, read, ofEntries_eq_ok_iff, exists_and_left, exists_eq', and_true]
  constructor
  · intro upright category name entry given
    exact upright _ (Grouped.mem_elements_iff.2 given)
  · rintro upright ⟨category, name, entry⟩ mem
    exact upright category name entry (Grouped.mem_elements_iff.1 mem)

/-- Whatever is asked to be inserted into an empty catalog: an insertion is refused just when the
bounds of its entry are inverted, and then nothing that can be asked of the catalog has changed in
the one that is left behind. Under a name, the catalog knows the last entry that was accepted under
a name like it, and there are as many entries as different names under which one was accepted. Names
are alike in a category if they are the same without their leading backslashes, where the case of
ASCII letters matters for constants and conditions only. So a catalog that is read from a text
knows, of the names that are alike, the entry of the last one by its bytes. -/
theorem last_accepted_stays (inserts : List Insertion) :
    let c := inserts.foldl offer {}
    (∀ category name entry,
        (∃ refusal left, (insert category name entry).run c = .error refusal left)
          ↔ entry.Inverted)
      ∧ (∀ category name entry refusal left,
          (insert category name entry).run c = .error refusal left →
          left.size = c.size
            ∧ (∀ category name, left.get? category name = c.get? category name)
            ∧ ∀ category name argCount,
              left.find category name argCount = c.find category name argCount)
      ∧ (∀ category name, c.get? category name
          = (acceptedUnder inserts (category, normalize category name)).getLast?.map
              Insertion.entry)
      ∧ c.size = ((accepted inserts).map Insertion.key).dedup.length
      ∧ (∀ category name argCount, c.get? category name = none →
          c.find category name argCount = .user)
      ∧ (∀ category name, ∃ slashes body, name.toList = List.replicate slashes '\\' ++ body
          ∧ body.head? ≠ some '\\'
          ∧ (normalize category name).toList
            = if category = .constants ∨ category = .conditions then body
              else body.map Char.toLower)
      ∧ ∀ text file, (Json.parse? text).bind (Grouped.ofJson? Entry.ofJson?) = some file →
          ((∃ c, ofJsonText text = .ok c)
            ↔ ∀ category name entry, file.get? category name = some entry → ¬entry.Inverted)
          ∧ ∀ c, ofJsonText text = .ok c → ∀ category name entry,
            c.get? category name = some entry
              ↔ ∃ last, LastAlike file category name last
                ∧ file.get? category last = some entry := by
  intro c
  refine ⟨fun category name entry => exists_insert_eq_error_iff c category name, ?_,
    fun category name => get?_foldl_offer inserts (category, normalize category name),
    size_foldl_offer inserts,
    fun category name argCount unknown => find_of_unknown unknown argCount, exists_normalize_eq, ?_⟩
  · intro category name entry refusal left refused
    rw [eq_of_insert_eq_error refused]
    exact ⟨rfl, fun _ _ => rfl, fun _ _ _ => rfl⟩
  · intro text file read
    refine ⟨exists_ofJsonText_iff read, fun c built category name entry => ?_⟩
    rw [ofJsonText, read] at built
    exact get?_ofEntries_elements built

end Catalog

end Requisite
