import Requisite.Filter
import Requisite.Proofs.VersionGrammar

/-!
# Filters and their texts

A filter is read from a spelling of its comparison and a version after it. The reader takes the
first spelling in the table that the text begins with and tries no other. Nothing is lost by that:

* a spelling that begins another one comes after it in the table, so the first one that fits is the
  longest (`split?_eq_some_iff`);
* a version begins with a digit, perhaps behind white space, and no spelling has either in it, so a
  spelling with a version after it is the longest that fits (`longest_of_version`).

So each text has one reading at most.
-/
namespace Requisite

/-- The first character of a text that is read as a version. -/
theorem Version.head_of_parse? {text : String} {v : Version} (h : parse? text = some v) :
    ∀ c ∈ text.toList.head?, Text.isBlank c ∨ c.isDigit := by
  intro c hc
  obtain ⟨s, ⟨⟨before, after, whole, blank, -⟩, -⟩, spells⟩ := parse?_eq_some_iff.1 h
  cases before with
  | cons b before =>
    obtain rfl : b = c := by simpa [whole] using hc
    exact Or.inl (blank b List.mem_cons_self)
  | nil =>
    obtain ⟨d, ds, chars, digit⟩ := spells.exists_digit
    obtain rfl : d = c := by simpa [whole, chars] using hc
    exact Or.inr digit

namespace Comparison

theorem spelling_plain {e : String × Comparison} (h : e ∈ spellings) {c : Char}
    (hc : c ∈ e.1.toList) : Text.isBlank c = false ∧ c.isDigit = false := by
  have all : spellings.all fun e => e.1.toList.all fun c => !Text.isBlank c && !c.isDigit := by
    decide +kernel
  simpa using List.all_eq_true.1 (List.all_eq_true.1 all e h) c hc

/-- A spelling that begins another one comes after it. -/
theorem spellings_pairwise :
    spellings.Pairwise fun a b => ¬a.1.toList <+: b.1.toList := by
  decide +kernel

theorem split_eq_some_iff {spelling : String} {c d : Comparison} {cs rest : List Char} :
    (if spelling.toList.isPrefixOf cs then some (c, cs.drop spelling.length) else none)
        = some (d, rest)
      ↔ c = d ∧ cs = spelling.toList ++ rest := by
  rw [← String.length_toList]
  constructor
  · intro h
    split at h
    · rename_i fits
      obtain ⟨more, rfl⟩ := List.isPrefixOf_iff_prefix.1 fits
      simpa using h
    · simp at h
  · rintro ⟨rfl, rfl⟩
    simp

/-- The longest spelling that a text begins with is split off. -/
theorem split?_eq_some_iff {cs rest : List Char} {comparison : Comparison} :
    split? cs = some (comparison, rest)
      ↔ ∃ spelling, (spelling, comparison) ∈ spellings ∧ cs = spelling.toList ++ rest
          ∧ ∀ e ∈ spellings, e.1.toList <+: cs → e.1.toList <+: spelling.toList := by
  unfold split?
  rw [List.findSome?_eq_some_iff]
  constructor
  · rintro ⟨front, ⟨spelling, c⟩, back, table, fits, earlier⟩
    obtain ⟨rfl, rfl⟩ := split_eq_some_iff.1 fits
    refine ⟨spelling, by simp [table], rfl, ?_⟩
    have ordered := spellings_pairwise
    rw [table, List.pairwise_append, List.pairwise_cons] at ordered
    rintro ⟨other, d⟩ mem ⟨more, same⟩
    rw [table, List.mem_append, List.mem_cons] at mem
    rcases mem with before | here | later
    · have none := earlier _ before
      simp [← same] at none
    · obtain ⟨rfl, rfl⟩ := Prod.mk.inj here
      exact List.prefix_rfl
    · have shorter := ordered.2.1.1 _ later
      rcases List.prefix_or_prefix_of_prefix ⟨more, same⟩ (List.prefix_append _ rest)
        with other_first | first
      · exact other_first
      · exact absurd first shorter
  · rintro ⟨spelling, mem, rfl, longest⟩
    obtain ⟨front, back, table⟩ := List.append_of_mem mem
    refine ⟨front, _, back, table, split_eq_some_iff.2 ⟨rfl, rfl⟩, ?_⟩
    have ordered := spellings_pairwise
    rw [table, List.pairwise_append] at ordered
    rintro ⟨other, d⟩ before
    have no_prefix := ordered.2.2 _ before _ List.mem_cons_self
    refine if_neg fun fits => no_prefix ?_
    exact longest _ (by simp [table, before]) (List.isPrefixOf_iff_prefix.1 fits)

/-- A spelling with a version after it is the longest that fits. -/
theorem longest_of_version {spelling : String} {rest : List Char}
    (start : ∀ c ∈ rest.head?, Text.isBlank c ∨ c.isDigit) :
    ∀ e ∈ spellings, e.1.toList <+: spelling.toList ++ rest → e.1.toList <+: spelling.toList := by
  rintro e mem ⟨more, whole⟩
  rcases List.append_eq_append_iff.1 whole with ⟨middle, shorter, -⟩ | ⟨middle, longer, rest_eq⟩
  · exact ⟨middle, shorter.symm⟩
  · cases middle with
    | nil => simp [longer]
    | cons c middle =>
      -- the other spelling would go on into the version
      have plain := spelling_plain mem (c := c) (by simp [longer])
      have begins := start c (by simp [rest_eq])
      simp [plain] at begins

end Comparison

namespace Filter

/-- The text is `spelling` and after it `rest`, which say what the filter `f` is. -/
structure Spells (text spelling rest : String) (f : Filter) : Prop where
  whole : Text.TrimsTo text.toList (spelling ++ rest).toList
  spelling : (spelling, f.comparison) ∈ Comparison.spellings
  version : Version.parse rest = .ok f.version

theorem Spells.longest {text spelling rest : String} {f : Filter}
    (h : Spells text spelling rest f) :
    ∀ e ∈ Comparison.spellings, e.1.toList <+: Text.trimChars text.toList →
      e.1.toList <+: spelling.toList := by
  rw [Text.trimsTo_iff.1 h.whole, String.toList_append]
  exact Comparison.longest_of_version (Version.head_of_parse? (Version.parse_eq_ok_iff.1 h.version))

theorem Spells.unique {text s s' r r' : String} {f f' : Filter} (h : Spells text s r f)
    (h' : Spells text s' r' f') : s = s' ∧ r = r' := by
  have whole := Text.trimsTo_iff.1 h.whole
  have whole' := Text.trimsTo_iff.1 h'.whole
  rw [String.toList_append] at whole whole'
  have forth : s.toList <+: s'.toList := h'.longest _ h.spelling ⟨_, whole.symm⟩
  have back : s'.toList <+: s.toList := h.longest _ h'.spelling ⟨_, whole'.symm⟩
  have same : s.toList = s'.toList := forth.eq_of_length_le back.length_le
  refine ⟨String.toList_inj.1 same, String.toList_inj.1 ?_⟩
  rw [whole, same] at whole'
  exact List.append_cancel_left whole'

theorem parse?_eq_some_iff {text : String} {f : Filter} :
    parse? text = some f ↔ ∃ spelling rest, Spells text spelling rest f := by
  constructor
  · intro read
    obtain ⟨⟨comparison, rest⟩, split, read⟩ := Option.bind_eq_some_iff.1 read
    obtain ⟨version, readVersion, same⟩ := Option.bind_eq_some_iff.1 read
    obtain rfl := Option.some.inj same
    obtain ⟨spelling, mem, whole, -⟩ := Comparison.split?_eq_some_iff.1 split
    refine ⟨spelling, String.ofList rest, ?_, mem, Version.parse_eq_ok_iff.2 readVersion⟩
    rw [Text.trimsTo_iff, whole]
    simp
  · rintro ⟨spelling, rest, h⟩
    have whole := Text.trimsTo_iff.1 h.whole
    rw [String.toList_append] at whole
    have split := Comparison.split?_eq_some_iff.2 ⟨spelling, h.spelling, whole, h.longest⟩
    simp [parse?, split, Version.parse_eq_ok_iff.1 h.version]

/-- A text is read as a filter just when, without the white space around it, it is a spelling of the
filter's comparison and after it a text of the filter's version. There is one such way at most to
take a text apart, so no spelling stands in for another. For any other text the error shows the text
as it was given. -/
theorem read_in_one_way (text : String) :
    (∀ f, parse text = .ok f ↔ ∃ spelling rest, Spells text spelling rest f)
      ∧ (∀ s r f s' r' f', Spells text s r f → Spells text s' r' f' → s = s' ∧ r = r' ∧ f = f')
      ∧ ∀ e, parse text = .error e
          ↔ e = .invalidFilter text ∧ ¬∃ spelling rest f, Spells text spelling rest f := by
  have reason : parse text = (parse? text).elim (.error (.invalidFilter text)) .ok := by
    unfold parse
    cases parse? text <;> rfl
  obtain ⟨ok, error⟩ := Text.eq_ok_iff_and_eq_error_iff reason
  refine ⟨?_, ?_, ?_⟩
  · intro f
    rw [ok, parse?_eq_some_iff]
  · intro s r f s' r' f' h h'
    have reads := parse?_eq_some_iff.2 ⟨s, r, h⟩
    have reads' := parse?_eq_some_iff.2 ⟨s', r', h'⟩
    obtain ⟨same, same'⟩ := h.unique h'
    exact ⟨same, same', Option.some.inj (reads.symm.trans reads')⟩
  · intro e
    have none_iff : parse? text = none ↔ ¬∃ spelling rest f, Spells text spelling rest f := by
      rw [Option.eq_none_iff_forall_ne_some]
      simp only [ne_eq, parse?_eq_some_iff, not_exists]
      exact ⟨fun h s r f => h f s r, fun h f s r => h s r f⟩
    rw [error, none_iff]

-- `<` begins the text as well, but no version comes after it.
example :
    parse? "<>5" = some { comparison := .notEqual, version := { major := 5, minors := [] } } := by
  decide +kernel

end Filter

end Requisite
