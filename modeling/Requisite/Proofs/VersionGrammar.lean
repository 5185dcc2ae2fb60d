import Mathlib.Data.List.Forall2
import Requisite.Error
import Requisite.Proofs.Text

/-!
# The grammar of versions

Which texts are read as versions, said without the reader. The text of a version has five parts
(`Spelling`): numbers with single dots between them, dots that say nothing, separators, a tag and
the digits after it. Dots can belong to three of them, so it has to be said that the numbers and the
dots after them go as far as they can; then the parts are told apart by their characters alone.

Each of the two readers accepts what is spelled as its part of a version
(`readParts?_eq_some_iff`, `readSuffix?_eq_some_iff`), and the main statement puts them together.
-/
namespace Requisite

theorem Text.mapM_eq_some_iff_forall₂ {α β : Type} {f : α → Option β} {as : List α}
    {bs : List β} : as.mapM f = some bs ↔ List.Forall₂ (fun a b => f a = some b) as bs := by
  induction as generalizing bs with
  | nil => cases bs <;> simp
  | cons a as ih => cases bs <;> simp [Option.bind_eq_some_iff, ih]

/-! ### Characters -/

namespace Version

theorem isNumeric_eq_false_iff {c : Char} : isNumeric c = false ↔ c.isDigit = false ∧ c ≠ '.' := by
  simp [isNumeric]

theorem isSeparator_iff {c : Char} : isSeparator c ↔ c ∈ ['-', '.', '_', '+'] := by
  simp [isSeparator, or_assoc]

theorem isNumeric_of_isDigit {c : Char} (h : c.isDigit) : isNumeric c := by
  simp [isNumeric, h]

theorem not_isSeparator_of_isDigit {c : Char} (h : c.isDigit) : isSeparator c = false := by
  simp only [isSeparator, Bool.or_eq_false_iff, beq_eq_false_iff_ne]
  exact ⟨⟨⟨Text.ne_of_isDigit h rfl, Text.ne_of_isDigit h rfl⟩, Text.ne_of_isDigit h rfl⟩,
    Text.ne_of_isDigit h rfl⟩

/-- Only letters have two cases. -/
theorem toLower_eq {c : Char} (h : c.isDigit ∨ isSeparator c) : c.toLower = c := by
  rcases h with digit | separator
  · have below : c.toNat ≤ 57 := (Char.isDigit_iff_toNat.1 digit).2
    refine dif_neg ?_
    rintro ⟨capital, -⟩
    have above : 65 ≤ c.toNat := UInt32.le_iff_toNat_le.1 capital
    omega
  · rw [isSeparator_iff] at separator
    simp only [List.mem_cons, List.not_mem_nil, or_false] at separator
    rcases separator with rfl | rfl | rfl | rfl <;> rfl

end Version

/-! ### Tags -/

namespace Stability

/-- Every tag in small letters, with what it stands for. -/
def tags : List (String × Stability) :=
  [("dev", .dev), ("alpha", .alpha), ("a", .alpha), ("beta", .beta), ("b", .beta),
    ("rc", .candidate), ("", .stable), ("pl", .patch), ("p", .patch)]

theorem ofTag?_eq_some_iff {tag : String} {s : Stability} :
    ofTag? tag = some s ↔ (Text.foldCase tag, s) ∈ tags := by
  unfold ofTag?
  generalize Text.foldCase tag = small
  constructor
  · intro h
    split at h <;> cases h
    all_goals decide +kernel
  · intro h
    simp only [tags, List.mem_cons, Prod.mk.injEq, List.not_mem_nil, or_false] at h
    rcases h with h | h | h | h | h | h | h | h | h
    all_goals
      obtain ⟨rfl, rfl⟩ := h
      rfl

/-- No tag has a digit or a separator in it, whichever the case of its letters. -/
theorem plain_of_mem_tags {tag : List Char} {s : Stability}
    (h : (Text.foldCase (String.ofList tag), s) ∈ tags) :
    ∀ c ∈ tag, c.isDigit = false ∧ Version.isSeparator c = false := by
  intro c hc
  have plain : tags.all fun e => e.1.toList.all fun c => !c.isDigit && !Version.isSeparator c := by
    decide +kernel
  have lower : c.toLower.isDigit = false ∧ Version.isSeparator c.toLower = false := by
    have mem : c.toLower ∈ (Text.foldCase (String.ofList tag)).toList := by
      simpa [Text.foldCase] using ⟨c, hc, rfl⟩
    simpa using List.all_eq_true.1 (List.all_eq_true.1 plain _ h) _ mem
  by_contra special
  have same : c.toLower = c := Version.toLower_eq (by grind)
  rw [same] at lower
  exact special lower

end Stability

namespace Version

open Text (WritesWord)

/-! ### Numbers -/

/-- Numbers between dots are read one by one. -/
theorem readParts?_intercalate {ds : List (List Char)} (ne : ds ≠ [])
    (h : ∀ d ∈ ds, d ≠ [] ∧ ∀ c ∈ d, c.isDigit) :
    readParts? (['.'].intercalate ds) = ds.mapM Text.readWord32? := by
  have not_dot {c : Char} (hc : c.isDigit) : (c == '.') = false :=
    beq_eq_false_iff_ne.2 (Text.ne_of_isDigit hc rfl)
  have last : ∀ c ∈ (['.'].intercalate ds).getLast?, (c == '.') = false := by
    obtain ⟨front, d, rfl⟩ := (List.eq_nil_or_concat ds).resolve_left ne
    have ⟨hd, digit⟩ := h d (by simp)
    intro c hc
    rw [List.concat_eq_append, ← List.nil_append d, Text.intercalate_concat_append,
      List.getLast?_append, List.getLast?_eq_some_getLast hd, Option.some_or] at hc
    obtain rfl := Option.some.inj hc
    exact not_dot (digit _ (List.getLast_mem hd))
  have apart : ∀ d ∈ ds, '.' ∉ d := by
    intro d hd mem
    simpa using not_dot ((h d hd).2 '.' mem)
  rw [readParts?, Text.dropWhile_reverse_of_last last, List.splitOn_intercalate '.' apart ne]

theorem isNumeric_of_mem_intercalate {ds : List (List Char)} (h : ∀ d ∈ ds, ∀ c ∈ d, c.isDigit) :
    ∀ c ∈ ['.'].intercalate ds, isNumeric c := by
  intro c hc
  rcases Text.mem_of_mem_intercalate hc with dot | ⟨d, hd, mem⟩
  · obtain rfl := List.mem_singleton.1 dot
    rfl
  · exact isNumeric_of_isDigit (h d hd c mem)

theorem digits_of_forall₂ {numbers : List (List Char)} {ns : List UInt32}
    (h : List.Forall₂ WritesWord numbers ns) : ∀ d ∈ numbers, d ≠ [] ∧ ∀ c ∈ d, c.isDigit :=
  ((List.forall₂_and_left _ _).1 (h.imp fun _ _ w => ⟨⟨w.ne_nil, w.digit⟩, w⟩)).1

/-- Dots at the end say nothing. -/
theorem readParts?_append_dots {cs dots : List Char} (h : ∀ c ∈ dots, c = '.') :
    readParts? (cs ++ dots) = readParts? cs := by
  have dropped : ∀ c ∈ dots.reverse, (c == '.') = true := by simpa using h
  rw [readParts?, List.reverse_append, List.dropWhile_append_of_pos dropped, readParts?]

theorem readParts?_eq_some_iff {cs : List Char} {ns : List UInt32} (ne : ns ≠ []) :
    readParts? cs = some ns
      ↔ ∃ numbers dots, cs = ['.'].intercalate numbers ++ dots ∧ (∀ c ∈ dots, c = '.')
          ∧ List.Forall₂ WritesWord numbers ns := by
  have mapM_iff {numbers : List (List Char)} :
      numbers.mapM Text.readWord32? = some ns ↔ List.Forall₂ WritesWord numbers ns := by
    simp only [Text.mapM_eq_some_iff_forall₂, Text.readWord32?_eq_some_iff]
  constructor
  · intro read
    obtain ⟨dots, whole, hd, -⟩ :=
      Text.dropWhile_reverse_eq_iff.1 (rfl : (cs.reverse.dropWhile (· == '.')).reverse = _)
    refine ⟨_, dots, ?_, by simpa using hd, mapM_iff.1 read⟩
    rw [List.intercalate_splitOn]
    exact whole
  · rintro ⟨numbers, dots, rfl, hd, written⟩
    have some_number : numbers ≠ [] := by
      rintro rfl
      cases written
      exact ne rfl
    rw [readParts?_append_dots hd, readParts?_intercalate some_number (digits_of_forall₂ written)]
    exact mapM_iff.2 written

/-! ### The stability and its number -/

/-- The digits after a tag have the value `n`; there are none only if it is zero. -/
def WritesNumber (ds : List Char) (n : UInt32) : Prop :=
  ds = [] ∧ n = 0 ∨ WritesWord ds n

theorem WritesNumber.digit {ds : List Char} {n : UInt32} (h : WritesNumber ds n) :
    ∀ c ∈ ds, c.isDigit := by
  rcases h with ⟨rfl, -⟩ | writes
  · simp
  · exact writes.digit

theorem readSuffix?_of_tag {separators tag digits : List Char} {stability : Stability}
    {number : UInt32} (hs : ∀ c ∈ separators, isSeparator c)
    (tagged : (Text.foldCase (String.ofList tag), stability) ∈ Stability.tags)
    (numbered : WritesNumber digits number) :
    readSuffix? (separators ++ (tag ++ digits)) = some (stability, number) := by
  have plain := Stability.plain_of_mem_tags tagged
  have start : ∀ c ∈ (tag ++ digits).head?, isSeparator c = false := by
    intro c hc
    rcases List.mem_append.1 (List.mem_of_head? hc) with hc | hc
    · exact (plain c hc).2
    · exact not_isSeparator_of_isDigit (numbered.digit c hc)
  have letters : ∀ c ∈ tag, !c.isDigit := by
    intro c hc
    simp [(plain c hc).1]
  have stop : ∀ c ∈ digits.head?, (!c.isDigit) = false := by
    intro c hc
    simp [numbered.digit c (List.mem_of_head? hc)]
  simp only [readSuffix?, Text.dropWhile_append_of_head hs start,
    Text.takeWhile_append_of_head letters stop, Text.dropWhile_append_of_head letters stop,
    Stability.ofTag?_eq_some_iff.2 tagged]
  rcases numbered with ⟨rfl, rfl⟩ | writes
  · rfl
  · cases digits with
    | nil => exact absurd rfl writes.ne_nil
    | cons d ds => simp [Text.readWord32?_eq_some_iff.2 writes]

theorem readSuffix?_eq_some_iff {cs : List Char} {stability : Stability} {number : UInt32} :
    readSuffix? cs = some (stability, number)
      ↔ ∃ separators tag digits, cs = separators ++ (tag ++ digits)
          ∧ (∀ c ∈ separators, isSeparator c)
          ∧ (Text.foldCase (String.ofList tag), stability) ∈ Stability.tags
          ∧ WritesNumber digits number := by
  constructor
  · intro read
    obtain ⟨separators, whole, hs, -⟩ :=
      Text.dropWhile_eq_iff.1 (rfl : cs.dropWhile isSeparator = _)
    have rest := List.takeWhile_append_dropWhile (p := fun c : Char => !c.isDigit)
      (l := cs.dropWhile isSeparator)
    refine ⟨separators, _, _, whole.trans (congrArg (separators ++ ·) rest.symm), hs, ?_⟩
    obtain ⟨st, tagged, numbered⟩ := Option.bind_eq_some_iff.1 read
    have tag := Stability.ofTag?_eq_some_iff.1 tagged
    split at numbered
    · rename_i nothing
      obtain ⟨rfl, rfl⟩ := Prod.mk.inj (Option.some.inj numbered)
      exact ⟨tag, Or.inl ⟨nothing, rfl⟩⟩
    · obtain ⟨n, readNumber, same⟩ := Option.bind_eq_some_iff.1 numbered
      obtain ⟨rfl, rfl⟩ := Prod.mk.inj (Option.some.inj same)
      exact ⟨tag, Or.inr (Text.readWord32?_eq_some_iff.1 readNumber)⟩
  · rintro ⟨separators, tag, digits, rfl, hs, tagged, numbered⟩
    exact readSuffix?_of_tag hs tagged numbered

/-! ### Whole texts -/

/-- The parts of a text that may be that of a version, in their order. -/
structure Spelling where
  numbers : List (List Char)
  dots : List Char
  separators : List Char
  tag : List Char
  digits : List Char

namespace Spelling

/-- What comes after the numbers and their dots. -/
def suffix (s : Spelling) : List Char :=
  s.separators ++ (s.tag ++ s.digits)

/-- The text that the parts make up. -/
def chars (s : Spelling) : List Char :=
  (['.'].intercalate s.numbers ++ s.dots) ++ s.suffix

/-- The parts are those of the version `v`. -/
structure Spells (s : Spelling) (v : Version) : Prop where
  numbers : List.Forall₂ WritesWord s.numbers v.parts
  dots : ∀ c ∈ s.dots, c = '.'
  /-- Digits and dots go no further. -/
  apart : ∀ c ∈ s.suffix.head?, c.isDigit = false ∧ c ≠ '.'
  separators : ∀ c ∈ s.separators, c ∈ ['-', '.', '_', '+']
  tag : (Text.foldCase (String.ofList s.tag), v.stability) ∈ Stability.tags
  number : WritesNumber s.digits v.number

theorem Spells.exists_digit {s : Spelling} {v : Version} (h : s.Spells v) :
    ∃ c cs, s.chars = c :: cs ∧ c.isDigit := by
  obtain ⟨d, numbers, writes, -, first⟩ := List.forall₂_cons_right_iff.1 h.numbers
  obtain ⟨c, cs, rfl⟩ := List.exists_cons_of_ne_nil writes.ne_nil
  obtain ⟨more, start⟩ := Text.exists_intercalate_cons_eq ['.'] (c :: cs) numbers
  refine ⟨c, cs ++ more ++ s.dots ++ s.suffix, ?_, writes.digit c List.mem_cons_self⟩
  rw [chars, first, start]
  rfl

end Spelling

/-- The version with these numbers, if there are any. -/
def ofParts? (stability : Stability) (number : UInt32) : List UInt32 → Option Version
  | [] => none
  | major :: minors => some { major, minors, stability, number }

@[simp] theorem ofParts?_parts (v : Version) : ofParts? v.stability v.number v.parts = some v := rfl

theorem ofParts?_eq_some_iff {stability : Stability} {number : UInt32} {parts : List UInt32}
    {w : Version} :
    ofParts? stability number parts = some w
      ↔ w.parts = parts ∧ w.stability = stability ∧ w.number = number := by
  obtain ⟨major, minors, st, n⟩ := w
  cases parts <;> simp [ofParts?, Version.parts]
  grind

/-- A text that is made of numbers and a stability after them is read in two parts. -/
theorem parse?_of_split {text : String} {numeric suffix : List Char} {stability : Stability}
    {number : UInt32} (h : Text.trimChars text.toList = numeric ++ suffix)
    (hn : ∀ c ∈ numeric, isNumeric c) (hs : ∀ c ∈ suffix.head?, isNumeric c = false)
    (read : readSuffix? suffix = some (stability, number)) :
    parse? text = (readParts? numeric).bind (ofParts? stability number) := by
  rw [parse?, h, Text.takeWhile_append_of_head hn hs, Text.dropWhile_append_of_head hn hs]
  cases readParts? numeric with
  | none => rfl
  | some parts => cases parts <;> simp [ofParts?, read]

/-- The numbers are read as far as digits and dots go, and the rest of the text after them. -/
theorem parse?_eq_some_iff_readers {text : String} {v : Version} :
    parse? text = some v
      ↔ ∃ numeric suffix, Text.trimChars text.toList = numeric ++ suffix
          ∧ (∀ c ∈ numeric, isNumeric c) ∧ (∀ c ∈ suffix.head?, isNumeric c = false)
          ∧ readParts? numeric = some v.parts
          ∧ readSuffix? suffix = some (v.stability, v.number) := by
  constructor
  · intro read
    obtain ⟨whole, numeric, apart⟩ :=
      Text.span_eq_iff.1 (⟨rfl, rfl⟩ : (Text.trimChars text.toList).takeWhile isNumeric = _ ∧ _)
    refine ⟨_, _, whole, numeric, apart, ?_⟩
    obtain ⟨parts, readParts, read⟩ := Option.bind_eq_some_iff.1 read
    cases parts with
    | nil => simp at read
    | cons major minors =>
      obtain ⟨rest, readRest, same⟩ := Option.bind_eq_some_iff.1 read
      obtain rfl := Option.some.inj same
      exact ⟨readParts, readRest⟩
  · rintro ⟨numeric, suffix, whole, hn, hs, parts, rest⟩
    rw [parse?_of_split whole hn hs rest, parts]
    exact ofParts?_parts v

/-- Versions are read from the texts that the grammar spells them with, and from no others. -/
theorem parse?_eq_some_iff {text : String} {v : Version} :
    parse? text = some v
      ↔ ∃ s : Spelling, Text.TrimsTo text.toList s.chars ∧ s.Spells v := by
  have some_part : v.parts ≠ [] := List.cons_ne_nil _ _
  rw [parse?_eq_some_iff_readers]
  simp only [readParts?_eq_some_iff some_part, readSuffix?_eq_some_iff, Text.trimsTo_iff,
    isNumeric_eq_false_iff, isSeparator_iff]
  constructor
  · rintro ⟨numeric, suffix, whole, -, apart, ⟨numbers, dots, rfl, hd, written⟩,
      ⟨separators, tag, digits, rfl, hs, tagged, numbered⟩⟩
    exact ⟨⟨numbers, dots, separators, tag, digits⟩, whole,
      ⟨written, hd, apart, hs, tagged, numbered⟩⟩
  · rintro ⟨s, whole, spells⟩
    refine ⟨_, _, whole, ?_, spells.apart, ⟨s.numbers, s.dots, rfl, spells.dots, spells.numbers⟩,
      ⟨s.separators, s.tag, s.digits, rfl, spells.separators, spells.tag, spells.number⟩⟩
    intro c hc
    rcases List.mem_append.1 hc with number | dot
    · have digits := fun d hd => (digits_of_forall₂ spells.numbers d hd).2
      exact isNumeric_of_mem_intercalate digits c number
    · obtain rfl := spells.dots c dot
      rfl

theorem parse_eq_elim (text : String) :
    parse text = (parse? text).elim (.error (.invalidVersion text)) .ok := by
  unfold parse
  cases parse? text <;> rfl

theorem parse_eq_ok_iff {text : String} {v : Version} :
    parse text = .ok v ↔ parse? text = some v :=
  (Text.eq_ok_iff_and_eq_error_iff (parse_eq_elim text)).1 v

/-- A text is read as a version just when, without the white space around it, it is spelled as one:
numbers below `2 ^ 32` between dots, a tag in any case, and digits for a number below `2 ^ 32` or
none. The version has these numbers, this stability and this number. For any other text the error
shows the text as it was given. -/
theorem read_just_when_spelled (text : String) :
    (∀ v, parse text = .ok v ↔ ∃ s : Spelling, Text.TrimsTo text.toList s.chars ∧ s.Spells v)
      ∧ ∀ e, parse text = .error e
          ↔ e = .invalidVersion text
            ∧ ¬∃ (s : Spelling) (v : Version), Text.TrimsTo text.toList s.chars ∧ s.Spells v := by
  constructor
  · intro v
    rw [parse_eq_ok_iff, parse?_eq_some_iff]
  · intro e
    rw [(Text.eq_ok_iff_and_eq_error_iff (parse_eq_elim text)).2, exists_comm]
    simp only [← parse?_eq_some_iff, Option.eq_none_iff_forall_ne_some, not_exists, ne_eq]

-- Dots between the numbers, after them and in front of the tag.
example :
    parse? " 05.3..-.Rc02"
      = some { major := 5, minors := [3], stability := .candidate, number := 2 } := by
  decide +kernel

end Version

end Requisite
