import Requisite.Proofs.VersionGrammar
import Requisite.Version.Json

/-!
# Versions and their texts

A version is written as its numbers, the tag of its stability, and the number after it. Reading
takes the numbers as far as digits and dots go. So the tag is what keeps the last number of a
version apart from the number after its stability. A stable version has an empty tag: if it has a
number, the digits of that number run on from the last of the others (`runsOn`).

Every version has a text that it is read from, since a separator may stand in front of the tag. But
`Version.toString` writes none, and so its text is read as an equal version just when no number runs
on (`reread_iff_not_runsOn`).
-/
namespace Requisite

namespace Stability

theorem ofTag?_tag (s : Stability) : ofTag? s.tag = some s := by
  cases s <;> decide +kernel

/-- The letters of a tag are neither digits nor parts of a number, nor do they separate anything. -/
theorem plain_of_mem_tag {s : Stability} {c : Char} (h : c ∈ s.tag.toList) :
    c.isDigit = false ∧ Version.isNumeric c = false ∧ Version.isSeparator c = false
      ∧ Text.isBlank c = false := by
  have all : s.tag.toList.all fun c =>
      !c.isDigit && !Version.isNumeric c && !Version.isSeparator c && !Text.isBlank c := by
    cases s <;> decide +kernel
  simpa [and_assoc] using List.all_eq_true.1 all c h

theorem tag_ne_nil {s : Stability} (h : s ≠ .stable) : s.tag.toList ≠ [] := by
  cases s <;> first | contradiction | decide +kernel

end Stability

namespace Version

open Text (digits)

/-- The digits of the number after the stability, none if it is zero. -/
def numberDigits (v : Version) : List Char :=
  if v.number = 0 then [] else digits v.number.toNat

/-- The characters of a version, with `separators` in front of its stability. -/
def spelled (separators : List Char) (v : Version) : List Char :=
  ['.'].intercalate (v.parts.map fun n => digits n.toNat)
    ++ (separators ++ (v.stability.tag.toList ++ v.numberDigits))

/-- Whether the number after the stability has nothing in front of it but the other numbers. -/
def runsOn (v : Version) : Prop :=
  v.stability = .stable ∧ v.number ≠ 0

instance (v : Version) : Decidable v.runsOn :=
  inferInstanceAs (Decidable (_ ∧ _))

theorem toList_toString (v : Version) : v.toString.toList = v.spelled [] := by
  unfold Version.toString spelled numberDigits
  split <;> simp [String.toList_intercalate, Function.comp_def]

theorem isDigit_of_mem_numberDigits {v : Version} {c : Char} (h : c ∈ v.numberDigits) :
    c.isDigit := by
  unfold numberDigits at h
  split at h
  · simp at h
  · exact Text.isDigit_of_mem_digits h

/-! ### Reading the parts of a text -/

theorem mapM_readWord32?_digits (ns : List UInt32) :
    (ns.map fun n => digits n.toNat).mapM Text.readWord32? = some ns :=
  Text.mapM_map_eq_some fun n _ => Text.readWord32?_digits n

/-- The stability and the number after it are read back, whatever separates them from the rest. -/
theorem readSuffix?_spelled {separators : List Char} (h : ∀ c ∈ separators, isSeparator c)
    (v : Version) :
    readSuffix? (separators ++ (v.stability.tag.toList ++ v.numberDigits))
      = some (v.stability, v.number) := by
  have tagged : (Text.foldCase (String.ofList v.stability.tag.toList), v.stability)
      ∈ Stability.tags := by
    rw [String.ofList_toList]
    exact Stability.ofTag?_eq_some_iff.1 v.stability.ofTag?_tag
  refine readSuffix?_of_tag h tagged ?_
  by_cases zero : v.number = 0
  · exact Or.inl ⟨if_pos zero, zero⟩
  · rw [numberDigits, if_neg zero]
    exact Or.inr (Text.readWord32?_eq_some_iff.1 (Text.readWord32?_digits v.number))

/-! ### Reading a version back -/

theorem digits_numbers (ns : List UInt32) :
    ∀ d ∈ ns.map fun n => digits n.toNat, d ≠ [] ∧ ∀ c ∈ d, c.isDigit := by
  intro d hd
  obtain ⟨n, -, rfl⟩ := List.mem_map.1 hd
  exact ⟨Text.digits_ne_nil _, fun c => Text.isDigit_of_mem_digits⟩

theorem not_isBlank_of_mem_spelled {separators : List Char} (h : ∀ c ∈ separators, isSeparator c)
    {v : Version} : ∀ c ∈ v.spelled separators, Text.isBlank c = false := by
  intro c hc
  simp only [spelled, List.mem_append] at hc
  rcases hc with numeric | separator | tag | number
  · rcases Text.mem_of_mem_intercalate numeric with dot | ⟨d, hd, mem⟩
    · obtain rfl := List.mem_singleton.1 dot
      decide
    · exact Text.not_isBlank_of_isDigit ((digits_numbers v.parts d hd).2 c mem)
  · have := h c separator
    simp only [isSeparator, Bool.or_eq_true, beq_iff_eq] at this
    rcases this with ((rfl | rfl) | rfl) | rfl <;> decide
  · exact (Stability.plain_of_mem_tag tag).2.2.2
  · exact Text.not_isBlank_of_isDigit (isDigit_of_mem_numberDigits number)

/-- A version is read back from its text if what comes after the numbers is told apart from them. -/
theorem parse?_spelled {separators : List Char} (h : ∀ c ∈ separators, isSeparator c) {v : Version}
    (head : ∀ c ∈ (separators ++ (v.stability.tag.toList ++ v.numberDigits)).head?,
      isNumeric c = false) :
    parse? (String.ofList (v.spelled separators)) = some v := by
  have split :
      Text.trimChars (String.ofList (v.spelled separators)).toList = v.spelled separators := by
    rw [String.toList_ofList]
    exact (Text.Trimmed.of_forall (not_isBlank_of_mem_spelled h)).trimChars_eq
  have numeric := isNumeric_of_mem_intercalate fun d hd => (digits_numbers v.parts d hd).2
  have ne : (v.parts.map fun n => digits n.toNat) ≠ [] := by simp [parts]
  rw [parse?_of_split split numeric head (readSuffix?_spelled h v),
    readParts?_intercalate ne (digits_numbers v.parts), mapM_readWord32?_digits, Option.bind_some,
    ofParts?_parts]

/-- Every version is read from some text: a hyphen keeps its numbers apart. -/
theorem exists_parse?_eq (v : Version) : ∃ text, parse? text = some v :=
  ⟨String.ofList (v.spelled ['-']), parse?_spelled (by simp [isSeparator]) (by simp; decide)⟩

theorem parse?_toString {v : Version} (h : ¬v.runsOn) : parse? v.toString = some v := by
  have head :
      ∀ c ∈ (v.stability.tag.toList ++ v.numberDigits).head?, c ∈ v.stability.tag.toList := by
    intro c hc
    by_cases stable : v.stability = .stable
    · have zero : v.number = 0 := Classical.byContradiction fun ne => h ⟨stable, ne⟩
      rw [numberDigits, if_pos zero, List.append_nil] at hc
      exact List.mem_of_head? hc
    · rw [List.head?_append, List.head?_eq_some_head (Stability.tag_ne_nil stable)] at hc
      obtain rfl := Option.some.inj hc
      exact List.head_mem _
  rw [← String.ofList_toList (s := v.toString), toList_toString]
  exact parse?_spelled (by simp) fun c hc => (Stability.plain_of_mem_tag (head c hc)).2.1

/-! ### Numbers that run on -/

/-- The last of the numbers in front of the stability. -/
def lastPart (v : Version) : UInt32 :=
  v.parts.getLast (List.cons_ne_nil _ _)

theorem parts_eq (v : Version) : v.parts = v.parts.dropLast ++ [v.lastPart] :=
  (List.dropLast_concat_getLast _).symm

theorem lastPart_of_parts {v : Version} {front : List UInt32} {n : UInt32}
    (h : v.parts = front ++ [n]) : v.lastPart = n := by
  have last := v.parts_eq
  rw [h, List.dropLast_concat, List.append_cancel_left_eq] at last
  simpa using last.symm

/-- The numbers of a version with the digits of the number after them written on. -/
def runningDigits (v : Version) : List (List Char) :=
  (v.parts.dropLast.map fun n => digits n.toNat)
    ++ [digits v.lastPart.toNat ++ digits v.number.toNat]

theorem spelled_of_runsOn {v : Version} (h : v.runsOn) :
    v.spelled [] = ['.'].intercalate v.runningDigits := by
  obtain ⟨stable, ne⟩ := h
  have numbers : (v.parts.map fun n => digits n.toNat)
      = (v.parts.dropLast.map fun n => digits n.toNat) ++ [digits v.lastPart.toNat] := by
    simpa using congrArg (List.map fun n => digits n.toNat) v.parts_eq
  rw [runningDigits, Text.intercalate_concat_append, ← numbers, spelled, stable, numberDigits,
    if_neg ne]
  simp [Stability.tag]

theorem digits_runningDigits (v : Version) :
    ∀ d ∈ v.runningDigits, d ≠ [] ∧ ∀ c ∈ d, c.isDigit := by
  intro d hd
  rcases List.mem_append.1 hd with front | last
  · exact digits_numbers _ d front
  · obtain rfl := List.mem_singleton.1 last
    refine ⟨by simp, fun c hc => ?_⟩
    rcases List.mem_append.1 hc with hc | hc <;> exact Text.isDigit_of_mem_digits hc

/-- `w` is the stable version whose last number has the digits of the last number of `v` and after
them those of the number of `v`. -/
structure RunsInto (v w : Version) : Prop where
  front : w.parts.dropLast = v.parts.dropLast
  last : w.lastPart.toNat
    = v.lastPart.toNat * Nat.pow 10 (digits v.number.toNat).length + v.number.toNat
  stability : w.stability = .stable
  number : w.number = 0

theorem readParts?_runningDigits (v : Version) :
    readParts? (['.'].intercalate v.runningDigits)
      = (Text.readWord32? (digits v.lastPart.toNat ++ digits v.number.toNat)).map
          fun n => v.parts.dropLast ++ [n] := by
  have ne : v.runningDigits ≠ [] := by simp [runningDigits]
  rw [readParts?_intercalate ne v.digits_runningDigits, runningDigits, List.mapM_append,
    mapM_readWord32?_digits, List.mapM_cons, List.mapM_nil]
  cases Text.readWord32? (digits v.lastPart.toNat ++ digits v.number.toNat) <;> rfl

/-- The text of a version whose number runs on is the text of other numbers. -/
theorem parse?_toString_of_runsOn {v w : Version} (h : v.runsOn) :
    parse? v.toString = some w ↔ RunsInto v w := by
  have split : Text.trimChars v.toString.toList = ['.'].intercalate v.runningDigits ++ [] := by
    rw [toList_toString, List.append_nil, ← spelled_of_runsOn h]
    exact (Text.Trimmed.of_forall (not_isBlank_of_mem_spelled (by simp))).trimChars_eq
  have numeric := isNumeric_of_mem_intercalate fun d hd => (v.digits_runningDigits d hd).2
  have nothing : readSuffix? [] = some (.stable, 0) := by decide +kernel
  have digit : ∀ c ∈ digits v.lastPart.toNat ++ digits v.number.toNat, c.isDigit :=
    (v.digits_runningDigits _ (by simp [runningDigits])).2
  rw [parse?_of_split split numeric (by simp) nothing, readParts?_runningDigits,
    Text.readWord32?_of_digits (by simp) digit, Text.digitsValue_append, Text.digitsValue_digits,
    Text.digitsValue_digits]
  constructor
  · intro read
    split at read
    · rename_i fits
      obtain ⟨parts, stability, number⟩ := ofParts?_eq_some_iff.1 read
      refine ⟨by simp [parts], ?_, stability, number⟩
      rw [lastPart_of_parts parts, UInt32.toNat_ofNat_of_lt' fits]
    · simp at read
  · intro into
    rw [← into.last, if_pos w.lastPart.toNat_lt_size, UInt32.ofNat_toNat]
    refine ofParts?_eq_some_iff.2 ⟨?_, into.stability, into.number⟩
    show w.parts = v.parts.dropLast ++ [w.lastPart]
    rw [← into.front, ← parts_eq]

theorem number_eq_of_compare_eq {v w : Version} (h : compare w v = .eq) : w.number = v.number := by
  rw [compare_def, Ordering.then_eq_eq, Ordering.then_eq_eq] at h
  exact Std.LawfulEqCmp.eq_of_compare h.2.2

/-- Every version is read from some text. It is read from its own text, as the same version and not
only as an equal one, just when its number does not run on. If it does, the text is read as a
version without a number and with other parts, which is never equal, or not at all. -/
theorem reread_iff_not_runsOn (v : Version) :
    (∃ text, parse? text = some v)
      ∧ ofJson? v.toJson = parse? v.toString
      ∧ ((∃ w, parse? v.toString = some w ∧ compare w v = .eq) ↔ ¬v.runsOn)
      ∧ (¬v.runsOn → parse? v.toString = some v)
      ∧ (v.runsOn → ∀ w, parse? v.toString = some w ↔ RunsInto v w) := by
  refine ⟨v.exists_parse?_eq, rfl, ⟨?_, ?_⟩, parse?_toString,
    fun h w => parse?_toString_of_runsOn h⟩
  · rintro ⟨w, read, equal⟩ runs
    have into := (parse?_toString_of_runsOn runs).1 read
    exact runs.2 (number_eq_of_compare_eq equal ▸ into.number)
  · intro h
    exact ⟨v, parse?_toString h, Std.ReflCmp.compare_self⟩

/-- The number of `7.0.0-1` runs on: it is written `7.0.01`, which is `7.0.1`. -/
theorem hyphenated_number_runs_on :
    ∃ v, parse? "7.0.0-1" = some v ∧ v.toString = "7.0.01" ∧ v.toJson = .text "7.0.01"
      ∧ ¬∃ w, parse? v.toString = some w ∧ compare w v = .eq := by
  let v : Version := { major := 7, minors := [0, 0], number := 1 }
  have runs : v.toString = "7.0.01" := by decide +kernel
  refine ⟨v, by decide +kernel, runs, by rw [toJson, runs], ?_⟩
  rintro ⟨w, read, equal⟩
  have other : parse? "7.0.01" = some { major := 7, minors := [0, 1] } := by decide +kernel
  rw [runs, other] at read
  obtain rfl := Option.some.inj read
  exact absurd (number_eq_of_compare_eq equal) (by decide)

end Version

end Requisite
