import Requisite.Proofs.TreeJson

/-!
# Names and their texts

A text is read as a name just when it is written as one, with or without a backslash in front:
`Written` has a rule for each of the two. The name then stands in code as the text did, but for the
white space around it, so that what was read is read again from there.
-/
namespace Requisite.Code.Name

/-! ### Parts joined by backslashes -/

/-- The parts of a name, with a backslash between any two. -/
def joined (parts : List String) : List Char :=
  ['\\'].intercalate (parts.map String.toList)

/-- What can be the parts of a name. -/
structure Proper (parts : List String) : Prop where
  ne_nil : parts ≠ []
  ne_empty : ∀ p ∈ parts, p ≠ ""
  no_backslash : ∀ p ∈ parts, '\\' ∉ p.toList

theorem splitOn_joined {parts : List String} (h : Proper parts) :
    (joined parts).splitOn '\\' = parts.map String.toList := by
  apply List.splitOn_intercalate
  · intro segment mem
    obtain ⟨p, hp, rfl⟩ := List.mem_map.1 mem
    exact h.no_backslash p hp
  · simpa using h.ne_nil

theorem proper_splitOn {body : List Char} (h : (body.splitOn '\\').any List.isEmpty = false) :
    Proper ((body.splitOn '\\').map String.ofList) where
  ne_nil := by simp [List.splitOn_ne_nil]
  ne_empty := by
    intro p mem
    obtain ⟨segment, hs, rfl⟩ := List.mem_map.1 mem
    have some_char := List.any_eq_false.1 h segment hs
    simpa using some_char
  no_backslash := by
    intro p mem
    obtain ⟨segment, hs, rfl⟩ := List.mem_map.1 mem
    rw [String.toList_ofList]
    exact Text.not_mem_of_mem_splitOn hs

theorem joined_splitOn (body : List Char) :
    joined ((body.splitOn '\\').map String.ofList) = body := by
  simp [joined, Function.comp_def, List.intercalate_splitOn]

/-- A name that does not begin with a backslash has none taken from it. -/
theorem splitRoot_joined {parts : List String} (h : Proper parts) :
    splitRoot (joined parts) = (false, joined parts) := by
  obtain ⟨p, rest, rfl⟩ := List.exists_cons_of_ne_nil h.ne_nil
  have ne : p.toList ≠ [] := by simpa using h.ne_empty p List.mem_cons_self
  obtain ⟨c, cs, first⟩ := List.exists_cons_of_ne_nil ne
  have no_backslash := h.no_backslash p List.mem_cons_self
  obtain ⟨more, start⟩ := Text.exists_intercalate_cons_eq ['\\'] p.toList (rest.map String.toList)
  rw [joined, List.map_cons, start, first]
  unfold splitRoot
  grind

/-! ### Texts of names -/

/-- Which texts are those of names, and of which. -/
inductive Written : List Char → Name → Prop where
  | relative {parts : List String} : Proper parts →
      Written (joined parts) ⟨parts, if 1 < parts.length then .qualified else .unqualified⟩
  | absolute {parts : List String} : Proper parts →
      Written ('\\' :: joined parts) ⟨parts, .fullyQualified⟩

theorem parse?_of_root {text : String} {rooted : Bool} {parts : List String}
    (root : splitRoot (Text.trimChars text.toList) = (rooted, joined parts)) (h : Proper parts) :
    parse? text
      = some (if rooted then ⟨parts, .fullyQualified⟩ else ofParts parts) := by
  have full : (parts.map String.toList).any List.isEmpty = false := by
    simpa using h.ne_empty
  have back : (parts.map String.toList).map String.ofList = parts := by simp [Function.comp_def]
  simp only [parse?, root, splitOn_joined h, full, back]
  rfl

theorem parse?_eq_some_iff {text : String} {n : Name} :
    parse? text = some n ↔ ∃ cs, Text.TrimsTo text.toList cs ∧ Written cs n := by
  simp only [Text.trimsTo_iff, exists_eq_left']
  constructor
  · intro read
    rcases root : splitRoot (Text.trimChars text.toList) with ⟨rooted, body⟩
    have whole : (if rooted then '\\' :: body else body) = Text.trimChars text.toList := by
      simpa [root] using splitRoot_eq (Text.trimChars text.toList)
    simp only [parse?, root] at read
    split at read
    · simp at read
    · rename_i full
      have proper := proper_splitOn (eq_false_of_ne_true full)
      rw [← whole, ← joined_splitOn body]
      obtain rfl := Option.some.inj read
      cases rooted
      · exact .relative proper
      · exact .absolute proper
  · generalize body : Text.trimChars text.toList = cs
    intro written
    cases written with
    | relative proper =>
      exact parse?_of_root ((congrArg splitRoot body).trans (splitRoot_joined proper)) proper
    | absolute proper =>
      have root : splitRoot (Text.trimChars text.toList) = (true, _) := congrArg splitRoot body
      exact parse?_of_root root proper

/-- A text is read as a name just when, without the white space around it, it is written as one: one
or more parts, none of them empty and none with a backslash in it, joined by backslashes, and
perhaps one more in front. For any other text the error shows the text as it was given. A name that
was read stands in code as its text did, and is read from there as the same name. -/
theorem read_just_when_written (text : String) :
    (∀ n, parse text = .ok n ↔ ∃ cs, Text.TrimsTo text.toList cs ∧ Written cs n)
      ∧ (∀ e, parse text = .error e
          ↔ e = .invalidName text ∧ ¬∃ cs n, Text.TrimsTo text.toList cs ∧ Written cs n)
      ∧ ∀ n, parse text = .ok n →
          Text.TrimsTo text.toList n.source.toList ∧ n.toJson = .text n.source
            ∧ parse n.source = .ok n ∧ ofJson? n.toJson = some n := by
  have reason : parse text = (parse? text).elim (.error (.invalidName text)) .ok := by
    unfold parse
    cases parse? text <;> rfl
  obtain ⟨ok, error⟩ := Text.eq_ok_iff_and_eq_error_iff reason
  refine ⟨?_, ?_, ?_⟩
  · intro n
    rw [ok, parse?_eq_some_iff]
  · intro e
    rw [error, exists_comm]
    simp only [← parse?_eq_some_iff, Option.eq_none_iff_forall_ne_some, not_exists, ne_eq]
  · intro n read
    have spelled : n.Spelled := ⟨text, (ok n).1 read⟩
    have again : parse n.source = .ok n := by
      unfold parse
      rw [parse?_source spelled]
    exact ⟨Text.trimsTo_iff.2 (toList_source ((ok n).1 read)).symm, rfl, again,
      ofJson?_toJson spelled⟩

end Requisite.Code.Name
