import Requisite.Text.Ascii
import Requisite.Text.Blank

/-!
# White space and decimal numbers

What trimming leaves is trimmed, and trimmed text is left alone; `TrimsTo` says what is taken away.
A number that is written in decimal digits is read back as itself, digits written one after the
other make one number, and `WritesWord` says which digits are read at all.
-/
namespace Requisite.Text

/-! ### The ends of a list -/

section Ends

variable {α : Type} {p : α → Bool} {front rest : List α}

theorem dropWhile_of_head (h : ∀ a ∈ rest.head?, p a = false) : rest.dropWhile p = rest := by
  cases rest with
  | nil => rfl
  | cons a rest => simp [h a rfl]

theorem takeWhile_of_head (h : ∀ a ∈ rest.head?, p a = false) : rest.takeWhile p = [] := by
  cases rest with
  | nil => rfl
  | cons a rest => simp [h a rfl]

theorem takeWhile_append_of_head (hf : ∀ a ∈ front, p a) (h : ∀ a ∈ rest.head?, p a = false) :
    (front ++ rest).takeWhile p = front := by
  rw [List.takeWhile_append_of_pos hf, takeWhile_of_head h, List.append_nil]

theorem dropWhile_append_of_head (hf : ∀ a ∈ front, p a) (h : ∀ a ∈ rest.head?, p a = false) :
    (front ++ rest).dropWhile p = rest := by
  rw [List.dropWhile_append_of_pos hf, dropWhile_of_head h]

theorem head?_dropWhile (p : α → Bool) (as : List α) :
    ∀ a ∈ (as.dropWhile p).head?, p a = false := by
  have := List.head?_dropWhile_not p as
  grind

/-- The longest front whose elements all pass a test, and what comes after it. -/
theorem span_eq_iff {as : List α} :
    as.takeWhile p = front ∧ as.dropWhile p = rest
      ↔ as = front ++ rest ∧ (∀ a ∈ front, p a) ∧ ∀ a ∈ rest.head?, p a = false := by
  constructor
  · rintro ⟨rfl, rfl⟩
    exact ⟨List.takeWhile_append_dropWhile.symm, List.all_eq_true.1 List.all_takeWhile,
      head?_dropWhile p as⟩
  · rintro ⟨rfl, hf, h⟩
    exact ⟨takeWhile_append_of_head hf h, dropWhile_append_of_head hf h⟩

theorem dropWhile_eq_iff {as : List α} :
    as.dropWhile p = rest
      ↔ ∃ front, as = front ++ rest ∧ (∀ a ∈ front, p a) ∧ ∀ a ∈ rest.head?, p a = false := by
  simp only [← span_eq_iff, exists_eq_left']

/-- What is left when elements that pass a test are dropped from the end. -/
theorem dropWhile_reverse_eq_iff {as : List α} :
    (as.reverse.dropWhile p).reverse = front
      ↔ ∃ back, as = front ++ back ∧ (∀ a ∈ back, p a) ∧ ∀ a ∈ front.getLast?, p a = false := by
  rw [List.reverse_eq_iff, dropWhile_eq_iff]
  constructor
  · rintro ⟨back, whole, hb, h⟩
    refine ⟨back.reverse, ?_, by simpa using hb, by simpa using h⟩
    simpa using congrArg List.reverse whole
  · rintro ⟨back, rfl, hb, h⟩
    exact ⟨back.reverse, by simp, by simpa using hb, by simpa using h⟩

/-- Dropping from the end leaves a list alone that does not end with what is dropped. -/
theorem dropWhile_reverse_of_last (h : ∀ a ∈ rest.getLast?, p a = false) :
    (rest.reverse.dropWhile p).reverse = rest := by
  have head : ∀ a ∈ rest.reverse.head?, p a = false := by simpa using h
  rw [dropWhile_of_head head, List.reverse_reverse]

end Ends

/-! ### Joined pieces -/

/-- What follows the last of some joined pieces belongs to that piece. -/
theorem intercalate_concat_append {α : Type} (sep : List α) (front : List (List α))
    (last rest : List α) :
    sep.intercalate (front ++ [last ++ rest]) = sep.intercalate (front ++ [last]) ++ rest := by
  induction front with
  | nil => simp
  | cons piece front ih =>
    have ne (l : List α) : front ++ [l] ≠ [] := by simp
    simp only [List.cons_append, List.intercalate_cons_of_ne_nil (ne _), ih, List.append_assoc]

/-- Joined pieces begin with the first of them. -/
theorem exists_intercalate_cons_eq {α : Type} (sep piece : List α) (pieces : List (List α)) :
    ∃ more, sep.intercalate (piece :: pieces) = piece ++ more := by
  cases pieces <;> simp

theorem mem_of_mem_intercalate {α : Type} {sep : List α} {pieces : List (List α)} {a : α}
    (h : a ∈ sep.intercalate pieces) : a ∈ sep ∨ ∃ piece ∈ pieces, a ∈ piece := by
  induction pieces with
  | nil => simp at h
  | cons piece pieces ih =>
    cases pieces with
    | nil => simp_all
    | cons next rest =>
      rw [List.intercalate_cons_cons, List.append_assoc, List.mem_append, List.mem_append] at h
      grind

/-- No piece has the separator in it. -/
theorem not_mem_of_mem_splitOn {α : Type} [BEq α] [LawfulBEq α] {a : α}
    {as piece : List α} (h : piece ∈ as.splitOn a) : a ∉ piece := by
  induction as generalizing piece with
  | nil => simp_all
  | cons b as ih =>
    rw [List.splitOn_cons_eq_if_modifyHead] at h
    split at h
    · rcases List.mem_cons.1 h with rfl | later
      · simp
      · exact ih later
    · obtain ⟨first, rest, pieces⟩ := List.exists_cons_of_ne_nil (List.splitOn_ne_nil a as)
      rw [pieces] at h ih
      rcases List.mem_cons.1 h with rfl | later
      · have apart := ih List.mem_cons_self
        grind
      · exact ih (List.mem_cons_of_mem _ later)

/-- What was written item by item is read back item by item. -/
theorem mapM_map_eq_some {α β : Type} {write : α → β} {read : β → Option α} {items : List α}
    (h : ∀ a ∈ items, read (write a) = some a) : (items.map write).mapM read = some items := by
  induction items with
  | nil => rfl
  | cons a items ih => simp_all

/-- A reader that gives a reason succeeds where one that gives none does, and with the same. -/
theorem eq_ok_iff_and_eq_error_iff {α ε : Type} {read? : Option α} {read : Except ε α} {reason : ε}
    (h : read = read?.elim (.error reason) .ok) :
    (∀ a, read = .ok a ↔ read? = some a) ∧ ∀ e, read = .error e ↔ e = reason ∧ read? = none := by
  cases read? <;> simp [h, eq_comm]

/-! ### White space -/

/-- Text that neither begins nor ends with white space. -/
structure Trimmed (cs : List Char) : Prop where
  head : ∀ c ∈ cs.head?, isBlank c = false
  last : ∀ c ∈ cs.getLast?, isBlank c = false

theorem Trimmed.of_forall {cs : List Char} (h : ∀ c ∈ cs, isBlank c = false) : Trimmed cs where
  head c hc := h c (List.mem_of_head? hc)
  last c hc := h c (List.mem_of_getLast? hc)

theorem Trimmed.trimChars_eq {cs : List Char} (h : Trimmed cs) : trimChars cs = cs := by
  rw [trimChars, trimStart, dropWhile_of_head h.head, trimEnd, dropWhile_reverse_of_last h.last]

theorem trimmed_trimChars (cs : List Char) : Trimmed (trimChars cs) where
  head := by
    intro c hc
    -- What is cut off at the end is a suffix, so the first character stays.
    have cut : trimChars cs <+: trimStart cs := by
      rw [trimChars, trimEnd, ← List.reverse_suffix, List.reverse_reverse]
      exact List.dropWhile_suffix _
    obtain ⟨blanks, whole⟩ := cut
    have first : (trimStart cs).head? = some c := by
      rw [← whole, List.head?_append, Option.mem_def.1 hc, Option.some_or]
    exact head?_dropWhile isBlank cs c first
  last := by
    intro c hc
    rw [trimChars, trimEnd, List.getLast?_reverse] at hc
    exact head?_dropWhile isBlank _ c hc

@[simp] theorem trimChars_trimChars (cs : List Char) : trimChars (trimChars cs) = trimChars cs :=
  (trimmed_trimChars cs).trimChars_eq

/-- `ds` is what is left of `cs` when the white space on either side is taken away. -/
structure TrimsTo (cs ds : List Char) : Prop where
  split : ∃ before after, cs = before ++ (ds ++ after)
    ∧ (∀ c ∈ before, isBlank c) ∧ ∀ c ∈ after, isBlank c
  trimmed : Trimmed ds

theorem trimsTo_iff {cs ds : List Char} : TrimsTo cs ds ↔ trimChars cs = ds := by
  constructor
  · rintro ⟨⟨before, after, rfl, blankBefore, blankAfter⟩, trimmed⟩
    cases ds with
    | nil =>
      -- nothing but white space: all of it is taken from the front
      have nothing : trimStart (before ++ after) = [] := by
        refine dropWhile_eq_iff.2 ⟨before ++ after, by simp, ?_, by simp⟩
        intro c hc
        exact (List.mem_append.1 hc).elim (blankBefore c) (blankAfter c)
      rw [List.nil_append, trimChars, nothing]
      rfl
    | cons c ds =>
      have start : trimStart (before ++ (c :: ds ++ after)) = c :: ds ++ after :=
        dropWhile_eq_iff.2 ⟨before, rfl, blankBefore, trimmed.head⟩
      rw [trimChars, start]
      exact dropWhile_reverse_eq_iff.2 ⟨after, rfl, blankAfter, trimmed.last⟩
  · rintro rfl
    obtain ⟨before, start, blankBefore, -⟩ := dropWhile_eq_iff.1 (rfl : trimStart cs = _)
    obtain ⟨after, rest, blankAfter, -⟩ :=
      dropWhile_reverse_eq_iff.1 (rfl : trimEnd (trimStart cs) = _)
    have whole : cs = before ++ (trimChars cs ++ after) :=
      start.trans (congrArg (before ++ ·) rest)
    exact ⟨⟨before, after, whole, blankBefore, blankAfter⟩, trimmed_trimChars cs⟩

theorem not_isBlank_of_isDigit {c : Char} (h : c.isDigit) : isBlank c = false := by
  rw [Char.isDigit_iff_toNat] at h
  simp [isBlank, blankRanges]
  grind

/-! ### Decimal numbers -/

/-- The decimal digits of a number. -/
abbrev digits (n : Nat) : List Char := Nat.toDigits 10 n

theorem isDigit_of_mem_digits {n : Nat} {c : Char} (h : c ∈ digits n) : c.isDigit :=
  Nat.isDigit_of_mem_toDigits (by decide) (by decide) h

theorem digitsValue_eq (cs : List Char) : digitsValue cs = Nat.ofDigitChars 10 cs 0 :=
  Nat.ofDigitChars_eq_foldl.symm

@[simp] theorem digitsValue_digits (n : Nat) : digitsValue (digits n) = n := by
  rw [digitsValue_eq]
  exact Nat.ofDigitChars_ten_toDigits

/-- Digits that follow others push these to the left. -/
theorem digitsValue_append (as bs : List Char) :
    digitsValue (as ++ bs) = digitsValue as * Nat.pow 10 bs.length + digitsValue bs := by
  simp only [digitsValue_eq]
  rw [Nat.ofDigitChars_append, Nat.ofDigitChars_eq_ofDigitChars_zero, Nat.mul_comm]
  rfl

theorem digits_ne_nil (n : Nat) : digits n ≠ [] := Nat.toDigits_ne_nil

theorem exists_digits_eq_cons (n : Nat) : ∃ c cs, digits n = c :: cs ∧ c.isDigit := by
  obtain ⟨c, cs, eq⟩ := List.exists_cons_of_ne_nil (digits_ne_nil n)
  exact ⟨c, cs, eq, isDigit_of_mem_digits (eq ▸ List.mem_cons_self)⟩

theorem ne_of_isDigit {c d : Char} (hc : c.isDigit) (hd : d.isDigit = false) : c ≠ d := by
  rintro rfl
  simp_all

theorem readNat?_of_digits {cs : List Char} (ne : cs ≠ []) (h : ∀ c ∈ cs, c.isDigit) :
    readNat? cs = some (digitsValue cs) := by
  simpa [readNat?, ne] using h

theorem readWord32?_of_digits {cs : List Char} (ne : cs ≠ []) (h : ∀ c ∈ cs, c.isDigit) :
    readWord32? cs
      = if digitsValue cs < UInt32.size then some (UInt32.ofNat (digitsValue cs)) else none := by
  rw [readWord32?, readNat?_of_digits ne h, Option.bind_some]

/-- `ds` are one or more decimal digits of value `n`; there may be zeros in front. -/
structure WritesWord (ds : List Char) (n : UInt32) : Prop where
  ne_nil : ds ≠ []
  digit : ∀ c ∈ ds, c.isDigit
  value : Nat.ofDigitChars 10 ds 0 = n.toNat

theorem readWord32?_eq_some_iff {ds : List Char} {n : UInt32} :
    readWord32? ds = some n ↔ WritesWord ds n := by
  constructor
  · intro read
    obtain ⟨m, readNat, bounded⟩ := Option.bind_eq_some_iff.1 read
    have form : ds ≠ [] ∧ (∀ c ∈ ds, c.isDigit) ∧ digitsValue ds = m := by
      simpa [readNat?, and_assoc] using readNat
    obtain ⟨ne, digit, rfl⟩ := form
    split at bounded
    · rename_i fits
      obtain rfl := Option.some.inj bounded
      refine ⟨ne, digit, ?_⟩
      rw [UInt32.toNat_ofNat_of_lt' fits, digitsValue_eq]
    · simp at bounded
  · rintro ⟨ne, digit, value⟩
    rw [readWord32?_of_digits ne digit, digitsValue_eq, value, if_pos n.toNat_lt_size,
      UInt32.ofNat_toNat]

@[simp] theorem readWord32?_digits (n : UInt32) : readWord32? (digits n.toNat) = some n := by
  rw [readWord32?_of_digits (digits_ne_nil _) fun _ => isDigit_of_mem_digits, digitsValue_digits,
    if_pos n.toNat_lt_size, UInt32.ofNat_toNat]

/-- No zero stands in front of other digits. -/
theorem digits_ne_zero_cons (n : Nat) (d : Char) (ds : List Char) : digits n ≠ '0' :: d :: ds := by
  induction n using Nat.strongRecOn generalizing d ds with
  | _ n ih =>
    intro eq
    by_cases small : n < 10
    · simp [digits, Nat.toDigits_of_lt_base small] at eq
    · have pieces : digits n = digits (n / 10) ++ [(n % 10).digitChar] :=
        Nat.toDigits_of_base_le (by decide) (by omega)
      rw [pieces] at eq
      match front : digits (n / 10) with
      | [] => exact Nat.toDigits_ne_nil front
      | [c] =>
        obtain rfl : c = '0' := by simp_all
        have zero : n / 10 = 0 := by rw [← digitsValue_digits (n / 10), front]; rfl
        omega
      | c :: c' :: cs =>
        obtain rfl : c = '0' := by simp_all
        exact ih (n / 10) (by omega) c' cs front

end Requisite.Text
