import Requisite.Json.Printer
import Requisite.Json.Reader
import Requisite.Proofs.Text

/-!
# JSON values and their texts

A value that holds nothing unreadable, and no numbers but whole ones of 64 bits, is read back from
the text that `Json.render` writes for it, as long as its arrays and objects are not nested too deep
for the reader (`parse?_render`).

The readers take one part of a text and hand on what is left. So every lemma here speaks of the text
of a part with a rest behind it. The rest must not go on with what could still belong to the part,
which matters for numbers only.
-/
namespace Requisite.Json

/-! ### What can be written -/

mutual

/-- Whether the text of a value says all of it. -/
def plain : Json → Bool
  | .null | .bool _ | .text _ => true
  | .whole n => n < UInt64.size
  | .number _ | .unreadable => false
  | .array items => plainItems items
  | .object members => plainMembers members

def plainItems : List Json → Bool
  | [] => true
  | item :: rest => item.plain && plainItems rest

def plainMembers : List (String × Json) → Bool
  | [] => true
  | (_, value) :: rest => value.plain && plainMembers rest

end

mutual

/-- How many arrays and objects are nested in one another. -/
def depth : Json → Nat
  | .array items => depthItems items + 1
  | .object members => depthMembers members + 1
  | _ => 0

def depthItems : List Json → Nat
  | [] => 0
  | item :: rest => max item.depth (depthItems rest)

def depthMembers : List (String × Json) → Nat
  | [] => 0
  | (_, value) :: rest => max value.depth (depthMembers rest)

end

theorem plainItems_iff {items : List Json} : plainItems items ↔ ∀ item ∈ items, item.plain := by
  induction items with
  | nil => simp [plainItems]
  | cons item rest ih => simp [plainItems, ih]

theorem plainMembers_iff {members : List (String × Json)} :
    plainMembers members ↔ ∀ member ∈ members, member.2.plain := by
  induction members with
  | nil => simp [plainMembers]
  | cons member rest ih => simp [plainMembers, ih]

theorem depthItems_le_iff {items : List Json} {n : Nat} :
    depthItems items ≤ n ↔ ∀ item ∈ items, item.depth ≤ n := by
  induction items with
  | nil => simp [depthItems]
  | cons item rest ih => rw [depthItems, Nat.max_le, ih, List.forall_mem_cons]

theorem depthMembers_le_iff {members : List (String × Json)} {n : Nat} :
    depthMembers members ≤ n ↔ ∀ member ∈ members, member.2.depth ≤ n := by
  induction members with
  | nil => simp [depthMembers]
  | cons member rest ih => rw [depthMembers, Nat.max_le, ih, List.forall_mem_cons]

mutual

theorem readable_of_plain : (j : Json) → j.plain → j.readable
  | .null, _ | .bool _, _ | .whole _, _ | .text _, _ => by simp [readable]
  | .array items, h => by
    rw [plain] at h
    rw [readable]
    exact readableItems_of_plain items h
  | .object members, h => by
    rw [plain] at h
    rw [readable]
    exact readableMembers_of_plain members h
  | .number _, h | .unreadable, h => by simp [plain] at h

theorem readableItems_of_plain : (items : List Json) → plainItems items → readableItems items
  | [], _ => by simp [readableItems]
  | item :: rest, h => by
    simp only [plainItems, readableItems, Bool.and_eq_true] at h ⊢
    exact ⟨readable_of_plain item h.1, readableItems_of_plain rest h.2⟩

theorem readableMembers_of_plain :
    (members : List (String × Json)) → plainMembers members → readableMembers members
  | [], _ => by simp [readableMembers]
  | (_, value) :: rest, h => by
    simp only [plainMembers, readableMembers, Bool.and_eq_true] at h ⊢
    exact ⟨readable_of_plain value h.1, readableMembers_of_plain rest h.2⟩

end

/-! ### Layout -/

theorem toList_renderText (s : String) :
    (renderText s).toList = '"' :: (s.toList.flatMap escapeChar ++ ['"']) := by
  simp [renderText]

/-- The characters of the items of an array. -/
def itemChars (items : List Json) : List Char :=
  [','].intercalate ((renderItems items).map String.toList)

/-- The characters of the members of an object. -/
def memberChars (members : List (String × Json)) : List Char :=
  [','].intercalate ((renderMembers members).map String.toList)

theorem toList_render_array (items : List Json) :
    (render (.array items)).toList = '[' :: (itemChars items ++ [']']) := by
  simp [render, itemChars, String.toList_intercalate]

theorem toList_render_object (members : List (String × Json)) :
    (render (.object members)).toList = '\x7b' :: (memberChars members ++ ['\x7d']) := by
  simp [render, memberChars, String.toList_intercalate]

@[simp] theorem itemChars_singleton (item : Json) : itemChars [item] = item.render.toList := by
  simp [itemChars, renderItems]

theorem itemChars_cons_cons (item next : Json) (rest : List Json) :
    itemChars (item :: next :: rest) = item.render.toList ++ ',' :: itemChars (next :: rest) := by
  simp [itemChars, renderItems]

@[simp] theorem memberChars_singleton (name : String) (value : Json) :
    memberChars [(name, value)]
      = '"' :: (name.toList.flatMap escapeChar ++ '"' :: ':' :: value.render.toList) := by
  simp [memberChars, renderMembers, toList_renderText]

theorem memberChars_cons_cons (name : String) (value : Json) (next : String × Json)
    (rest : List (String × Json)) :
    memberChars ((name, value) :: next :: rest)
      = '"' :: (name.toList.flatMap escapeChar ++ '"' :: ':' :: (value.render.toList
          ++ ',' :: memberChars (next :: rest))) := by
  simp [memberChars, renderMembers, toList_renderText]

theorem memberChars_starts (member : String × Json) (rest : List (String × Json)) :
    ∃ cs, memberChars (member :: rest) = '"' :: cs := by
  obtain ⟨name, value⟩ := member
  cases rest with
  | nil => exact ⟨_, memberChars_singleton name value⟩
  | cons next rest => exact ⟨_, memberChars_cons_cons name value next rest⟩

namespace Reader

open Text (digits)

/-! ### Numbers -/

/-- What may follow a value: nothing, or the next item, or the end of what it stands in. -/
def Ends (rest : List Char) : Prop :=
  ∀ c ∈ rest.head?, c = ',' ∨ c = ']' ∨ c = '\x7d'

theorem digits?_append {ds rest : List Char} (ne : ds ≠ []) (hd : ∀ c ∈ ds, c.isDigit)
    (hr : ∀ c ∈ rest.head?, c.isDigit = false) : digits? (ds ++ rest) = some (ds, rest) := by
  rw [digits?, Text.takeWhile_append_of_head hd hr, Text.dropWhile_append_of_head hd hr]
  cases ds with
  | nil => exact absurd rfl ne
  | cons d ds => rfl

theorem Ends.not_isDigit {rest : List Char} (h : Ends rest) :
    ∀ c ∈ rest.head?, c.isDigit = false := by
  intro c hc
  rcases h c hc with rfl | rfl | rfl <;> decide

theorem fractionPart?_of_ends {rest : List Char} (h : Ends rest) :
    fractionPart? rest = some (none, rest) := by
  cases rest with
  | nil => rfl
  | cons c rest => rcases h c rfl with rfl | rfl | rfl <;> rfl

theorem exponentPart?_of_ends {rest : List Char} (h : Ends rest) :
    exponentPart? rest = some (none, rest) := by
  cases rest with
  | nil => rfl
  | cons c rest => rcases h c rfl with rfl | rfl | rfl <;> rfl

theorem integerPart?_digits (n : Nat) {rest : List Char} (h : ∀ c ∈ rest.head?, c.isDigit = false) :
    integerPart? (digits n ++ rest) = some (digits n, rest) := by
  rw [integerPart?, digits?_append (Text.digits_ne_nil n) (fun c => Text.isDigit_of_mem_digits) h]
  split
  · rename_i eq
    simp only [Option.some.injEq, Prod.mk.injEq] at eq
    exact absurd eq.1 (Text.digits_ne_zero_cons n _ _)
  · rfl

theorem unsigned?_digits {n : Nat} (h : n < UInt64.size) {rest : List Char} (hr : Ends rest) :
    unsigned? false (digits n ++ rest) = some (.whole n, rest) := by
  rw [unsigned?, integerPart?_digits n hr.not_isDigit]
  simp [fractionPart?_of_ends hr, exponentPart?_of_ends hr, h]

theorem scalar?_digits {n : Nat} (h : n < UInt64.size) {rest : List Char} (hr : Ends rest) :
    scalar? (digits n ++ rest) = some (.whole n, rest) := by
  have read := unsigned?_digits h hr
  obtain ⟨c, cs, eq, digit⟩ := Text.exists_digits_eq_cons n
  rw [eq, List.cons_append] at read ⊢
  rw [scalar?, number?, read] <;>
    exact fun _ eq => Text.ne_of_isDigit digit (by decide) (List.cons.inj eq).1

/-! ### Strings -/

theorem hexValue?_digitChar : ∀ d < 16, Text.hexValue? (Nat.digitChar d) = some d := by
  decide

/-- A short escape is read as the character that it stands for. -/
theorem stringUnits?_short {e c : Char} (h : shortEscape? e = some c) (rest : List Char) :
    stringUnits? ('\\' :: e :: rest)
      = (stringUnits? rest).map fun (units, rest) => (c.toNat :: units, rest) := by
  have : e ≠ 'u' := by
    rintro rfl
    simp [shortEscape?] at h
  rw [stringUnits?]
  · rw [h]
    cases stringUnits? rest <;> rfl
  · intro a b c d rest eq
    simp_all

/-- A character of a string is read back as one unit, however it is written. -/
theorem stringUnits?_escapeChar (c : Char) (rest : List Char) :
    stringUnits? (escapeChar c ++ rest)
      = (stringUnits? rest).map fun (units, rest) => (c.toNat :: units, rest) := by
  unfold escapeChar
  iterate 5
    split
    · subst c
      exact stringUnits?_short rfl rest
  split
  · rename_i back
    rw [back]; exact stringUnits?_short (c := Char.ofNat 8) rfl rest
  split
  · rename_i feed
    rw [feed]; exact stringUnits?_short (c := Char.ofNat 12) rfl rest
  split
  · rename_i control
    have high := hexValue?_digitChar (c.toNat / 16) (by omega)
    have low := hexValue?_digitChar (c.toNat % 16) (by omega)
    have zero : Text.hexValue? '0' = some 0 := by decide
    have unit : hexUnit? '0' '0' (Nat.digitChar (c.toNat / 16)) (Nat.digitChar (c.toNat % 16))
        = some c.toNat := by
      simp [hexUnit?, zero, high, low]
      omega
    simp only [hexPair, List.cons_append, List.nil_append]
    rw [stringUnits?, unit]
    cases stringUnits? rest <;> rfl
  · rename_i quote backslash _ _ _ _ _ control
    rw [List.singleton_append, stringUnits?]
    · simp [backslash, control]
    all_goals simp_all

theorem scalar?_toNat (c : Char) : Text.scalar? c.toNat = some c := by
  have valid : c.toNat.isValidChar := c.valid
  rw [Text.scalar?, if_pos valid, Char.ofNat_toNat]

theorem not_isHighSurrogate (c : Char) : isHighSurrogate c.toNat = false := by
  have valid : c.toNat.isValidChar := c.valid
  simp only [isHighSurrogate, Nat.isValidChar] at *
  grind

/-- No character is a surrogate, so every one stands for itself. -/
theorem joinUnits?_map_toNat (cs : List Char) : joinUnits? (cs.map Char.toNat) = some cs := by
  induction cs with
  | nil => rfl
  | cons c cs ih =>
    cases cs with
    | nil => simp [joinUnits?, scalar?_toNat]
    | cons c' cs =>
      simp only [List.map_cons] at ih ⊢
      simp [joinUnits?, not_isHighSurrogate, scalar?_toNat, ih]

theorem stringUnits?_flatMap (cs rest : List Char) :
    stringUnits? (cs.flatMap escapeChar ++ '"' :: rest) = some (cs.map Char.toNat, rest) := by
  induction cs with
  | nil => rfl
  | cons c cs ih => simp [stringUnits?_escapeChar, ih]

theorem string?_flatMap (s : String) (rest : List Char) :
    string? (s.toList.flatMap escapeChar ++ '"' :: rest) = some (some s, rest) := by
  simp [string?, stringUnits?_flatMap, joinUnits?_map_toNat]

/-! ### Values -/

/-- How the text of a value begins. -/
def Starts (cs : List Char) : Prop :=
  ∃ c rest, cs = c :: rest ∧ isSpace c = false ∧ c ≠ ']'

theorem Starts.append {cs : List Char} (h : Starts cs) (rest : List Char) :
    Starts (cs ++ rest) := by
  obtain ⟨c, cs', rfl, hc⟩ := h
  exact ⟨c, cs' ++ rest, rfl, hc⟩

theorem Starts.length_pos {cs : List Char} (h : Starts cs) : 0 < cs.length := by
  obtain ⟨c, rest, rfl, -⟩ := h
  simp

theorem not_isSpace_of_isDigit {c : Char} (h : c.isDigit) : isSpace c = false := by
  simp only [isSpace, Bool.or_eq_false_iff, beq_eq_false_iff_ne]
  exact ⟨⟨⟨Text.ne_of_isDigit h rfl, Text.ne_of_isDigit h rfl⟩, Text.ne_of_isDigit h rfl⟩,
    Text.ne_of_isDigit h rfl⟩

theorem starts_digits (n : Nat) : Starts (digits n) := by
  obtain ⟨c, cs, eq, digit⟩ := Text.exists_digits_eq_cons n
  exact ⟨c, cs, eq, not_isSpace_of_isDigit digit, Text.ne_of_isDigit digit rfl⟩

theorem starts_render {j : Json} (h : j.plain) : Starts j.render.toList := by
  cases j with
  | null => exact ⟨'n', _, rfl, rfl, by decide⟩
  | bool b => cases b <;> exact ⟨_, _, rfl, rfl, by decide⟩
  | whole n =>
    have := starts_digits n
    simpa [render, renderScalar] using this
  | text s =>
    exact ⟨'"', s.toList.flatMap escapeChar ++ ['"'], by
      simp [render, renderScalar, toList_renderText], rfl, by decide⟩
  | array items => exact ⟨'[', _, toList_render_array items, rfl, by decide⟩
  | object members => exact ⟨'\x7b', _, toList_render_object members, rfl, by decide⟩
  | number _ => simp [plain] at h
  | unreadable => simp [plain] at h

theorem starts_itemChars {item : Json} {rest : List Json} (h : item.plain) :
    Starts (itemChars (item :: rest)) := by
  cases rest with
  | nil => simpa using starts_render h
  | cons next rest =>
    rw [itemChars_cons_cons]
    exact (starts_render h).append _

section Steps

variable {steps room : Nat} {cs rest : List Char} {x : Json}

theorem value?_text (s : String) :
    value? (steps + 1) room ('"' :: (s.toList.flatMap escapeChar ++ '"' :: rest))
      = some (.text s, rest) := by
  have read := string?_flatMap s rest
  simp [value?, skipSpace, isSpace, read]

theorem value?_digits {n : Nat} (h : n < UInt64.size) (hr : Ends rest) :
    value? (steps + 1) room (digits n ++ rest) = some (.whole n, rest) := by
  have read := scalar?_digits h hr
  obtain ⟨c, cs, eq, digit⟩ := Text.exists_digits_eq_cons n
  have space : skipSpace (c :: (cs ++ rest)) = c :: (cs ++ rest) := by
    simp [skipSpace, not_isSpace_of_isDigit digit]
  rw [eq, List.cons_append] at read ⊢
  rw [value?, space]
  split
  · rename_i quote
    exact absurd (List.cons.inj quote).1 (Text.ne_of_isDigit digit (by decide))
  · rename_i bracket
    exact absurd (List.cons.inj bracket).1 (Text.ne_of_isDigit digit (by decide))
  · rename_i brace
    exact absurd (List.cons.inj brace).1 (Text.ne_of_isDigit digit (by decide))
  · exact read

theorem value?_array (h : Starts cs) :
    value? (steps + 1) (room + 1) ('[' :: cs)
      = (items? steps room cs).map fun (xs, rest) => (.array xs, rest) := by
  obtain ⟨c, cs, rfl, space, ne⟩ := h
  simp [value?, skipSpace, space, nested, show isSpace '[' = false from rfl]
  grind

theorem value?_object :
    value? (steps + 1) (room + 1) ('\x7b' :: '"' :: cs)
      = (members? steps room ('"' :: cs)).map fun (ms, rest) => (ofMembers ms, rest) := by
  simp [value?, skipSpace, isSpace, nested]

theorem items?_more (h : value? steps room cs = some (x, ',' :: rest)) :
    items? (steps + 1) room cs
      = (items? steps room rest).map fun (xs, rest) => (x :: xs, rest) := by
  simp [items?, h, skipSpace, isSpace]

theorem items?_last (h : value? steps room cs = some (x, ']' :: rest)) :
    items? (steps + 1) room cs = some ([x], rest) := by
  simp [items?, h, skipSpace, isSpace]

theorem members?_more (name : String) (h : value? steps room cs = some (x, ',' :: rest)) :
    members? (steps + 1) room ('"' :: (name.toList.flatMap escapeChar ++ '"' :: ':' :: cs))
      = (members? steps room rest).map fun (ms, rest) => ((some name, x) :: ms, rest) := by
  simp [members?, h, skipSpace, isSpace, string?_flatMap]

theorem members?_last (name : String) (h : value? steps room cs = some (x, '\x7d' :: rest)) :
    members? (steps + 1) room ('"' :: (name.toList.flatMap escapeChar ++ '"' :: ':' :: cs))
      = some ([(some name, x)], rest) := by
  simp [members?, h, skipSpace, isSpace, string?_flatMap]

end Steps

theorem ends_cons {c : Char} (h : c = ',' ∨ c = ']' ∨ c = '\x7d') (rest : List Char) :
    Ends (c :: rest) := by
  intro d hd
  obtain rfl := Option.some.inj hd
  exact h

/-- The members of an object as they are read. -/
def readMembers (members : List (String × Json)) : List (Option String × Json) :=
  members.map fun (name, value) => (some name, value)

theorem ofMembers_readMembers (members : List (String × Json)) :
    ofMembers (readMembers members) = .object members := by
  rw [ofMembers, readMembers, Text.mapM_map_eq_some]
  intro member _
  rfl

mutual

/-- A value is read back from its text, whatever follows. -/
theorem value?_render : (j : Json) → ∀ (steps room : Nat) (rest : List Char), j.plain →
    j.depth ≤ room → 2 * j.render.toList.length ≤ steps + 1 → Ends rest →
    value? (steps + 1) room (j.render.toList ++ rest) = some (j, rest)
  | .null | .bool true | .bool false => fun _ _ _ _ _ _ _ => rfl
  | .whole n => by
    intro steps room rest plain _ _ ends
    simp only [Json.plain, decide_eq_true_eq] at plain
    simpa [render, renderScalar] using value?_digits plain ends
  | .text s => by
    intro steps room rest _ _ _ _
    simpa [render, renderScalar, toList_renderText] using value?_text s
  | .array items => by
    intro steps room rest plain deep fuel _
    simp only [Json.plain, depth, toList_render_array, List.length_cons, List.length_append]
      at plain deep fuel
    obtain ⟨steps, rfl⟩ : ∃ s, steps = s + 1 := ⟨steps - 1, by omega⟩
    obtain ⟨room, rfl⟩ : ∃ r, room = r + 1 := ⟨room - 1, by omega⟩
    cases items with
    | nil => rfl
    | cons x xs =>
      have read := items?_render (x :: xs) (by simp) steps room rest plain (by omega) (by omega)
      have starts : Starts (itemChars (x :: xs) ++ ']' :: rest) :=
        (starts_itemChars (by simp_all [plainItems])).append _
      simp [toList_render_array, value?_array starts, read]
  | .object members => by
    intro steps room rest plain deep fuel _
    simp only [Json.plain, depth, toList_render_object, List.length_cons, List.length_append]
      at plain deep fuel
    obtain ⟨steps, rfl⟩ : ∃ s, steps = s + 1 := ⟨steps - 1, by omega⟩
    obtain ⟨room, rfl⟩ : ∃ r, room = r + 1 := ⟨room - 1, by omega⟩
    cases members with
    | nil => rfl
    | cons m ms =>
      have read := members?_render (m :: ms) (by simp) steps room rest plain (by omega) (by omega)
      obtain ⟨cs, quote⟩ := memberChars_starts m ms
      rw [quote, List.cons_append] at read
      simp [toList_render_object, quote, value?_object, read, ofMembers_readMembers]
  | .number _ | .unreadable => by
    intro _ _ _ plain
    simp [Json.plain] at plain

theorem items?_render : (items : List Json) → items ≠ [] → ∀ (steps room : Nat)
    (rest : List Char), plainItems items → depthItems items ≤ room →
    2 * (itemChars items).length ≤ steps →
    items? (steps + 1) room (itemChars items ++ ']' :: rest) = some (items, rest)
  | [] => by simp
  | [x] => by
    intro _ steps room rest plain deep fuel
    simp only [plainItems, Bool.and_true, depthItems, itemChars_singleton] at plain deep fuel ⊢
    have pos := (starts_render plain).length_pos
    obtain ⟨steps, rfl⟩ : ∃ s, steps = s + 1 := ⟨steps - 1, by omega⟩
    have read := value?_render x steps room (']' :: rest) plain (by omega) (by omega)
      (ends_cons (by simp) rest)
    exact items?_last read
  | x :: next :: more => by
    intro _ steps room rest plain deep fuel
    rw [plainItems, Bool.and_eq_true] at plain
    rw [depthItems] at deep
    simp only [itemChars_cons_cons, List.length_append, List.length_cons, List.append_assoc,
      List.cons_append] at fuel ⊢
    obtain ⟨steps, rfl⟩ : ∃ s, steps = s + 1 := ⟨steps - 1, by omega⟩
    have read := value?_render x steps room (',' :: (itemChars (next :: more) ++ ']' :: rest))
      plain.1 (by omega) (by omega) (ends_cons (by simp) _)
    have others := items?_render (next :: more) (by simp) steps room rest plain.2 (by omega)
      (by omega)
    rw [items?_more read, others]
    rfl

theorem members?_render : (members : List (String × Json)) → members ≠ [] → ∀ (steps room : Nat)
    (rest : List Char), plainMembers members → depthMembers members ≤ room →
    2 * (memberChars members).length ≤ steps →
    members? (steps + 1) room (memberChars members ++ '\x7d' :: rest)
      = some (readMembers members, rest)
  | [] => by simp
  | [(name, x)] => by
    intro _ steps room rest plain deep fuel
    simp only [plainMembers, Bool.and_true, depthMembers, memberChars_singleton, List.length_cons,
      List.length_append, List.cons_append, List.append_assoc] at plain deep fuel ⊢
    obtain ⟨steps, rfl⟩ : ∃ s, steps = s + 1 := ⟨steps - 1, by omega⟩
    have read := value?_render x steps room ('\x7d' :: rest) plain (by omega) (by omega)
      (ends_cons (by simp) rest)
    exact members?_last name read
  | (name, x) :: next :: more => by
    intro _ steps room rest plain deep fuel
    rw [plainMembers, Bool.and_eq_true] at plain
    rw [depthMembers] at deep
    simp only [memberChars_cons_cons, List.length_append, List.length_cons, List.append_assoc,
      List.cons_append] at fuel ⊢
    obtain ⟨steps, rfl⟩ : ∃ s, steps = s + 1 := ⟨steps - 1, by omega⟩
    have read := value?_render x steps room (',' :: (memberChars (next :: more) ++ '\x7d' :: rest))
      plain.1 (by omega) (by omega) (ends_cons (by simp) _)
    have others := members?_render (next :: more) (by simp) steps room rest plain.2 (by omega)
      (by omega)
    rw [members?_more name read, others]
    rfl

end

end Reader

theorem parse?_render {j : Json} (plain : j.plain) (shallow : j.depth ≤ Reader.nestingLimit) :
    parse? j.render = some j := by
  have read := Reader.value?_render j (2 * j.render.toList.length + 1) Reader.nestingLimit [] plain
    shallow (by omega) (by simp [Reader.Ends])
  rw [List.append_nil] at read
  rw [parse?, parseNested?, read]
  rfl

end Requisite.Json
