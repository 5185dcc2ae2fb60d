import Mathlib.Data.List.Lex
import Requisite.Text.Ascii

/-!
# Texts by their bytes

Texts are ordered by their characters. In UTF-8 that is the order of their bytes: the encoding of a
character comes before that of every greater one, whatever stands behind it
(`lex_utf8EncodeChar`), since longer encodings begin with greater bytes, and encodings of one length
are the digits of a number.
-/
namespace Requisite.Text

/-- The bytes of a text in UTF-8. -/
def bytes (s : String) : List UInt8 :=
  s.toUTF8.data.toList

/-- Whether the bytes of a text come before those of another, as words do in a dictionary. -/
def precedesInBytes (s t : String) : Prop :=
  List.Lex (· < ·) (bytes s) (bytes t)

theorem bytes_eq (s : String) : bytes s = s.toList.flatMap String.utf8EncodeChar := by
  rw [bytes, String.toUTF8_eq_toByteArray, ← String.utf8Encode_toList, List.utf8Encode]
  simp

theorem lex_ofNat_cons_iff {m n : Nat} (hm : m < 256) (hn : n < 256) {as bs : List UInt8} :
    List.Lex (· < ·) (UInt8.ofNat m :: as) (UInt8.ofNat n :: bs)
      ↔ m < n ∨ m = n ∧ List.Lex (· < ·) as bs := by
  rw [List.cons_lex_cons_iff, UInt8.lt_iff_toNat_lt, ← UInt8.toNat_inj,
    UInt8.toNat_ofNat_of_lt' hm, UInt8.toNat_ofNat_of_lt' hn]

/-- What is behind two different characters does not matter for the order of their bytes. -/
theorem lex_utf8EncodeChar {c d : Char} (h : c < d) (as bs : List UInt8) :
    List.Lex (· < ·) (String.utf8EncodeChar c ++ as) (String.utf8EncodeChar d ++ bs) := by
  have lt : c.val.toNat < d.val.toNat := UInt32.lt_iff_toNat_lt.1 h
  have bound : d.val.toNat < 1114112 := by
    have valid : d.val.toNat < 0xd800 ∨ 0xdfff < d.val.toNat ∧ d.val.toNat < 0x110000 := d.valid
    omega
  unfold String.utf8EncodeChar
  dsimp only
  generalize c.val.toNat = m at *
  generalize d.val.toNat = n at *
  -- the bytes are digits to the base 64, taken one from the other
  have second (k : Nat) : k / 4096 = k / 64 / 64 := by omega
  have third (k : Nat) : k / 262144 = k / 64 / 64 / 64 := by omega
  simp only [second, third]
  split_ifs
  all_goals
    simp only [List.cons_append, List.nil_append]
    simp (disch := omega) only [lex_ofNat_cons_iff]
    omega

theorem lex_flatMap_utf8EncodeChar {cs ds : List Char} (h : List.Lex (· < ·) cs ds) :
    List.Lex (· < ·) (cs.flatMap String.utf8EncodeChar) (ds.flatMap String.utf8EncodeChar) := by
  induction h with
  | @nil d _ =>
    obtain ⟨b, bs, bytes⟩ := List.exists_cons_of_ne_nil (String.utf8EncodeChar_ne_nil (c := d))
    rw [List.flatMap_cons, bytes]
    exact List.Lex.nil
  | cons _ ih => exact List.Lex.append_left _ ih _
  | rel lt => exact lex_utf8EncodeChar lt _ _

/-- Texts come in the same order by their bytes as by their characters. -/
theorem precedesInBytes_iff {s t : String} : precedesInBytes s t ↔ s < t := by
  have forth {s t : String} (lt : s < t) : precedesInBytes s t := by
    rw [precedesInBytes, bytes_eq, bytes_eq]
    exact lex_flatMap_utf8EncodeChar lt
  have not_back (back : precedesInBytes t s) : ¬precedesInBytes s t :=
    List.Lex.asymm (· < ·) |>.asymm _ _ back
  constructor
  · intro before
    rcases Std.lt_trichotomy s t with lt | rfl | gt
    · exact lt
    · exact absurd before (not_back before)
    · exact absurd before (not_back (forth gt))
  · exact forth

theorem precedesInBytes_iff_compare {s t : String} :
    precedesInBytes s t ↔ compare s t = .lt := by
  rw [precedesInBytes_iff]
  exact compareOfLessAndEq_eq_lt.symm

end Requisite.Text
