import Mathlib

/-!
# The order of texts in their bytes

Texts are compared character by character. Comparing them byte by byte comes to the same: of two
characters the one that comes first has the lesser byte where their encodings first differ, and
no encoding goes on where another one ends.
-/

namespace Stylesheet.Text

/-- The bytes of a text in UTF-8. -/
def bytes (text : String) : List UInt8 := text.toList.flatMap String.utf8EncodeChar

/-- Two characters are told apart in their bytes, whatever follows them. -/
theorem encode_append_lt {c d : Char} (less : c < d) (xs ys : List UInt8) :
    String.utf8EncodeChar c ++ xs < String.utf8EncodeChar d ++ ys := by
  have numbers : c.val.toNat < d.val.toNat := less
  have bound : d.val.toNat < 0x110000 := by
    rcases d.valid with low | ⟨-, high⟩
    · exact Nat.lt_trans low (by decide)
    · exact high
  simp only [String.utf8EncodeChar]
  generalize c.val.toNat = m at numbers ⊢
  generalize d.val.toNat = n at numbers bound ⊢
  -- for each pair of lengths the bytes are compared as the numbers that they are
  split_ifs <;>
    simp only [List.cons_append, List.nil_append, List.cons_lt_cons_iff, UInt8.lt_iff_toNat_lt,
      ← UInt8.toNat_inj, UInt8.toNat_ofNat'] <;>
    simp (disch := omega) only [Nat.mod_eq_of_lt] <;>
    omega

theorem flatMap_encode_lt {cs ds : List Char} (less : cs < ds) :
    cs.flatMap String.utf8EncodeChar < ds.flatMap String.utf8EncodeChar := by
  induction cs generalizing ds with
  | nil =>
      cases ds with
      | nil => exact absurd less (List.lt_irrefl [])
      | cons d ds =>
          obtain ⟨first, rest, encoded⟩ :=
            List.exists_cons_of_ne_nil (String.utf8EncodeChar_ne_nil (c := d))
          rw [List.flatMap_cons, encoded]
          exact List.nil_lt_cons _ _
  | cons c cs ih =>
      cases ds with
      | nil => exact absurd less (List.not_lt_nil _)
      | cons d ds =>
          rw [List.flatMap_cons, List.flatMap_cons]
          rcases List.cons_lt_cons_iff.1 less with before | ⟨rfl, rest⟩
          · exact encode_append_lt before _ _
          · exact List.append_left_lt (ih rest)

theorem bytes_lt {a b : String} (less : a < b) : bytes a < bytes b :=
  flatMap_encode_lt (String.lt_iff_toList_lt.1 less)

theorem bytes_lt_iff {a b : String} : bytes a < bytes b ↔ a < b := by
  constructor
  · intro less
    by_contra other
    rcases lt_or_eq_of_le (String.not_lt.1 other) with before | rfl
    · exact absurd (bytes_lt before) (List.lt_asymm less)
    · exact List.lt_irrefl _ less
  · exact bytes_lt

theorem bytes_inj {a b : String} : bytes a = bytes b ↔ a = b := by
  constructor
  · intro same
    rcases lt_trichotomy a b with before | equal | behind
    · exact absurd (same ▸ bytes_lt before) (List.lt_irrefl _)
    · exact equal
    · exact absurd (same ▸ bytes_lt behind) (List.lt_irrefl _)
  · rintro rfl
    rfl

end Stylesheet.Text
