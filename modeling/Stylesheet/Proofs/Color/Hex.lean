import Mathlib
import Stylesheet.Color.Hex
import Stylesheet.Proofs.Text.Blank

/-!
# Writing and reading hexadecimal colors

Each byte is written as two digits, and a digit is read as the number it was written for, so
three bytes are read again from the six digits they are written with. Neither the number sign
in front nor the blanks that a reader allows get in the way: no written character is blank.
-/

namespace Stylesheet

section Digits

theorem hexDigit?_digitChar {n : Nat} (small : n < 16) :
    hexDigit? (Nat.digitChar n) = some (UInt8.ofNat n) := by
  have all : ∀ n < 16, hexDigit? (Nat.digitChar n) = some (UInt8.ofNat n) := by decide
  exact all n small

theorem isBlank_digitChar {n : Nat} (small : n < 16) : Text.isBlank (Nat.digitChar n) = false := by
  have all : ∀ n < 16, Text.isBlank (Nat.digitChar n) = false := by decide
  exact all n small

variable (b : UInt8)

theorem high_half_lt : b.toNat / 16 < 16 := by
  have := b.toNat_lt
  omega

theorem low_half_lt : b.toNat % 16 < 16 := Nat.mod_lt _ (by decide)

theorem join_halves : UInt8.ofNat (b.toNat / 16) * 16 + UInt8.ofNat (b.toNat % 16) = b := by
  apply UInt8.toNat_inj.1
  rw [UInt8.toNat_add, UInt8.toNat_mul, UInt8.toNat_ofNat', UInt8.toNat_ofNat']
  change (b.toNat / 16 % 256 * 16 % 256 + b.toNat % 16 % 256) % 256 = b.toNat
  have := b.toNat_lt
  omega

theorem not_blank_of_mem_hexByte {d : Char} (h : d ∈ hexByte b) : Text.isBlank d = false := by
  simp only [hexByte, List.mem_cons, List.not_mem_nil, or_false] at h
  obtain rfl | rfl := h
  · exact isBlank_digitChar (high_half_lt b)
  · exact isBlank_digitChar (low_half_lt b)

end Digits

namespace Rgb

variable (c : Rgb)

/-- Six written digits are read as the three bytes they were written for. -/
theorem ofHexDigits?_hexDigits : ofHexDigits? c.hexDigits = some c := by
  have high (b : UInt8) : hexDigit? (Nat.digitChar (b.toNat / 16)) =
      some (UInt8.ofNat (b.toNat / 16)) := hexDigit?_digitChar (high_half_lt b)
  have low (b : UInt8) : hexDigit? (Nat.digitChar (b.toNat % 16)) =
      some (UInt8.ofNat (b.toNat % 16)) := hexDigit?_digitChar (low_half_lt b)
  simp [ofHexDigits?, hexDigits, hexByte, high, low, join_halves]

theorem not_blank_of_mem_hexDigits {d : Char} (h : d ∈ c.hexDigits) : Text.isBlank d = false := by
  simp only [hexDigits, List.mem_append] at h
  obtain (h | h) | h := h
  · exact not_blank_of_mem_hexByte c.red h
  · exact not_blank_of_mem_hexByte c.green h
  · exact not_blank_of_mem_hexByte c.blue h

theorem hexDigitsOf_hexDigits : hexDigitsOf (String.ofList ('#' :: c.hexDigits)) = c.hexDigits := by
  have written : ∀ d ∈ '#' :: c.hexDigits, Text.isBlank d = false := by
    rw [List.forall_mem_cons]
    exact ⟨by decide, fun d h => c.not_blank_of_mem_hexDigits h⟩
  simp only [hexDigitsOf, String.toList_ofList, Text.trim_of_not_blank written]

end Rgb

/-- A written color is read as its three bytes. -/
theorem Color.ofHex?_hexDigits (c : Rgb) :
    ofHex? (String.ofList ('#' :: c.hexDigits)) = some (ofBytes c) := by
  rw [ofHex?, c.hexDigitsOf_hexDigits, c.ofHexDigits?_hexDigits, Option.map_some]

end Stylesheet
