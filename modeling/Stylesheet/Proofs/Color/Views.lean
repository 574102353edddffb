import Mathlib
import Stylesheet.Proofs.Color.Hex
import Stylesheet.Proofs.Color.Keyword
import Stylesheet.Proofs.Color.State

/-!
# The views of a color agree

A color can be seen as hexadecimal digits, as a keyword, and as red, green and blue. The digits
are made from the bytes in whichever family they are, the keyword from the bytes after a
conversion, and each asks for an alpha in its own way. For the colors that there are, the three
are views of the same bytes: an opaque color is nothing but its bytes once it is converted, and
both the digits and the keyword are read as those bytes again.
-/

namespace Stylesheet.Color

variable {c : Color} {text : String}

/-- An opaque color is its bytes once it is red, green and blue. -/
theorem toRgb_of_bytes? (plain : c.alpha? = none) {t : Rgb} (bytes : c.bytes? = some t) :
    c.toRgb = ofBytes t := by
  cases c with
  | empty => cases bytes
  | rgb c a =>
    obtain rfl : a = none := plain
    obtain rfl := Option.some.inj bytes
    rfl
  | hsl c a =>
    obtain rfl : a = none := plain
    obtain rfl := Option.some.inj bytes
    rfl

theorem keyword?_of_bytes? (plain : c.alpha? = none) {t : Rgb} (bytes : c.bytes? = some t) :
    c.keyword? = t.keyword? := by
  rw [keyword?, toRgb_of_bytes? plain bytes]
  simp only [ofBytes, alpha?, bytes?, Option.isSome_none, Bool.false_eq_true, if_false,
    Option.bind_some]

theorem bytes?_eq_none_iff : c.bytes? = none ↔ c = .empty := by
  cases c <;> simp [bytes?]

section Translucent

variable (translucent : Translucent c.alpha?)
include translucent

/-- An alpha that is there is never one, so both ways to look for it find the same. -/
theorem any_alpha?_eq_isSome : c.alpha?.any (· != 1) = c.alpha?.isSome := by
  cases there : c.alpha? with
  | none => rfl
  | some a => exact Number.bne_of_lt (translucent a there).2

theorem hex?_eq_none_iff : c.hex? = none ↔ c = .empty ∨ c.alpha?.isSome = true := by
  rw [hex?, any_alpha?_eq_isSome translucent]
  by_cases there : c.alpha?.isSome = true
  · simp [there]
  · simp [there, bytes?_eq_none_iff]

theorem hex?_eq_some_iff : c.hex? = some text ↔
    c.alpha? = none ∧ ∃ t, c.bytes? = some t ∧ text = String.ofList ('#' :: t.hexDigits) := by
  rw [hex?, any_alpha?_eq_isSome translucent]
  cases there : c.alpha? with
  | none => simp [eq_comm]
  | some a => simp

theorem keyword?_eq_none_of_hex? (written : c.hex? = none) : c.keyword? = none := by
  rw [keyword?]
  obtain rfl | there := (hex?_eq_none_iff translucent).1 written
  · rfl
  · have kept : c.toRgb.alpha? = c.alpha? := alpha?_into translucent .rgb
    rw [kept, if_pos there]

end Translucent

/-- Whatever constructor a color comes from and whatever conversions it has gone through, there
are hexadecimal digits for it unless it is empty or has an alpha. Where there are digits, they
are read as the color in red, green and blue, the keyword is the one of the bytes they spell,
and a keyword too is read as that color. Where there are none, there is no keyword. The digits
and the keyword are those that the channels alone give. -/
theorem converted_color_views (built : Built c) (families : List Family) :
    let d := c.convert families
    (d.hex? = none ↔ d = .empty ∨ d.alpha?.isSome = true) ∧
      (∀ h, d.hex? = some h → ofHex? h = some d.toRgb ∧
        ∃ t, Rgb.ofHexDigits? (hexDigitsOf h) = some t ∧ d.keyword? = t.keyword? ∧
          ∀ n, d.keyword? = some n → ofKeyword? n = some d.toRgb) ∧
      (d.hex? = none → d.keyword? = none) ∧
      (c.keyed.convert families).hex? = d.hex? ∧
      (c.keyed.convert families).keyword? = d.keyword? := by
  intro d
  have translucent : Translucent d.alpha? := built.translucent_convert families
  have channels : c.keyed.convert families = d.keyed := (keyed_convert c families).symm
  refine ⟨hex?_eq_none_iff translucent, ?_, keyword?_eq_none_of_hex? translucent,
    channels ▸ hex?_keyed d, channels ▸ keyword?_keyed d⟩
  intro h written
  obtain ⟨plain, t, bytes, rfl⟩ := (hex?_eq_some_iff translucent).1 written
  have converted : d.toRgb = ofBytes t := toRgb_of_bytes? plain bytes
  have named : d.keyword? = t.keyword? := keyword?_of_bytes? plain bytes
  refine ⟨by rw [converted, ofHex?_hexDigits], t, ?_, named, fun n hn => ?_⟩
  · rw [t.hexDigitsOf_hexDigits, t.ofHexDigits?_hexDigits]
  · rw [ofKeyword?, Rgb.ofKeyword?_of_keyword? (named ▸ hn), converted, Option.map_some]

theorem converted_literal_views :
    let d := (ofHslLiteral 0 100 50 none).convert [.rgb, .hsl]
    Built (ofHslLiteral 0 100 50 none) ∧ d.hex? = some "#ff0000" ∧
      ofHex? "#ff0000" = some d.toRgb := by
  intro d
  have built : Built (ofHslLiteral 0 100 50 none) := .hslLiteral 0 100 50 none
  have written : d.hex? = some "#ff0000" := by decide +kernel
  obtain ⟨-, digits, -⟩ := converted_color_views built [.rgb, .hsl]
  exact ⟨built, written, (digits "#ff0000" written).1⟩

end Stylesheet.Color
