import Mathlib
import Stylesheet.Proofs.Color.Hex
import Stylesheet.Proofs.Lists

/-!
# How a hexadecimal color is spelled

A hexadecimal color is spelled by three or six digits, with a number sign in front of them or
none and with blanks around the whole. Three digits stand for six, each written twice, and six
are what is written for the bytes that are read from them, in lower case.
-/

namespace Stylesheet

section Digit

/-- The digits of hexadecimal numbers in either letter case. -/
def hexDigitChars : List Char := "0123456789abcdefABCDEF".toList

variable {d : Char}

/-- A digit has a value below sixteen, and it is written for that value in lower case. -/
theorem exists_value_of_hex (h : d ∈ hexDigitChars) :
    ∃ b, hexDigit? d = some b ∧ b.toNat < 16 ∧ Nat.digitChar b.toNat = d.toLower := by
  have all : ∀ d ∈ hexDigitChars, ∃ n < 16, hexDigit? d = some (UInt8.ofNat n) ∧
      (UInt8.ofNat n).toNat < 16 ∧ Nat.digitChar (UInt8.ofNat n).toNat = d.toLower :=
    forall_mem_of_all (by decide)
  obtain ⟨n, -, value⟩ := all d h
  exact ⟨UInt8.ofNat n, value⟩

theorem not_blank_of_hex (h : d ∈ hexDigitChars) : Text.isBlank d = false := by
  have all : ∀ d ∈ hexDigitChars, Text.isBlank d = false := forall_mem_of_all (by decide)
  exact all d h

theorem ascii_of_hex (h : d ∈ hexDigitChars) : d.toNat < 0x80 := by
  have all : ∀ d ∈ hexDigitChars, d.toNat < 0x80 := forall_mem_of_all (by decide)
  exact all d h

theorem hexDigit?_of_high (high : 0x80 ≤ d.toNat) : hexDigit? d = none := by
  have behind {last : Char} (small : last.toNat < 0x80) : ¬ d ≤ last := by
    intro below
    have : d.toNat ≤ last.toNat := below
    omega
  simp [hexDigit?, behind (show '9'.toNat < 0x80 by decide),
    behind (show 'f'.toNat < 0x80 by decide), behind (show 'F'.toNat < 0x80 by decide)]

theorem isSome_hexDigit?_iff : (hexDigit? d).isSome = true ↔ d ∈ hexDigitChars := by
  constructor
  · intro read
    have ascii : d.toNat < 0x80 := by
      by_contra high
      rw [hexDigit?_of_high (Nat.le_of_not_lt high)] at read
      cases read
    have all : ∀ n < 0x80, (hexDigit? (Char.ofNat n)).isSome = true →
        Char.ofNat n ∈ hexDigitChars := by decide
    rw [← Char.ofNat_toNat d] at read ⊢
    exact all d.toNat ascii read
  · intro h
    obtain ⟨b, read, -⟩ := exists_value_of_hex h
    rw [read, Option.isSome_some]

/-- The byte that two digits spell is written as these digits in lower case. -/
theorem exists_byte_of_hex {e : Char} (hd : d ∈ hexDigitChars) (he : e ∈ hexDigitChars) :
    ∃ high low, hexDigit? d = some high ∧ hexDigit? e = some low ∧
      hexByte (high * 16 + low) = [d.toLower, e.toLower] := by
  obtain ⟨high, readHigh, smallHigh, lowerHigh⟩ := exists_value_of_hex hd
  obtain ⟨low, readLow, smallLow, lowerLow⟩ := exists_value_of_hex he
  have number : (high * 16 + low).toNat = high.toNat * 16 + low.toNat := by
    rw [UInt8.toNat_add, UInt8.toNat_mul]
    change (high.toNat * 16 % 256 + low.toNat) % 256 = high.toNat * 16 + low.toNat
    omega
  have first : (high.toNat * 16 + low.toNat) / 16 = high.toNat := by omega
  have second : (high.toNat * 16 + low.toNat) % 16 = low.toNat := by omega
  refine ⟨high, low, readHigh, readLow, ?_⟩
  rw [hexByte, number, first, second, lowerHigh, lowerLow]

/-- The byte that a digit spells twice. -/
theorem double_digit (b : UInt8) : b * 17 = b * 16 + b := by
  rw [show (17 : UInt8) = 16 + 1 from rfl, UInt8.mul_add, UInt8.mul_one]

end Digit

section Digits

variable {digits : List Char}

/-- The values of digits, where each of them is one. -/
theorem exists_mapM_hexDigit?_iff :
    (∃ values, digits.mapM hexDigit? = some values) ↔ ∀ d ∈ digits, d ∈ hexDigitChars := by
  rw [exists_mapM_eq_some_iff]
  simp only [← Option.isSome_iff_exists, isSome_hexDigit?_iff]

theorem Rgb.of_ofHexDigits? {t : Rgb} (read : Rgb.ofHexDigits? digits = some t) :
    (digits.length = 3 ∨ digits.length = 6) ∧ ∀ d ∈ digits, d ∈ hexDigitChars := by
  have of_values {values : List UInt8} (found : digits.mapM hexDigit? = some values) :
      digits.length = values.length ∧ ∀ d ∈ digits, d ∈ hexDigitChars :=
    ⟨(mapM_eq_some_iff.1 found).length_eq, exists_mapM_hexDigit?_iff.1 ⟨values, found⟩⟩
  unfold Rgb.ofHexDigits? at read
  split at read
  · next found => exact ⟨.inl (of_values found).1, (of_values found).2⟩
  · next found => exact ⟨.inr (of_values found).1, (of_values found).2⟩
  · cases read

theorem Rgb.ofHexDigits?_eq_none (broken : ¬ ((digits.length = 3 ∨ digits.length = 6) ∧
    ∀ d ∈ digits, d ∈ hexDigitChars)) : Rgb.ofHexDigits? digits = none := by
  rw [Option.eq_none_iff_forall_ne_some]
  intro t read
  exact broken (Rgb.of_ofHexDigits? read)

/-- Three digits, each written twice. -/
def sixDigits (digits : List Char) : List Char :=
  if digits.length = 3 then digits.flatMap fun d => [d, d] else digits

theorem six_sixDigits (length : digits.length = 3 ∨ digits.length = 6)
    (hex : ∀ d ∈ digits, d ∈ hexDigitChars) :
    (sixDigits digits).length = 6 ∧ ∀ d ∈ sixDigits digits, d ∈ hexDigitChars := by
  unfold sixDigits
  split
  · next three =>
      refine ⟨by simp [three], fun d hd => ?_⟩
      obtain ⟨e, he, hd⟩ := List.mem_flatMap.1 hd
      obtain rfl : d = e := by simpa using hd
      exact hex d he
  · next other => exact ⟨length.resolve_left other, hex⟩

/-- Six digits are read as three bytes, and written for these in lower case. -/
theorem Rgb.exists_ofHexDigits?_of_six (six : digits.length = 6)
    (hex : ∀ d ∈ digits, d ∈ hexDigitChars) :
    ∃ t, Rgb.ofHexDigits? digits = some t ∧ t.hexDigits = digits.map Char.toLower := by
  match digits with
  | [r, r', g, g', b, b'] =>
      simp only [List.forall_mem_cons] at hex
      obtain ⟨hr, hr', hg, hg', hb, hb', -⟩ := hex
      obtain ⟨r₁, r₂, readr, readr', red⟩ := exists_byte_of_hex hr hr'
      obtain ⟨g₁, g₂, readg, readg', green⟩ := exists_byte_of_hex hg hg'
      obtain ⟨b₁, b₂, readb, readb', blue⟩ := exists_byte_of_hex hb hb'
      refine ⟨⟨r₁ * 16 + r₂, g₁ * 16 + g₂, b₁ * 16 + b₂⟩, ?_, ?_⟩
      · simp [Rgb.ofHexDigits?, readr, readr', readg, readg', readb, readb']
      · simp [Rgb.hexDigits, red, green, blue]

/-- Three digits are read as the six that they stand for. -/
theorem Rgb.ofHexDigits?_sixDigits (digits : List Char) :
    Rgb.ofHexDigits? (sixDigits digits) = Rgb.ofHexDigits? digits := by
  unfold sixDigits
  split
  · next three =>
      match digits with
      | [r, g, b] =>
          cases readr : hexDigit? r <;> cases readg : hexDigit? g <;> cases readb : hexDigit? b <;>
            simp [Rgb.ofHexDigits?, readr, readg, readb, double_digit]
  · rfl

end Digits

section Text

variable {text : String} {digits : List Char}

/-- A text that spells a hexadecimal color with these digits. -/
structure SpellsHex (text : String) (digits : List Char) : Prop where
  surrounded : ∃ before sign after, text.toList = before ++ (sign ++ digits ++ after) ∧
    (∀ c ∈ before, Text.isBlank c = true) ∧ (∀ c ∈ after, Text.isBlank c = true) ∧
    (sign = [] ∨ sign = ['#'])
  length : digits.length = 3 ∨ digits.length = 6
  hex : ∀ d ∈ digits, d ∈ hexDigitChars

/-- What is left of a text without its blanks is the digits, behind a number sign or not. -/
theorem exists_sign_of_trim (text : String) : ∃ sign, Text.trim text.toList = sign ++ hexDigitsOf text ∧
    (sign = [] ∨ sign = ['#']) := by
  unfold hexDigitsOf
  split
  · next digits signed => exact ⟨['#'], signed, .inr rfl⟩
  · exact ⟨[], rfl, .inl rfl⟩

theorem hexDigitsOf_of_surrounded {before sign after : List Char}
    (split : text.toList = before ++ (sign ++ digits ++ after))
    (front : ∀ c ∈ before, Text.isBlank c = true) (behind : ∀ c ∈ after, Text.isBlank c = true)
    (signed : sign = [] ∨ sign = ['#']) (hex : ∀ d ∈ digits, d ∈ hexDigitChars) :
    hexDigitsOf text = digits := by
  have solid : ∀ c ∈ sign ++ digits, Text.isBlank c = false := by
    rw [List.forall_mem_append]
    refine ⟨?_, fun d hd => not_blank_of_hex (hex d hd)⟩
    obtain rfl | rfl := signed
    · exact List.forall_mem_nil _
    · exact List.forall_mem_singleton.2 (by decide)
  have trimmed : Text.trim text.toList = sign ++ digits := by
    rw [split, Text.trim_surrounded front behind, Text.trim_of_not_blank solid]
  have unsigned : digits.head? ≠ some '#' := by
    intro first
    exact absurd (hex '#' (List.mem_of_mem_head? first)) (by decide)
  rw [hexDigitsOf, trimmed]
  obtain rfl | rfl := signed
  · split
    · next rest equal =>
        rw [List.nil_append] at equal
        exact absurd (congrArg List.head? equal) unsigned
    · rfl
  · rfl

theorem spellsHex_iff : SpellsHex text digits ↔ hexDigitsOf text = digits ∧
    (digits.length = 3 ∨ digits.length = 6) ∧ ∀ d ∈ digits, d ∈ hexDigitChars := by
  constructor
  · rintro ⟨⟨before, sign, after, split, front, behind, signed⟩, length, hex⟩
    exact ⟨hexDigitsOf_of_surrounded split front behind signed hex, length, hex⟩
  · rintro ⟨rfl, length, hex⟩
    obtain ⟨sign, trimmed, signed⟩ := exists_sign_of_trim text
    obtain ⟨before, after, split, front, behind⟩ := Text.exists_surrounded text.toList
    rw [trimmed] at split
    exact ⟨⟨before, sign, after, split, front, behind, signed⟩, length, hex⟩

end Text

/-- What spells a hexadecimal color is read as one, and as the one that its six digits spell. They
are what is written for it, in lower case. -/
theorem exists_ofHex?_of_spellsHex {text : String} {digits : List Char}
    (spells : SpellsHex text digits) : ∃ t, Color.ofHex? text = some (Color.ofBytes t) ∧
      Rgb.ofHexDigits? (sixDigits digits) = some t ∧
      t.hexDigits = (sixDigits digits).map Char.toLower := by
  obtain ⟨rfl, length, hex⟩ := spellsHex_iff.1 spells
  obtain ⟨six, hexSix⟩ := six_sixDigits length hex
  obtain ⟨t, read, written⟩ := Rgb.exists_ofHexDigits?_of_six six hexSix
  refine ⟨t, ?_, read, written⟩
  rw [Color.ofHex?, ← Rgb.ofHexDigits?_sixDigits, read, Option.map_some]

end Stylesheet
