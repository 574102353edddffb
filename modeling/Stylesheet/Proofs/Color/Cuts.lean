import Mathlib
import Stylesheet.Proofs.Color.Keyed
import Stylesheet.Proofs.Color.Spelling
import Stylesheet.Proofs.Selector.Units

/-!
# Cutting hexadecimal digits out of a text

The digits of a color can be cut out of its text by positions that count units, and read as
numbers that have to be bytes. A cut fails if a position is not one between two characters, and
so does a number that is too large, but neither happens: what passes the test of its units has a
character for each of them, and no digit is more than the seventeenth part of a byte.
-/

namespace Stylesheet

/-- A text cut in two where `n` of its units have passed, nothing if that is not between two
characters, or behind the end. -/
def splitUnits? : ℕ → List Char → Option (List Char × List Char)
  | 0, cs => some ([], cs)
  | _ + 1, [] => none
  | n + 1, c :: cs =>
    if c.utf8Size ≤ n + 1 then
      (splitUnits? (n + 1 - c.utf8Size) cs).map fun (front, rest) => (c :: front, rest)
    else none

/-- The characters between two positions of a text that count its units. -/
def cut? (cs : List Char) (start stop : ℕ) : Option (List Char) :=
  if start ≤ stop then do
    let (_, rest) ← splitUnits? start cs
    let (piece, _) ← splitUnits? (stop - start) rest
    return piece
  else none

/-- A number as a byte, nothing if it is none. -/
def byte? (n : ℕ) : Option UInt8 := if n < 256 then some (UInt8.ofNat n) else none

/-- The byte that a text denotes in hexadecimal digits. A plus sign in front of them is allowed,
and there has to be at least one. -/
def readHexByte? (cs : List Char) : Option UInt8 :=
  let digits := match cs with
    | '+' :: digits => digits
    | digits => digits
  if digits.isEmpty then none
  else digits.foldlM (fun b d => do byte? (b.toNat * 16 + (← hexDigit? d).toNat)) 0

/-- The byte between two positions of the digits, times a factor. A step that fails leaves
nothing, and one that refuses the digits leaves nothing in that. -/
def channel? (digits : List Char) (start stop factor : ℕ) : Option (Option UInt8) := do
  let piece ← cut? digits start stop
  match readHexByte? piece with
  | none => return none
  | some b => (byte? (b.toNat * factor)).map some

/-- Three channels of the same width. -/
def channels? (digits : List Char) (width factor : ℕ) : Option (Option Rgb) := do
  let some red ← channel? digits 0 width factor | return none
  let some green ← channel? digits width (2 * width) factor | return none
  let some blue ← channel? digits (2 * width) (3 * width) factor | return none
  return some ⟨red, green, blue⟩

/-- A hexadecimal color, read by cutting its digits out of the text. -/
def cutHex? (text : String) : Option (Option Color) :=
  let digits := hexDigitsOf text
  let units := Selector.textUnits digits
  if units.all (· ∈ hexDigitChars) then do
    let found ←
      if units.length = 3 then channels? digits 1 17
      else if units.length = 6 then channels? digits 2 1
      else some none
    return found.map fun c => Color.ofRgb c.red.toFloat c.green.toFloat c.blue.toFloat none
  else some none

section Cuts

variable {cs : List Char}

theorem splitUnits?_append (before rest : List Char) (ascii : ∀ c ∈ before, c.toNat < 0x80) :
    splitUnits? before.length (before ++ rest) = some (before, rest) := by
  induction before with
  | nil => cases rest <;> rfl
  | cons c before ih =>
      rw [List.forall_mem_cons] at ascii
      have one : c.utf8Size = 1 :=
        Char.utf8Size_eq_one_iff.2 (UInt32.le_iff_toNat_le.2 (Nat.le_of_lt_succ ascii.1))
      rw [List.length_cons, List.cons_append, splitUnits?, one, if_pos (by omega),
        Nat.add_sub_cancel, ih ascii.2]
      rfl

/-- Where every character has one unit, the piece between two positions is there. -/
theorem cut?_append (before piece rest : List Char) (front : ∀ c ∈ before, c.toNat < 0x80)
    (inside : ∀ c ∈ piece, c.toNat < 0x80) :
    cut? (before ++ (piece ++ rest)) before.length (before.length + piece.length) = some piece := by
  rw [cut?, if_pos (Nat.le_add_right _ _), splitUnits?_append _ _ front, Nat.add_sub_cancel_left,
    Option.bind_eq_bind, Option.bind_some]
  dsimp only
  rw [splitUnits?_append _ _ inside]
  rfl

/-- No unit but those of the digits is a digit. -/
theorem all_units_iff : (Selector.textUnits cs).all (· ∈ hexDigitChars) = true ↔
    ∀ d ∈ cs, d ∈ hexDigitChars := by
  rw [List.all_eq_true]
  simp only [decide_eq_true_eq]
  constructor
  · intro units d hd
    obtain ⟨u, hu⟩ := List.exists_mem_of_ne_nil _ (Selector.charUnits_ne_nil d)
    have hex := units u (List.mem_flatMap.2 ⟨d, hd, hu⟩)
    by_cases ascii : d.toNat < 0x80
    · rw [Selector.charUnits_of_ascii ascii, List.mem_singleton] at hu
      rwa [← hu]
    -- a unit of a longer encoding is above every digit
    · have high := Selector.high_of_mem_charUnits (Nat.le_of_not_lt ascii) hu
      have low := ascii_of_hex hex
      omega
  · intro hex
    rwa [Selector.textUnits_of_ascii fun d hd => ascii_of_hex (hex d hd)]

variable {d e : Char} {b high low : UInt8}

theorem byte?_of_lt {n : ℕ} (small : n < 256) : byte? n = some (UInt8.ofNat n) := if_pos small

theorem unsigned_of_hex (hd : d ∈ hexDigitChars) : d ≠ '+' := by
  rintro rfl
  exact absurd hd (by decide)

theorem readHexByte?_singleton (hd : d ∈ hexDigitChars) (read : hexDigit? d = some b) :
    readHexByte? [d] = some b := by
  have small : b.toNat < 256 := b.toNat_lt
  simp [readHexByte?, unsigned_of_hex hd, read, byte?_of_lt small]

theorem readHexByte?_pair (hd : d ∈ hexDigitChars) (first : hexDigit? d = some high)
    (second : hexDigit? e = some low) (small : high.toNat * 16 + low.toNat < 256) :
    readHexByte? [d, e] = some (high * 16 + low) := by
  have alone : high.toNat < 256 := high.toNat_lt
  simp [readHexByte?, unsigned_of_hex hd, first, second, byte?_of_lt alone, byte?_of_lt small]

end Cuts

section Channels

variable {before piece rest : List Char} {b : UInt8} {factor : ℕ}

theorem channel?_append (front : ∀ c ∈ before, c ∈ hexDigitChars)
    (inside : ∀ c ∈ piece, c ∈ hexDigitChars) (read : readHexByte? piece = some b)
    (small : b.toNat * factor < 256) :
    channel? (before ++ (piece ++ rest)) before.length (before.length + piece.length) factor =
      some (some (b * UInt8.ofNat factor)) := by
  rw [channel?, cut?_append before piece rest (fun c hc => ascii_of_hex (front c hc))
    (fun c hc => ascii_of_hex (inside c hc)), Option.bind_eq_bind, Option.bind_some, read]
  simp [byte?_of_lt small]

variable {d e : Char}

/-- A digit spells a channel by itself. -/
theorem exists_channel (front : ∀ c ∈ before, c ∈ hexDigitChars) (hd : d ∈ hexDigitChars) :
    ∃ b, hexDigit? d = some b ∧
      channel? (before ++ (d :: rest)) before.length (before.length + 1) 17 =
        some (some (b * 17)) := by
  obtain ⟨b, read, small, -⟩ := exists_value_of_hex hd
  exact ⟨b, read, channel?_append front (List.forall_mem_singleton.2 hd)
    (readHexByte?_singleton hd read) (by omega)⟩

/-- And two digits do. -/
theorem exists_channel_pair (front : ∀ c ∈ before, c ∈ hexDigitChars) (hd : d ∈ hexDigitChars)
    (he : e ∈ hexDigitChars) :
    ∃ high low, hexDigit? d = some high ∧ hexDigit? e = some low ∧
      channel? (before ++ (d :: e :: rest)) before.length (before.length + 2) 1 =
        some (some (high * 16 + low)) := by
  obtain ⟨high, first, smallHigh, -⟩ := exists_value_of_hex hd
  obtain ⟨low, second, smallLow, -⟩ := exists_value_of_hex he
  have both : ∀ c ∈ [d, e], c ∈ hexDigitChars :=
    List.forall_mem_cons.2 ⟨hd, List.forall_mem_singleton.2 he⟩
  have small : (high * 16 + low).toNat * 1 < 256 := by
    rw [Nat.mul_one]
    exact UInt8.toNat_lt _
  refine ⟨high, low, first, second, ?_⟩
  calc channel? (before ++ (d :: e :: rest)) before.length (before.length + 2) 1
      _ = some (some ((high * 16 + low) * 1)) :=
        channel?_append front both (readHexByte?_pair hd first second (by omega)) small
      _ = some (some (high * 16 + low)) := by rw [UInt8.mul_one]

end Channels

section Hex

variable {digits : List Char} (hex : ∀ d ∈ digits, d ∈ hexDigitChars)

include hex

theorem channels?_three (three : digits.length = 3) :
    channels? digits 1 17 = some (Rgb.ofHexDigits? digits) := by
  match digits with
  | [r, g, b] =>
      simp only [List.forall_mem_cons] at hex
      obtain ⟨hr, hg, hb, -⟩ := hex
      have front : ∀ c ∈ [r, g], c ∈ hexDigitChars :=
        List.forall_mem_cons.2 ⟨hr, List.forall_mem_singleton.2 hg⟩
      obtain ⟨red, readr, first⟩ : ∃ red, hexDigit? r = some red ∧
          channel? [r, g, b] 0 1 17 = some (some (red * 17)) :=
        exists_channel (List.forall_mem_nil _) hr
      obtain ⟨green, readg, second⟩ : ∃ green, hexDigit? g = some green ∧
          channel? [r, g, b] 1 2 17 = some (some (green * 17)) :=
        exists_channel (List.forall_mem_singleton.2 hr) hg
      obtain ⟨blue, readb, third⟩ : ∃ blue, hexDigit? b = some blue ∧
          channel? [r, g, b] 2 3 17 = some (some (blue * 17)) :=
        exists_channel front hb
      simp [channels?, first, second, third, Rgb.ofHexDigits?, readr, readg, readb]

theorem channels?_six (six : digits.length = 6) :
    channels? digits 2 1 = some (Rgb.ofHexDigits? digits) := by
  match digits with
  | [r, r', g, g', b, b'] =>
      simp only [List.forall_mem_cons] at hex
      obtain ⟨hr, hr', hg, hg', hb, hb', -⟩ := hex
      have front : ∀ c ∈ [r, r'], c ∈ hexDigitChars :=
        List.forall_mem_cons.2 ⟨hr, List.forall_mem_singleton.2 hr'⟩
      have between : ∀ c ∈ [r, r', g, g'], c ∈ hexDigitChars :=
        List.forall_mem_append.2
          ⟨front, List.forall_mem_cons.2 ⟨hg, List.forall_mem_singleton.2 hg'⟩⟩
      obtain ⟨r₁, r₂, readr, readr', first⟩ : ∃ high low, hexDigit? r = some high ∧
          hexDigit? r' = some low ∧
          channel? [r, r', g, g', b, b'] 0 2 1 = some (some (high * 16 + low)) :=
        exists_channel_pair (List.forall_mem_nil _) hr hr'
      obtain ⟨g₁, g₂, readg, readg', second⟩ : ∃ high low, hexDigit? g = some high ∧
          hexDigit? g' = some low ∧
          channel? [r, r', g, g', b, b'] 2 4 1 = some (some (high * 16 + low)) :=
        exists_channel_pair front hg hg'
      obtain ⟨b₁, b₂, readb, readb', third⟩ : ∃ high low, hexDigit? b = some high ∧
          hexDigit? b' = some low ∧
          channel? [r, r', g, g', b, b'] 4 6 1 = some (some (high * 16 + low)) :=
        exists_channel_pair between hb hb'
      simp [channels?, first, second, third, Rgb.ofHexDigits?, readr, readr', readg, readg', readb,
        readb']

end Hex

/-- A color of three bytes is what they are rounded to. -/
theorem Color.ofRgb_toFloat (c : Rgb) :
    ofRgb c.red.toFloat c.green.toFloat c.blue.toFloat none = ofBytes c := by
  rw [ofRgb, Rgb.ofNumbers_toFloat]
  rfl

/-- No cut and no product fails, and what they come to is what the digits are read as. -/
theorem cutHex?_eq (text : String) : cutHex? text = some (Color.ofHex? text) := by
  simp only [cutHex?, Color.ofRgb_toFloat, Color.ofHex?]
  by_cases hex : ∀ d ∈ hexDigitsOf text, d ∈ hexDigitChars
  · have ascii := Selector.textUnits_of_ascii fun d hd => ascii_of_hex (hex d hd)
    rw [if_pos (all_units_iff.2 hex), ascii]
    split
    · next three => rw [channels?_three hex three]; rfl
    · next other =>
        split
        · next six => rw [channels?_six hex six]; rfl
        · next neither =>
            rw [Rgb.ofHexDigits?_eq_none fun spelled => spelled.1.elim other neither]
            rfl
  · rw [if_neg (all_units_iff.not.2 hex), Rgb.ofHexDigits?_eq_none fun spelled => hex spelled.2]
    rfl

/-- Cutting digits out of a text never fails, whatever the text is, and gives the color that is
read. A color is read exactly from the texts that spell one. It is the color that the digits
spell when each of three is written twice, and with a number sign in front of them these are, in
lower case, its hexadecimal text, also when that is made from the channels alone. -/
theorem hex_color_spelled (text : String) :
    cutHex? text = some (Color.ofHex? text) ∧
    ((∃ color, Color.ofHex? text = some color) ↔ ∃ digits, SpellsHex text digits) ∧
    ∀ digits, SpellsHex text digits →
      let six := String.ofList ('#' :: sixDigits digits)
      ∃ color, Color.ofHex? text = some color ∧ Color.ofHex? six = some color ∧
        color.hex? = some (Text.lower six) ∧ color.keyed.hex? = color.hex? := by
  refine ⟨cutHex?_eq text, ⟨?_, ?_⟩, ?_⟩
  · rintro ⟨color, read⟩
    obtain ⟨t, read, -⟩ := Option.map_eq_some_iff.1 read
    exact ⟨hexDigitsOf text, spellsHex_iff.2 ⟨rfl, Rgb.of_ofHexDigits? read⟩⟩
  · rintro ⟨digits, spells⟩
    obtain ⟨t, read, -⟩ := exists_ofHex?_of_spellsHex spells
    exact ⟨_, read⟩
  · intro digits spells six
    obtain ⟨t, read, bytes, written⟩ := exists_ofHex?_of_spellsHex spells
    have solo : SpellsHex six (sixDigits digits) := by
      have fits := six_sixDigits spells.length spells.hex
      exact ⟨⟨[], ['#'], [], by simp [six], by simp, by simp, .inr rfl⟩, .inr fits.1, fits.2⟩
    refine ⟨Color.ofBytes t, read, ?_, ?_, Color.hex?_keyed _⟩
    · rw [Color.ofHex?, (spellsHex_iff.1 solo).1, bytes, Option.map_some]
    · rw [Text.lower, String.toList_ofList, List.map_cons, ← written]
      rfl

/-- Three digits in mixed letter case, with blanks around them. -/
theorem short_color_spelled :
    SpellsHex "\u00a0#aBc\n" ['a', 'B', 'c'] ∧ ∃ color, Color.ofHex? "\u00a0#aBc\n" = some color ∧
      Color.ofHex? "#aaBBcc" = some color ∧ color.hex? = some "#aabbcc" := by
  have spells : SpellsHex "\u00a0#aBc\n" ['a', 'B', 'c'] :=
    spellsHex_iff.2 ⟨by decide_cbv, .inl rfl, forall_mem_of_all (by decide)⟩
  have six : String.ofList ('#' :: sixDigits ['a', 'B', 'c']) = "#aaBBcc" := by decide_cbv
  have lower : Text.lower "#aaBBcc" = "#aabbcc" := by decide_cbv
  obtain ⟨color, read, same, written, -⟩ := (hex_color_spelled _).2.2 _ spells
  rw [six] at same written
  rw [lower] at written
  exact ⟨spells, color, read, same, written⟩

end Stylesheet
