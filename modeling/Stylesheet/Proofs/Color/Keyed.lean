import Mathlib
import Stylesheet.Color.Named

/-!
# Colors by their channels

A color can be kept as its channels alone, in their order. Nothing else stands beside them:
the family is found again from the letters of the keys whenever it is needed, a number is
read from the first channel with its key, and a conversion that misses a channel leaves
everything as it was. Two tests keep an opaque color without an alpha: a new alpha is left
out if it is one, and an alpha that is there is taken out if it is not below one.

A color with a family does the same. Its readings are the readings of its channels, and the
channels of a converted color are the converted channels. The bytes of a color need no second
rounding for that, since a byte is the byte nearest to it.
-/

namespace Stylesheet

/-- A color kept as its channels in their order. -/
structure Keyed where
  channels : List (Channel × Size)

namespace Keyed

def keys (k : Keyed) : List Channel := k.channels.map Prod.fst

/-- The family whose letters come first. -/
def family? (k : Keyed) : Option Family :=
  if ['r', 'g', 'b'].isPrefixOf (k.keys.map Channel.key) then some .rgb
  else if ['h', 's', 'l'].isPrefixOf (k.keys.map Channel.key) then some .hsl
  else none

/-- The number of the first channel with a key. -/
def number? (k : Keyed) (key : Channel) : Option Float :=
  (k.channels.lookup key).map Size.value

def redGreenBlue? (k : Keyed) : Option (Float × Float × Float) := do
  return (← k.number? .red, ← k.number? .green, ← k.number? .blue)

def hueSaturationLightness? (k : Keyed) : Option (Float × Float × Float) := do
  return (← k.number? .hue, ← k.number? .saturation, ← k.number? .lightness)

/-- An alpha, moved into the range from 0 to 1, is a channel unless that makes it one. -/
def alphaEntry (alpha : Option Float) : List (Channel × Size) :=
  match alpha with
  | none => []
  | some a => if clamp a 0 1 != 1 then [(.alpha, .channel (clamp a 0 1) none)] else []

/-- Channels from 0 to 255, moved into that range and rounded. -/
def ofRgb (red green blue : Float) (alpha : Option Float) : Keyed :=
  ⟨(.red, .channel (nearestByte red).toFloat none) ::
    (.green, .channel (nearestByte green).toFloat none) ::
    (.blue, .channel (nearestByte blue).toFloat none) :: alphaEntry alpha⟩

/-- Hue, saturation and lightness as they are. -/
def ofHsl (hue saturation lightness : Float) (alpha : Option Float) : Keyed :=
  ⟨(.hue, .channel hue none) :: (.saturation, .channel saturation (some "%")) ::
    (.lightness, .channel lightness (some "%")) :: alphaEntry alpha⟩

/-- Take out an alpha that is not below one. -/
def dropOpaqueAlpha (k : Keyed) : Keyed :=
  if (k.number? .alpha).any (· ≥ 1) then ⟨k.channels.filter fun entry => entry.1 != .alpha⟩
  else k

def toRgb (k : Keyed) : Keyed :=
  match k.family? with
  | none => k
  | some .rgb => k.dropOpaqueAlpha
  | some .hsl =>
    match k.hueSaturationLightness? with
    | none => k
    | some (h, s, l) =>
      let c := Hsl.toRgb ⟨h, s, l⟩
      ofRgb c.red.toFloat c.green.toFloat c.blue.toFloat (k.number? .alpha)

def toHsl (k : Keyed) : Keyed :=
  match k.family? with
  | none => k
  | some .hsl => k.dropOpaqueAlpha
  | some .rgb =>
    match k.redGreenBlue? with
    | none => k
    | some (r, g, b) =>
      let c := Rgb.hslOfNumbers r g b
      ofHsl c.hue c.saturation c.lightness (k.number? .alpha)

/-- The three bytes, rounded again from whatever numbers are there. -/
def bytes? (k : Keyed) : Option Rgb :=
  match k.family? with
  | none => none
  | some .rgb => do
    let (r, g, b) ← k.redGreenBlue?
    return Rgb.ofNumbers r g b
  | some .hsl => do
    let (h, s, l) ← k.hueSaturationLightness?
    let c := Hsl.toRgb ⟨h, s, l⟩
    return Rgb.ofNumbers c.red.toFloat c.green.toFloat c.blue.toFloat

/-- Hexadecimal digits, of the bytes in whichever family they are. -/
def hex? (k : Keyed) : Option String :=
  if (k.number? .alpha).any (· != 1) then none
  else k.bytes?.map fun channels => String.ofList ('#' :: channels.hexDigits)

/-- The keyword of the bytes that are there after a conversion. -/
def keyword? (k : Keyed) : Option String :=
  if (k.toRgb.number? .alpha).isSome then none else k.toRgb.bytes?.bind Rgb.keyword?

end Keyed

section Bytes

/-- A byte is the byte nearest to it. -/
theorem nearestByte_toFloat (b : UInt8) : nearestByte b.toFloat = b := by
  have all : ∀ n < 256, nearestByte (UInt8.ofNat n).toFloat = UInt8.ofNat n := by decide +kernel
  simpa using all b.toNat b.toNat_lt

theorem Rgb.ofNumbers_toFloat (c : Rgb) :
    Rgb.ofNumbers c.red.toFloat c.green.toFloat c.blue.toFloat = c := by
  simp only [Rgb.ofNumbers, nearestByte_toFloat]

end Bytes

namespace Color

/-- The channels of a color, without its family. -/
def keyed (c : Color) : Keyed := ⟨c.channels⟩

theorem alphaChannel_storedAlpha (alpha : Option Float) :
    alphaChannel (storedAlpha alpha) = Keyed.alphaEntry alpha := by
  cases alpha with
  | none => rfl
  | some a =>
    by_cases translucent : (clamp a 0 1 != 1) = true
    · simp [alphaChannel, storedAlpha, Keyed.alphaEntry, Option.filter, translucent]
    · simp [alphaChannel, storedAlpha, Keyed.alphaEntry, Option.filter, translucent]

theorem keyed_ofRgb (red green blue : Float) (alpha : Option Float) :
    (ofRgb red green blue alpha).keyed = Keyed.ofRgb red green blue alpha := by
  simp only [keyed, ofRgb, channels, Rgb.ofNumbers, alphaChannel_storedAlpha]
  rfl

theorem keyed_rgb_storedAlpha (c : Rgb) (alpha : Option Float) :
    (Color.rgb c (storedAlpha alpha)).keyed =
      Keyed.ofRgb c.red.toFloat c.green.toFloat c.blue.toFloat alpha := by
  rw [← keyed_ofRgb, ofRgb, Rgb.ofNumbers_toFloat]

theorem keyed_hsl_storedAlpha (c : Hsl) (alpha : Option Float) :
    (Color.hsl c (storedAlpha alpha)).keyed =
      Keyed.ofHsl c.hue c.saturation c.lightness alpha := by
  simp only [keyed, channels, alphaChannel_storedAlpha]
  rfl

section Readings

variable (c : Color)

theorem family?_keyed : c.keyed.family? = c.family? := by
  cases c <;> rfl

theorem number?_alpha_keyed : c.keyed.number? .alpha = c.alpha? := by
  rcases c with _ | ⟨_, _ | _⟩ | ⟨_, _ | _⟩ <;> rfl

theorem bytes?_keyed : c.keyed.bytes? = c.bytes? := by
  cases c with
  | empty => rfl
  | rgb c a => exact congrArg some (Rgb.ofNumbers_toFloat c)
  | hsl c a => exact congrArg some (Rgb.ofNumbers_toFloat c.toRgb)

/-- Rounding the bytes once more changes no digit. -/
theorem hex?_keyed : c.keyed.hex? = c.hex? := by
  rw [Keyed.hex?, number?_alpha_keyed, bytes?_keyed, hex?]

end Readings

section Conversions

theorem dropOpaqueAlpha_append {others : List (Channel × Size)}
    (plain : ∀ entry ∈ others, entry.1 ≠ .alpha) (a : Option Float) :
    (Keyed.mk (others ++ alphaChannel a)).dropOpaqueAlpha =
      ⟨others ++ alphaChannel (a.filter fun a => !(a ≥ 1))⟩ := by
  have found : (Keyed.mk (others ++ alphaChannel a)).number? .alpha = a := by
    have passed : others.lookup .alpha = none := by
      rw [List.lookup_eq_none_iff]
      intro entry h
      simpa using (plain entry h).symm
    rw [Keyed.number?, List.lookup_append, passed, Option.none_or]
    cases a <;> rfl
  have kept : others.filter (fun entry => entry.1 != .alpha) = others :=
    List.filter_eq_self.2 fun entry h => by simpa using plain entry h
  rw [Keyed.dropOpaqueAlpha, found]
  cases a with
  | none => rfl
  | some a =>
    by_cases whole : a ≥ 1
    · simp [whole, kept, alphaChannel, Option.filter]
    · simp [whole, alphaChannel, Option.filter]

theorem keyed_toRgb (c : Color) : c.toRgb.keyed = c.keyed.toRgb := by
  rw [Keyed.toRgb, family?_keyed, number?_alpha_keyed]
  cases c with
  | empty => rfl
  | rgb c a => exact (dropOpaqueAlpha_append (by simp) a).symm
  -- all three channels are there, so the conversion is made
  | hsl c a => exact keyed_rgb_storedAlpha c.toRgb a

theorem keyed_toHsl (c : Color) : c.toHsl.keyed = c.keyed.toHsl := by
  rw [Keyed.toHsl, family?_keyed, number?_alpha_keyed]
  cases c with
  | empty => rfl
  | rgb c a => exact keyed_hsl_storedAlpha c.toHsl a
  | hsl c a => exact (dropOpaqueAlpha_append (by simp) a).symm

theorem keyword?_keyed (c : Color) : c.keyed.keyword? = c.keyword? := by
  rw [Keyed.keyword?, ← keyed_toRgb, number?_alpha_keyed, bytes?_keyed, keyword?]

end Conversions

end Color

end Stylesheet
