import Mathlib
import Stylesheet.Proofs.Color.State

/-!
# Two ways from hue, saturation and lightness

A color can be given by hue, saturation and lightness in two ways: converted at once, or kept as
a literal and converted later. The first way moves the numbers into their ranges, converts them
and rounds what comes out. The second stores the numbers when they are in their ranges, and when
it is converted it reads them and the alpha back, and moves the alpha into its range again.

Both end in the same channels, and both have the digits and the keyword of the literal, whatever
formula converts the numbers and whatever numbers it gives. An alpha that has been moved and
tested passes the same test, and a byte that has been rounded is rounded to itself.
-/

namespace Stylesheet

namespace Keyed

section Formula

variable (formula : Float → Float → Float → Float × Float × Float)

/-- Hue, saturation and lightness, moved into their ranges and converted at once. -/
def ofHslBy (hue saturation lightness : Float) (alpha : Option Float) : Keyed :=
  let (r, g, b) := formula (normalizeHue hue) (clamp saturation 0 100) (clamp lightness 0 100)
  ofRgb r g b alpha

/-- Hue, saturation and lightness, moved into their ranges and kept. -/
def hslLiteral (hue saturation lightness : Float) (alpha : Option Float) : Keyed :=
  ofHsl (normalizeHue hue) (clamp saturation 0 100) (clamp lightness 0 100) alpha

/-- Convert to red, green and blue by a formula. -/
def toRgbBy (k : Keyed) : Keyed :=
  match k.family? with
  | none => k
  | some .rgb => k.dropOpaqueAlpha
  | some .hsl =>
    match k.hueSaturationLightness? with
    | none => k
    | some (h, s, l) =>
      let (r, g, b) := formula h s l
      ofRgb r g b (k.number? .alpha)

def bytesBy? (k : Keyed) : Option Rgb :=
  match k.family? with
  | none => none
  | some .rgb => do
    let (r, g, b) ← k.redGreenBlue?
    return Rgb.ofNumbers r g b
  | some .hsl => do
    let (h, s, l) ← k.hueSaturationLightness?
    let (r, g, b) := formula h s l
    return Rgb.ofNumbers r g b

def hexBy? (k : Keyed) : Option String :=
  if (k.number? .alpha).any (· != 1) then none
  else (k.bytesBy? formula).map fun channels => String.ofList ('#' :: channels.hexDigits)

def keywordBy? (k : Keyed) : Option String :=
  let converted := k.toRgbBy formula
  if (converted.number? .alpha).isSome then none
  else (converted.bytesBy? formula).bind Rgb.keyword?

end Formula

end Keyed

/-- The formula by which colors are converted. -/
def Hsl.formula (hue saturation lightness : Float) : Float × Float × Float :=
  let c := Hsl.toRgb ⟨hue, saturation, lightness⟩
  (c.red.toFloat, c.green.toFloat, c.blue.toFloat)

namespace Keyed

section OwnFormula

variable (k : Keyed)

theorem toRgbBy_formula : k.toRgbBy Hsl.formula = k.toRgb := rfl

theorem bytesBy?_formula : k.bytesBy? Hsl.formula = k.bytes? := rfl

theorem hexBy?_formula : k.hexBy? Hsl.formula = k.hex? := by
  rw [hexBy?, bytesBy?_formula, hex?]

theorem keywordBy?_formula : k.keywordBy? Hsl.formula = k.keyword? := by
  simp only [keywordBy?, toRgbBy_formula, bytesBy?_formula]
  rfl

end OwnFormula

section Constructors

/-- The alpha that is read back is the one that was stored. -/
theorem number?_alpha_ofRgb (red green blue : Float) (alpha : Option Float) :
    (ofRgb red green blue alpha).number? .alpha = Color.storedAlpha alpha := by
  rw [← Color.keyed_ofRgb, Color.number?_alpha_keyed]
  rfl

theorem number?_alpha_hslLiteral (hue saturation lightness : Float) (alpha : Option Float) :
    (hslLiteral hue saturation lightness alpha).number? .alpha = Color.storedAlpha alpha := by
  rw [hslLiteral, ← Color.keyed_hsl_storedAlpha ⟨_, _, _⟩, Color.number?_alpha_keyed]
  rfl

/-- It is stored again as it is. -/
theorem ofRgb_storedAlpha (red green blue : Float) (alpha : Option Float) :
    ofRgb red green blue (Color.storedAlpha alpha) = ofRgb red green blue alpha := by
  rw [← Color.keyed_ofRgb, ← Color.keyed_ofRgb, Color.ofRgb, Color.ofRgb,
    storedAlpha_of_translucent (translucent_storedAlpha alpha)]

theorem dropOpaqueAlpha_ofRgb (red green blue : Float) (alpha : Option Float) :
    (ofRgb red green blue alpha).dropOpaqueAlpha = ofRgb red green blue alpha := by
  have kept : (Color.storedAlpha alpha).any (· ≥ 1) = false := by
    cases stored : Color.storedAlpha alpha with
    | none => rfl
    | some a => simpa using Number.not_le_of_lt (translucent_storedAlpha alpha a stored).2
  rw [dropOpaqueAlpha, number?_alpha_ofRgb, kept, if_neg Bool.false_ne_true]

section Agreement

variable (formula : Float → Float → Float → Float × Float × Float)
  (hue saturation lightness : Float) (alpha : Option Float)

theorem family?_hslLiteral : (hslLiteral hue saturation lightness alpha).family? = some .hsl := rfl

theorem channels_hslLiteral :
    (hslLiteral hue saturation lightness alpha).hueSaturationLightness? =
      some (normalizeHue hue, clamp saturation 0 100, clamp lightness 0 100) := rfl

/-- The literal is converted from what was stored, and that is what is converted at once. -/
theorem toRgbBy_hslLiteral :
    (hslLiteral hue saturation lightness alpha).toRgbBy formula =
      ofHslBy formula hue saturation lightness alpha := by
  simp only [toRgbBy, family?_hslLiteral, channels_hslLiteral, number?_alpha_hslLiteral,
    ofRgb_storedAlpha, ofHslBy]

theorem toRgbBy_ofHslBy :
    (ofHslBy formula hue saturation lightness alpha).toRgbBy formula =
      ofHslBy formula hue saturation lightness alpha :=
  dropOpaqueAlpha_ofRgb ..

/-- The bytes are those of the numbers that the formula gives, rounded once more or not. -/
theorem bytesBy?_ofRgb (red green blue : Float) :
    (ofRgb red green blue alpha).bytesBy? formula = some (Rgb.ofNumbers red green blue) :=
  congrArg some (Rgb.ofNumbers_toFloat (Rgb.ofNumbers red green blue))

theorem bytesBy?_ofHslBy :
    (ofHslBy formula hue saturation lightness alpha).bytesBy? formula =
      (hslLiteral hue saturation lightness alpha).bytesBy? formula := by
  rw [ofHslBy, bytesBy?_ofRgb]
  rfl

theorem hexBy?_ofHslBy :
    (ofHslBy formula hue saturation lightness alpha).hexBy? formula =
      (hslLiteral hue saturation lightness alpha).hexBy? formula := by
  have alphas : (ofHslBy formula hue saturation lightness alpha).number? .alpha =
      (hslLiteral hue saturation lightness alpha).number? .alpha := by
    rw [number?_alpha_hslLiteral]
    exact number?_alpha_ofRgb ..
  rw [hexBy?, hexBy?, alphas, bytesBy?_ofHslBy]

theorem keywordBy?_ofHslBy :
    (ofHslBy formula hue saturation lightness alpha).keywordBy? formula =
      (hslLiteral hue saturation lightness alpha).keywordBy? formula := by
  simp only [keywordBy?, toRgbBy_ofHslBy, toRgbBy_hslLiteral]

end Agreement

end Constructors

end Keyed

namespace Color

variable (hue saturation lightness : Float) (alpha : Option Float)

theorem keyed_ofHslLiteral : (ofHslLiteral hue saturation lightness alpha).keyed =
    Keyed.hslLiteral hue saturation lightness alpha :=
  keyed_hsl_storedAlpha ..

theorem keyed_ofHsl : (ofHsl hue saturation lightness alpha).keyed =
    Keyed.ofHslBy Hsl.formula hue saturation lightness alpha :=
  keyed_rgb_storedAlpha ..

theorem toRgb_ofHslLiteral :
    (ofHslLiteral hue saturation lightness alpha).toRgb = ofHsl hue saturation lightness alpha :=
  congrArg (Color.rgb _) (storedAlpha_of_translucent (translucent_storedAlpha alpha))

/-- Whatever numbers a color is given by and whatever formula converts them: the color that is
converted at once has the channels of the literal after a conversion, and the digits and the
keyword of the literal before it. With a family and the formula that colors have, the two are
the same color, and their channels are the ones that the formula gives. -/
theorem hsl_constructors_agree :
    (∀ formula : Float → Float → Float → Float × Float × Float,
      let direct := Keyed.ofHslBy formula hue saturation lightness alpha
      let literal := Keyed.hslLiteral hue saturation lightness alpha
      direct = literal.toRgbBy formula ∧ direct.hexBy? formula = literal.hexBy? formula ∧
        direct.keywordBy? formula = literal.keywordBy? formula) ∧
    (let direct := ofHsl hue saturation lightness alpha
      let literal := ofHslLiteral hue saturation lightness alpha
      direct = literal.toRgb ∧ direct.hex? = literal.hex? ∧ direct.keyword? = literal.keyword? ∧
        direct.keyed = Keyed.ofHslBy Hsl.formula hue saturation lightness alpha ∧
        literal.keyed = Keyed.hslLiteral hue saturation lightness alpha) := by
  have digits := Keyed.hexBy?_ofHslBy Hsl.formula hue saturation lightness alpha
  have words := Keyed.keywordBy?_ofHslBy Hsl.formula hue saturation lightness alpha
  rw [← keyed_ofHsl, ← keyed_ofHslLiteral] at digits words
  rw [Keyed.hexBy?_formula, Keyed.hexBy?_formula, hex?_keyed, hex?_keyed] at digits
  rw [Keyed.keywordBy?_formula, Keyed.keywordBy?_formula, keyword?_keyed, keyword?_keyed] at words
  constructor
  · intro formula direct literal
    exact ⟨(Keyed.toRgbBy_hslLiteral ..).symm, Keyed.hexBy?_ofHslBy .., Keyed.keywordBy?_ofHslBy ..⟩
  · exact ⟨(toRgb_ofHslLiteral ..).symm, digits, words, keyed_ofHsl .., keyed_ofHslLiteral ..⟩

end Color

end Stylesheet
