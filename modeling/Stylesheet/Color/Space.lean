import Stylesheet.Number.Binary

/-!
# Color spaces

A color is seen in two spaces: red, green and blue as three bytes, or a hue in
degrees with a saturation and a lightness in percent. The conversions work on
doubles in a fixed order of operations and round every result once, a half going
up, so red, green and blue are always whole and in the range of a byte, and a hue
converted from them is a whole number of degrees below 360.

A number outside the range of its channel is moved to the nearer end, and a value
that is not a number to the lower end. A hue turns round instead.
-/

namespace Stylesheet

/-- The nearest value from `low` to `high`. -/
def clamp (x low high : Float) : Float :=
  if x.isNaN || x < low then low else if high < x then high else x

/-- The whole number nearest to a number that is not negative, a half going up. -/
def nearestWhole (x : Float) : Nat := (x + 0.5).toUInt64.toNat

/-- The byte nearest to a channel from 0 to 255, a half going up. -/
def nearestByte (x : Float) : UInt8 := (clamp x 0 255 + 0.5).toUInt8

/-- The angle turned into the range from 0 to 360. The remainder of a negative
angle is raised by a full turn, which a very small one reaches after rounding. An
angle that is not finite has no direction and counts as 0. -/
def normalizeHue (hue : Float) : Float :=
  if hue.isFinite then
    let r := Number.remainder hue 360
    if r < 0 then r + 360 else r
  else 0

/-- Red, green and blue. -/
structure Rgb where
  red : UInt8
  green : UInt8
  blue : UInt8
deriving DecidableEq, Repr

/-- A hue in degrees, a saturation and a lightness in percent. -/
structure Hsl where
  hue : Float
  saturation : Float
  lightness : Float
deriving BEq

namespace Rgb

def ofNumbers (red green blue : Float) : Rgb :=
  ⟨nearestByte red, nearestByte green, nearestByte blue⟩

/-- Channels from 0 to 255, whole or not, as hue, saturation and lightness. The
hue is measured from the largest channel; a gray has neither hue nor saturation. -/
def hslOfNumbers (red green blue : Float) : Hsl :=
  let r := clamp red 0 255 / 255
  let g := clamp green 0 255 / 255
  let b := clamp blue 0 255 / 255
  let larger (x y : Float) := if x < y then y else x
  let smaller (x y : Float) := if y < x then y else x
  let most := larger (larger r g) b
  let least := smaller (smaller r g) b
  let l := (most + least) / 2
  let lightness := Float.ofNat (nearestWhole (l * 100))
  if most == least then ⟨0, 0, lightness⟩
  else
    let d := most - least
    let s := if l > 0.5 then d / (2 - most - least) else d / (most + least)
    let h :=
      if most == r then (g - b) / d + (if g < b then 6 else 0)
      else if most == g then (b - r) / d + 2
      else (r - g) / d + 4
    ⟨Float.ofNat (nearestWhole (h * 60) % 360), Float.ofNat (nearestWhole (s * 100)), lightness⟩

def toHsl (c : Rgb) : Hsl :=
  hslOfNumbers c.red.toFloat c.green.toFloat c.blue.toFloat

end Rgb

namespace Hsl

/-- Bring the three channels into their ranges. -/
def ofNumbers (hue saturation lightness : Float) : Hsl :=
  ⟨normalizeHue hue, clamp saturation 0 100, clamp lightness 0 100⟩

/-- One channel at the turn `t`, between the levels `p` and `q`: it rises over a
sixth of a turn, stays at the top for a third, and falls over the next sixth. -/
def channelAt (p q t : Float) : Float :=
  let t := if t < 0 then t + 1 else t
  let t := if t > 1 then t - 1 else t
  if t < 1 / 6 then p + (q - p) * 6 * t
  else if t < 1 / 2 then q
  else if t < 2 / 3 then p + (q - p) * (2 / 3 - t) * 6
  else p

def toRgb (c : Hsl) : Rgb :=
  let h := normalizeHue c.hue / 360
  let s := clamp c.saturation 0 100 / 100
  let l := clamp c.lightness 0 100 / 100
  if s == 0 then
    let gray := nearestByte (l * 255)
    ⟨gray, gray, gray⟩
  else
    let q := if l < 0.5 then l * (1 + s) else l + s - l * s
    let p := 2 * l - q
    ⟨nearestByte (channelAt p q (h + 1 / 3) * 255),
      nearestByte (channelAt p q h * 255),
      nearestByte (channelAt p q (h - 1 / 3) * 255)⟩

end Hsl

end Stylesheet
