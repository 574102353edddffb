import Stylesheet.Color.Space
import Stylesheet.Value.Size

/-!
# Colors

A color is empty, or has channels in one of two families, with an optional alpha.
The channels are written as sizes that keep their form, and the name of the color
function is read off the keys of the channels in their order, so it is never
stored. An alpha is stored only for a translucent color: the constructors and the
conversions drop an alpha of one.
-/

namespace Stylesheet

/-- One of the numbers that make up a color. -/
inductive Channel where
  | red
  | green
  | blue
  | hue
  | saturation
  | lightness
  | alpha
deriving DecidableEq, Repr

/-- The letter that stands for a channel in the name of a color function. -/
def Channel.key : Channel → Char
  | .red => 'r'
  | .green => 'g'
  | .blue => 'b'
  | .hue => 'h'
  | .saturation => 's'
  | .lightness => 'l'
  | .alpha => 'a'

/-- The space in which a color is stored. -/
inductive Family where
  | rgb
  | hsl
deriving DecidableEq, Repr

/-- A color, as it is stored. -/
inductive Color where
  | empty
  | rgb (channels : Rgb) (alpha : Option Float)
  | hsl (channels : Hsl) (alpha : Option Float)

namespace Color

/-- Colors are equal when they have equal numbers in the same channels. -/
def same : Color → Color → Bool
  | .empty, .empty => true
  | .rgb c a, .rgb d b => decide (c = d) && a == b
  | .hsl c a, .hsl d b => c == d && a == b
  | _, _ => false

instance : BEq Color := ⟨same⟩

/-- The alpha a color stores: moved into the range from 0 to 1, and dropped when
that makes it opaque. -/
def storedAlpha (alpha : Option Float) : Option Float :=
  (alpha.map (clamp · 0 1)).filter (· != 1)

/-- Channels from 0 to 255, moved into that range and rounded. -/
def ofRgb (red green blue : Float) (alpha : Option Float) : Color :=
  .rgb (Rgb.ofNumbers red green blue) (storedAlpha alpha)

/-- Hue, saturation and lightness, kept as they are. -/
def ofHslLiteral (hue saturation lightness : Float) (alpha : Option Float) : Color :=
  .hsl (Hsl.ofNumbers hue saturation lightness) (storedAlpha alpha)

/-- Hue, saturation and lightness, stored as red, green and blue. -/
def ofHsl (hue saturation lightness : Float) (alpha : Option Float) : Color :=
  .rgb (Hsl.ofNumbers hue saturation lightness).toRgb (storedAlpha alpha)

/-- An opaque color from three bytes. -/
def ofBytes (channels : Rgb) : Color := .rgb channels none

/-- Numbers by channel key. Complete red, green and blue channels win over
complete hue, saturation and lightness ones. Of two numbers with one key the
first counts. -/
def ofKeys? (entries : List (Char × Float)) : Option Color :=
  let rgb := do
    return ofRgb (← entries.lookup 'r') (← entries.lookup 'g') (← entries.lookup 'b')
      (entries.lookup 'a')
  let hsl := do
    return ofHsl (← entries.lookup 'h') (← entries.lookup 's') (← entries.lookup 'l')
      (entries.lookup 'a')
  rgb <|> hsl

def alpha? : Color → Option Float
  | .empty => none
  | .rgb _ a => a
  | .hsl _ a => a

def family? : Color → Option Family
  | .empty => none
  | .rgb .. => some .rgb
  | .hsl .. => some .hsl

def alphaChannel (alpha : Option Float) : List (Channel × Size) :=
  (alpha.map fun a => (.alpha, Size.channel a none)).toList

/-- The stored channels in their order. -/
def channels : Color → List (Channel × Size)
  | .empty => []
  | .rgb c a =>
    [(.red, .channel c.red.toFloat none), (.green, .channel c.green.toFloat none),
      (.blue, .channel c.blue.toFloat none)] ++ alphaChannel a
  | .hsl c a =>
    [(.hue, .channel c.hue none), (.saturation, .channel c.saturation (some "%")),
      (.lightness, .channel c.lightness (some "%"))] ++ alphaChannel a

/-- The name of the color function. -/
def name (c : Color) : String := String.ofList (c.channels.map fun (channel, _) => channel.key)

/-- The sizes of the channels in their order. -/
def components (c : Color) : List Size := c.channels.map Prod.snd

def text (c : Color) : String :=
  c.name ++ "(" ++ ",".intercalate (c.components.map Size.text) ++ ")"

/-- Convert to red, green and blue. A color already there only loses an alpha that
is not below one. -/
def toRgb : Color → Color
  | .empty => .empty
  | .rgb c a => .rgb c (a.filter fun a => !(a ≥ 1))
  | .hsl c a => .rgb c.toRgb (storedAlpha a)

/-- Convert to hue, saturation and lightness. A color already there only loses an
alpha that is not below one. -/
def toHsl : Color → Color
  | .empty => .empty
  | .rgb c a => .hsl c.toHsl (storedAlpha a)
  | .hsl c a => .hsl c (a.filter fun a => !(a ≥ 1))

/-- The three bytes of a color, whatever its alpha. -/
def bytes? : Color → Option Rgb
  | .empty => none
  | .rgb c _ => some c
  | .hsl c _ => some c.toRgb

end Color

end Stylesheet
