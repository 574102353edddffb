import Stylesheet.Shorthand.Part

/-!
# Borders

A border has a width, a style and a color, in any order and each at most once.
-/

namespace Stylesheet.Shorthand.Border

inductive Part where
  | width
  | style
  | color
deriving DecidableEq, Repr

/-- The part that a value belongs to. -/
def part? (v : Value) : Option Part :=
  if v.isSize || v.isOneOf borderWidthWords then some .width
  else if v.isOneOf borderStyleWords then some .style
  else if isColor v then some .color
  else none

/-- The width, the style and the color. -/
def expand? (vs : List Value) : Option (List Value) := do
  let vs := Value.flattenSpaces vs
  guard (allKnown part? vs)
  let width ← single? (.keyword "medium") (valuesOf part? .width vs)
  let style ← single? (.keyword "none") (valuesOf part? .style vs)
  let color ← single? (.keyword "currentcolor") (valuesOf part? .color vs)
  return [width, style, color]

end Stylesheet.Shorthand.Border
