import Stylesheet.Shorthand.Part

/-!
# List styles

A list style has a type, a marker position and an image, in any order and each at
most once. The keyword `none` may stand for the type or the image: it fills the
type if that is open, then the image, and a `none` with nothing left to fill is
refused.
-/

namespace Stylesheet.Shorthand.ListStyle

inductive Part where
  | absent
  | position
  | image
  | type
deriving DecidableEq, Repr

/-- The part that a value belongs to. -/
def part? (v : Value) : Option Part :=
  if v.isKeyword "none" then some .absent
  else if v.isOneOf markerPositionWords then some .position
  else
    match v with
    | .call .. => some .image
    | .keyword _ | .quoted _ => some .type
    | _ => none

/-- The type, the position and the image. -/
def expand? (vs : List Value) : Option (List Value) := do
  let vs := Value.flattenSpaces vs
  guard (allKnown part? vs)
  let types := valuesOf part? .type vs
  let images := valuesOf part? .image vs
  let nones := (valuesOf part? .absent vs).length
  guard (nones + types.length + images.length ≤ 2)
  let type ← single? (.keyword (if nones = 0 then "disc" else "none")) types
  let position ← single? (.keyword "outside") (valuesOf part? .position vs)
  let image ← single? (.keyword "none") images
  return [type, position, image]

end Stylesheet.Shorthand.ListStyle
