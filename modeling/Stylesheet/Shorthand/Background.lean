import Stylesheet.Shorthand.Part

/-!
# Backgrounds

A background has a color, an image, a repetition, a position and an attachment, in
any order. The position may have several values, which keep their order; every
other part has at most one. A background of several layers is not taken apart, and
layered parts are not put together.
-/

namespace Stylesheet.Shorthand

namespace Background

inductive Part where
  | color
  | image
  | repetition
  | position
  | attachment
deriving DecidableEq, Repr

/-- The part that a value belongs to. The keyword `none` is an image. -/
def part? (v : Value) : Option Part :=
  if v.isSize || v.isOneOf positionWords then some .position
  else if isImage v then some .image
  else if v.isOneOf repeatWords then some .repetition
  else if v.isOneOf attachmentWords then some .attachment
  else if isColor v then some .color
  else none

/-- The upper left corner. -/
def initialPosition : List Value := [.size (.percent 0), .size (.percent 0)]

/-- The position as one value. -/
def position (vs : List Value) : Value :=
  .joinSpaces (if vs.isEmpty then initialPosition else vs)

/-- The color, the image, the repetition, the position and the attachment. -/
def expand? (vs : List Value) : Option (List Value) := do
  let vs := Value.flattenSpaces vs
  guard (allKnown part? vs)
  let color ← single? (.keyword "transparent") (valuesOf part? .color vs)
  let image ← single? (.keyword "none") (valuesOf part? .image vs)
  let repetition ← single? (.keyword "repeat") (valuesOf part? .repetition vs)
  let attachment ← single? (.keyword "scroll") (valuesOf part? .attachment vs)
  return [color, image, repetition, position (valuesOf part? .position vs), attachment]

end Background

/-- The present values in their order, if there are any and none has layers. -/
def compactPresent? (vs : List (Option Value)) : Option (List Value) :=
  let present := vs.filterMap id
  if present.isEmpty || present.any isLayered then none else some present

end Stylesheet.Shorthand
