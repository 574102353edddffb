import Stylesheet.Shorthand.Part

/-!
# Boxes

A box has four sides, named in the order top, right, bottom, left. One to four
values give them: the left side follows the right one, the bottom the top, and the
right the top, as far as values are missing. Four sides are written back with the
fewest values, and only if no side is itself a series.
-/

namespace Stylesheet.Shorthand.Box

/-- The values of the four sides. -/
def expand? (vs : List Value) : Option (List Value) :=
  match Value.flattenSpaces vs with
  | [a] => some [a, a, a, a]
  | [a, b] => some [a, b, a, b]
  | [a, b, c] => some [a, b, c, b]
  | [a, b, c, d] => some [a, b, c, d]
  | _ => none

/-- The fewest values that give the four sides. -/
def shortest (top right bottom left : Value) : List Value :=
  if right != left then [top, right, bottom, left]
  else if top != bottom then [top, right, bottom]
  else if top != right then [top, right]
  else [top]

def compact? (sides : List (Option Value)) : Option (List Value) :=
  match sides with
  | [some top, some right, some bottom, some left] =>
    if [top, right, bottom, left].any fun v => v.series?.isSome then none
    else some (shortest top right bottom left)
  | _ => none

end Stylesheet.Shorthand.Box
