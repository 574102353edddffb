import Stylesheet.Number.Shortest

/-!
# Number text

A number is written with its shortest digits in positional notation, whatever its
size: no exponent is ever written, and a whole number has no point. Zero keeps
its sign here; a size drops it before it asks for the text.
-/

namespace Stylesheet.Number

/-- Positional notation. A fraction has at least one digit before its point. -/
def Decimal.text (d : Decimal) : String :=
  let digits := Nat.toDigits 10 d.coefficient
  if 0 ≤ d.exponent then
    String.ofList (digits ++ List.replicate d.exponent.toNat '0')
  else
    let places := (-d.exponent).toNat
    let padded := List.replicate (places + 1 - digits.length) '0' ++ digits
    String.ofList (padded.take (padded.length - places) ++ '.' :: padded.drop (padded.length - places))

/-- The text of a double. -/
def text (x : Float) : String :=
  match Binary.ofFloat? x with
  | some b => (if b.negative then "-" else "") ++ b.shortest.text
  | none => if x.isNaN then "NaN" else if x < 0 then "-inf" else "inf"

end Stylesheet.Number
