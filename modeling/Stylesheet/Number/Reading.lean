/-!
# Reading a number

A number is an optional sign followed by the word `inf`, `infinity` or `nan` in
any letter case, or by decimal digits with at most one point among or around them
and an optional exponent. At least one digit is required before the exponent, and
at least one in it. Nothing may surround the number.

The value is the nearest double, also where the digits or the exponent leave its
range: too large a number is infinite, too small a one is zero.
-/

namespace Stylesheet.Number

/-- The double nearest to `coefficient * 10 ^ exponent`. Numbers far out of range
are decided by their order of magnitude, before any power of ten is formed. -/
def nearest (coefficient : Nat) (exponent : Int) : Float :=
  let magnitude := (Nat.toDigits 10 coefficient).length + exponent
  if coefficient = 0 || magnitude < -400 then 0
  else if 400 < magnitude then 1.0 / 0.0
  else Float.ofScientific coefficient (exponent < 0) exponent.natAbs

/-- A sign in front of a text, as whether it is a minus, and what follows it. -/
def splitSign : List Char → Bool × List Char
  | '-' :: cs => (true, cs)
  | '+' :: cs => (false, cs)
  | cs => (false, cs)

/-- The exponent that ends a number, zero when there is none. -/
def readExponent? : List Char → Option Int
  | [] => some 0
  | mark :: cs =>
    let (negative, digits) := splitSign cs
    if (mark = 'e' || mark = 'E') && !digits.isEmpty && digits.all Char.isDigit then
      let value := Nat.ofDigitChars 10 digits 0
      some (if negative then -(value : Int) else value)
    else none

/-- An unsigned number. -/
def readMagnitude? (cs : List Char) : Option Float :=
  let word := String.ofList (cs.map Char.toLower)
  if word = "inf" || word = "infinity" then some (1.0 / 0.0)
  else if word = "nan" then some (0.0 / 0.0)
  else
    let whole := cs.takeWhile Char.isDigit
    let afterWhole := cs.dropWhile Char.isDigit
    let (fraction, rest) :=
      match afterWhole with
      | '.' :: ds => (ds.takeWhile Char.isDigit, ds.dropWhile Char.isDigit)
      | ds => ([], ds)
    if whole.isEmpty && fraction.isEmpty then none
    else (readExponent? rest).map fun exponent =>
      nearest (Nat.ofDigitChars 10 (whole ++ fraction) 0) (exponent - fraction.length)

/-- The double that a text denotes. -/
def read? (text : String) : Option Float :=
  let (negative, magnitude) := splitSign text.toList
  (readMagnitude? magnitude).map fun x => if negative then -x else x

end Stylesheet.Number
