import Stylesheet.Number.Text

/-!
# Sizes

A size is a number with an optional unit. Two spellings of its number exist: an
ordinary size drops the zero in front of the point, while a size that keeps its
form, as the channels of a color do, is written with it. Zero is written `0`
whatever its sign.
-/

namespace Stylesheet

/-- A number with an optional unit. An empty unit is present, and writes nothing. -/
structure Size where
  value : Float
  unit : Option String
  keepsForm : Bool
deriving BEq

namespace Size

/-- An ordinary size. -/
def ofNumber (value : Float) (unit : Option String) : Size := ⟨value, unit, false⟩

def percent (value : Float) : Size := ofNumber value (some "%")

/-- A size whose number is written as it stands. -/
def channel (value : Float) (unit : Option String) : Size := ⟨value, unit, true⟩

def isZero (s : Size) : Bool := s.value == 0

/-- Drop the zero in front of the point, after the sign if there is one. -/
def withoutLeadingZero : List Char → List Char
  | '0' :: '.' :: cs => '.' :: cs
  | '-' :: '0' :: '.' :: cs => '-' :: '.' :: cs
  | cs => cs

def text (s : Size) : String :=
  let number := if s.isZero then "0" else Number.text s.value
  let number :=
    if s.keepsForm then number else String.ofList (withoutLeadingZero number.toList)
  number ++ s.unit.getD ""

end Size

end Stylesheet
