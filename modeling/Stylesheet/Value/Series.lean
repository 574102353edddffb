import Stylesheet.Value.Basic

/-!
# Series of values

A series is a list of values with the separator that joins them. Wrapping a value
into a series does not nest a series that already has the wanted separator, so
wrapping twice with one separator is the same as wrapping once.
-/

namespace Stylesheet

/-- Values joined by one separator. -/
structure Series where
  separator : Separator
  items : List Value

namespace Series

def toValue (s : Series) : Value := .series s.separator s.items

def text (s : Series) : String := s.toValue.text

/-- A series that holds `v`, or `v` itself where it is such a series. -/
def wrap (v : Value) (separator : Separator) : Series :=
  match v with
  | .series s items => if s = separator then ⟨s, items⟩ else ⟨separator, [v]⟩
  | _ => ⟨separator, [v]⟩

def push (s : Series) (v : Value) : Series := { s with items := s.items ++ [v] }

end Series

namespace Value

def series? : Value → Option Series
  | .series s items => some ⟨s, items⟩
  | _ => none

/-- Take space-separated series apart into their members, one level deep. -/
def flattenSpaces (vs : List Value) : List Value :=
  vs.flatMap fun
    | .series .space items => items
    | v => [v]

/-- A single value as it is, and any other number of values as a series joined by
spaces. -/
def joinSpaces : List Value → Value
  | [v] => v
  | vs => .series .space vs

end Value

end Stylesheet
