import Stylesheet.Value.Series

/-!
# Declarations

A declaration gives values to a property, and may be important. Declarations are
kept in the order in which they were written, and a property may be declared more
than once: which declaration counts is for the cascade to say.

A property name is also a filter. A filter that ends in a hyphen admits every
property that starts with it, any other filter only the property of that name.
-/

namespace Stylesheet

/-- The values given to a property. -/
structure Declaration where
  property : String
  values : List Value
  important : Bool

namespace Declaration

/-- All values as one: the only value as it is, several values as a series joined
by spaces. -/
def value? (d : Declaration) : Option Value :=
  match d.values with
  | [] => none
  | vs => some (.joinSpaces vs)

/-- Whether a filter admits a property. -/
def admits (filter property : String) : Bool :=
  if filter.toList.getLast? = some '-' then filter.toList.isPrefixOf property.toList
  else property = filter

/-- Whether a filter admits the property of a declaration. -/
def matchesFilter (d : Declaration) (filter : String) : Bool := admits filter d.property

def text (d : Declaration) : String :=
  d.property ++ ":" ++ String.join (d.values.map fun v => " " ++ v.text) ++
    (if d.important then " !important" else "") ++ ";"

/-- Declarations one after the other. -/
def listText (ds : List Declaration) : String := String.join (ds.map text)

/-- The declarations that a filter admits. -/
def named (filter : String) (ds : List Declaration) : List Declaration :=
  ds.filter (·.matchesFilter filter)

/-- The declarations that a filter does not admit. -/
def without (filter : String) (ds : List Declaration) : List Declaration :=
  ds.filter (!·.matchesFilter filter)

/-- The last declaration of a property. -/
def last? (property : String) (ds : List Declaration) : Option Declaration :=
  ds.reverse.find? (·.property = property)

end Declaration

end Stylesheet
