import Stylesheet.Selector.Tally

/-!
# Selectors

A selector keeps its text and the specificity that was found, or given, when it was
made. A list of selectors in front of a block is cut at every comma, and a piece
that is blank names no selector.
-/

namespace Stylesheet

/-- A selector with its specificity, which need not be that of its text. -/
structure Selector where
  text : String
  specificity : Specificity
deriving DecidableEq, Repr

namespace Selector

/-- The selector of a text, without blanks around it. -/
def ofText (text : String) : Selector :=
  let text := String.ofList (Text.trim text.toList)
  ⟨text, .of text⟩

/-- The number by which selectors are compared. -/
def weight (s : Selector) : UInt32 := s.specificity.weight

/-- The selectors in front of a block. -/
def listOfText (text : String) : List Selector :=
  let pieces := (text.toList.splitOn ',').map Text.trim
  (pieces.filter (!·.isEmpty)).map fun piece => ofText (String.ofList piece)

end Selector

end Stylesheet
