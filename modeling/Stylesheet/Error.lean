import Stylesheet.Text.Literal

/-!
# Errors

Only one request can be malformed: the text of a specificity filter. The error
keeps that text as it was given, blanks included, and its message shows every
character of it.
-/

namespace Stylesheet

/-- Why a request is refused. -/
inductive Error where
  /-- The text is no specificity filter. -/
  | invalidFilter (text : String)
deriving DecidableEq, Repr

def Error.message : Error → String
  | .invalidFilter text => "Invalid specificity filter: " ++ Text.literal text

end Stylesheet
