import Stylesheet.Shorthand.Background
import Stylesheet.Shorthand.Border
import Stylesheet.Shorthand.Box
import Stylesheet.Shorthand.Font
import Stylesheet.Shorthand.ListStyle
import Stylesheet.Text.Literal

/-!
# Shorthand properties

A shorthand property stands for several longhand properties. How its values are
taken apart and put together depends on its kind; the longhands are listed in the
order in which that kind names their values. The longhands of `border` are
shorthands themselves, so `border` is taken apart first, and it is never put
together.
-/

namespace Stylesheet

namespace Shorthand

/-- How the values of a shorthand are divided among its longhands. -/
inductive Kind where
  | border
  | box
  | font
  | background
  | listStyle
deriving DecidableEq, Repr

/-- The values of the longhands, in their order, or nothing for values that the
kind does not know. -/
def Kind.expand? : Kind → List Value → Option (List Value)
  | .border => Border.expand?
  | .box => Box.expand?
  | .font => Font.expand?
  | .background => Background.expand?
  | .listStyle => ListStyle.expand?

/-- The values of the shorthand, given those of its longhands. -/
def Kind.compact? : Kind → List (Option Value) → Option (List Value)
  | .border => fun _ => none
  | .box => Box.compact?
  | .font => Font.compact?
  | .background => compactPresent?
  | .listStyle => compactPresent?

end Shorthand

/-- A property that stands for several others. -/
structure Shorthand where
  name : String
  longhands : List String
  kind : Shorthand.Kind
deriving DecidableEq, Repr

namespace Shorthand

/-- Whether the shorthand is ever put together from its longhands. -/
def isCompactable (s : Shorthand) : Bool := s.kind ≠ .border

def border : Shorthand := ⟨"border", ["border-width", "border-style", "border-color"], .border⟩

def margin : Shorthand :=
  ⟨"margin", ["margin-top", "margin-right", "margin-bottom", "margin-left"], .box⟩

def padding : Shorthand :=
  ⟨"padding", ["padding-top", "padding-right", "padding-bottom", "padding-left"], .box⟩

def borderWidth : Shorthand :=
  ⟨"border-width",
    ["border-top-width", "border-right-width", "border-bottom-width", "border-left-width"], .box⟩

def borderStyle : Shorthand :=
  ⟨"border-style",
    ["border-top-style", "border-right-style", "border-bottom-style", "border-left-style"], .box⟩

def borderColor : Shorthand :=
  ⟨"border-color",
    ["border-top-color", "border-right-color", "border-bottom-color", "border-left-color"], .box⟩

def font : Shorthand :=
  ⟨"font",
    ["font-style", "font-variant", "font-weight", "font-size", "line-height", "font-family"], .font⟩

def background : Shorthand :=
  ⟨"background",
    ["background-color", "background-image", "background-repeat", "background-position",
      "background-attachment"],
    .background⟩

def listStyle : Shorthand :=
  ⟨"list-style", ["list-style-type", "list-style-position", "list-style-image"], .listStyle⟩

/-- Every shorthand, in the order in which they are taken apart. -/
def registry : List Shorthand :=
  [border, margin, padding, borderWidth, borderStyle, borderColor, font, background, listStyle]

/-- The shorthands that are put together, in the order in which this happens. -/
def compactionOrder : List Shorthand :=
  [background, margin, padding, borderWidth, borderStyle, borderColor, listStyle, font]

def named? (name : String) : Option Shorthand := registry.find? (·.name = name)

/-- The name and the longhands of a shorthand in one line. -/
def summary (s : Shorthand) : String :=
  "Shorthand \x7b name: " ++ Text.literal s.name ++ ", longhands: [" ++
    ", ".intercalate (s.longhands.map Text.literal) ++ "] \x7d"

end Shorthand

end Stylesheet
