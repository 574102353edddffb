import Stylesheet.Color.Named
import Stylesheet.Value.Series

/-!
# Words of the shorthand properties

The parts of a shorthand are told apart by the kind of each value alone: a size, a
color, an image, or one of the keywords that belong to a part. Keywords are
compared up to letter case.
-/

namespace Stylesheet.Shorthand

/-- The keywords that may stand alone as the value of every property. -/
def globalWords : List String := ["inherit", "initial", "unset"]

def borderStyleWords : List String :=
  ["none", "hidden", "dotted", "dashed", "solid", "double", "groove", "ridge", "inset", "outset"]

def borderWidthWords : List String := ["thin", "medium", "thick"]

def repeatWords : List String :=
  ["repeat", "repeat-x", "repeat-y", "no-repeat", "space", "round"]

def attachmentWords : List String := ["scroll", "fixed", "local"]

def positionWords : List String := ["left", "right", "top", "bottom", "center"]

def fontStyleWords : List String := ["italic", "oblique"]

def fontWeightWords : List String := ["bold", "bolder", "lighter"]

def fontSizeWords : List String :=
  ["xx-small", "x-small", "small", "medium", "large", "x-large", "xx-large", "smaller", "larger"]

def markerPositionWords : List String := ["inside", "outside"]

def isGlobal (v : Value) : Bool := v.isOneOf globalWords

/-- Whether a value is a color or the keyword of one. -/
def isColor (v : Value) : Bool :=
  match v with
  | .color _ => true
  | .keyword w => v.isOneOf ["transparent", "currentcolor"] || (Color.ofKeyword? w).isSome
  | _ => false

/-- Whether a value is an address, a gradient, or the keyword `none`. -/
def isImage (v : Value) : Bool :=
  match v with
  | .call name _ _ =>
    let name := Text.lower name
    name = "url" || "gradient".toList.isSuffixOf name.toList
  | _ => v.isKeyword "none"

/-- Whether a value is a font weight: one of the nine hundreds, without a unit, or a
keyword. -/
def isFontWeight (v : Value) : Bool :=
  match v with
  | .size s =>
    s.unit.isNone && [100, 200, 300, 400, 500, 600, 700, 800, 900].any (s.value == ·)
  | _ => v.isOneOf fontWeightWords

/-- Whether a value is a series of layers. -/
def isLayered (v : Value) : Bool := v.isSeriesBy .comma

end Stylesheet.Shorthand
