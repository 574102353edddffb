import Stylesheet.Shorthand.Part

/-!
# Fonts

A font starts with a style, a variant and a weight, each optional, in any order, and
with the last of several in force. Then comes the size, by itself or with a line
height after a slash, and everything after it names the family. The keyword `normal`
in front of the size says nothing.

A font may also be given as one series of layers. Its first layer then holds the
leading values and ends in the first family, and the other layers are the other
families.
-/

namespace Stylesheet.Shorthand.Font

/-- The leading values and the families that follow them, when the families come as
layers. -/
def tokens (vs : List Value) : List Value × List Value :=
  match vs with
  | [.series .comma []] => ([], [])
  | [.series .comma (first :: others)] =>
    let leading := Value.flattenSpaces [first]
    match leading.getLast? with
    | none => ([], [])
    | some family => (leading.dropLast, [.series .comma (family :: others)])
  | _ => (Value.flattenSpaces vs, [])

/-- The values in front of the size. -/
structure Lead where
  style : Option Value
  variant : Option Value
  weight : Option Value

/-- A font taken apart. -/
structure Parts where
  lead : Lead
  size : Value
  lineHeight : Option Value
  family : List Value

/-- The size that a value gives, with the line height after a slash. -/
def size? (v : Value) : Option (Value × Option Value) :=
  match v with
  | .series .slash [size, height] => some (size, some height)
  | .series .. => none
  | _ => if v.isSize || v.isOneOf fontSizeWords then some (v, none) else none

/-- Take the values apart up to the size. -/
def read? (lead : Lead) : List Value → Option Parts
  | [] => none
  | v :: vs =>
    if v.isKeyword "normal" then read? lead vs
    else if v.isOneOf fontStyleWords then read? { lead with style := some v } vs
    else if v.isKeyword "small-caps" then read? { lead with variant := some v } vs
    else if isFontWeight v then read? { lead with weight := some v } vs
    else (size? v).map fun (size, lineHeight) => ⟨lead, size, lineHeight, vs⟩

def normal : Value := .keyword "normal"

/-- The style, the variant, the weight, the size, the line height and the family. -/
def expand? (vs : List Value) : Option (List Value) := do
  let (leading, families) := tokens vs
  let parts ← read? ⟨none, none, none⟩ leading
  let family := parts.family ++ families
  guard (!family.isEmpty)
  return [parts.lead.style.getD normal, parts.lead.variant.getD normal,
    parts.lead.weight.getD normal, parts.size, parts.lineHeight.getD normal, .joinSpaces family]

/-- The size, with the line height unless that is absent or normal. -/
def sizeWithHeight (size : Value) (lineHeight : Option Value) : Value :=
  match lineHeight with
  | some height => if height.isKeyword "normal" then size else .series .slash [size, height]
  | none => size

/-- The shortest values of a font. A size and a family are required, and only the
family may have layers. -/
def compact? (longhands : List (Option Value)) : Option (List Value) :=
  match longhands with
  | [style, variant, weight, some size, lineHeight, some family] =>
    if ([style, variant, weight, lineHeight, some size].filterMap id).any isLayered then none
    else
      let lead := ([style, variant, weight].filterMap id).filter fun v => !v.isKeyword "normal"
      some (lead ++ [sizeWithHeight size lineHeight, family])
  | _ => none

end Stylesheet.Shorthand.Font
