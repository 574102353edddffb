import Stylesheet.Color.Basic
import Stylesheet.Text.Blank

/-!
# Hexadecimal colors

A hexadecimal color has three or six digits after an optional number sign, with
blanks allowed around the whole. A single digit stands for the same digit twice.
A color is written with six digits in lower case, and only if it is opaque.
-/

namespace Stylesheet

def hexDigit? (c : Char) : Option UInt8 :=
  if '0' ≤ c && c ≤ '9' then some (c.toNat - '0'.toNat).toUInt8
  else if 'a' ≤ c && c ≤ 'f' then some (c.toNat - 'a'.toNat + 10).toUInt8
  else if 'A' ≤ c && c ≤ 'F' then some (c.toNat - 'A'.toNat + 10).toUInt8
  else none

/-- The two digits of a byte, the high one first. -/
def hexByte (b : UInt8) : List Char :=
  [Nat.digitChar (b.toNat / 16), Nat.digitChar (b.toNat % 16)]

namespace Rgb

/-- Three or six digits as three bytes. -/
def ofHexDigits? (digits : List Char) : Option Rgb :=
  match digits.mapM hexDigit? with
  | some [r, g, b] => some ⟨r * 17, g * 17, b * 17⟩
  | some [r, r', g, g', b, b'] => some ⟨r * 16 + r', g * 16 + g', b * 16 + b'⟩
  | _ => none

/-- Six digits in lower case. -/
def hexDigits (c : Rgb) : List Char :=
  hexByte c.red ++ hexByte c.green ++ hexByte c.blue

end Rgb

/-- The digits of a hexadecimal color: its text without blanks around it, and
without one number sign in front. -/
def hexDigitsOf (text : String) : List Char :=
  match Text.trim text.toList with
  | '#' :: digits => digits
  | digits => digits

namespace Color

def ofHex? (text : String) : Option Color :=
  (Rgb.ofHexDigits? (hexDigitsOf text)).map ofBytes

/-- The hexadecimal text of an opaque color. -/
def hex? (c : Color) : Option String :=
  if c.alpha?.any (· != 1) then none
  else c.bytes?.map fun channels => String.ofList ('#' :: channels.hexDigits)

end Color

end Stylesheet
