import Stylesheet.Text.Visible

/-!
# Text inside a message

A message shows a text between double quotes so that every character of it can be
told. The quote and the backslash get a backslash, the line break, the carriage
return, the tab and the null character have letters, and a character without a
form of its own is shown by its number in lower-case hexadecimal.
-/

namespace Stylesheet.Text

/-- One character as it appears in a message. -/
def literalChar (c : Char) : List Char :=
  match c with
  | '\x00' => ['\\', '0']
  | '\t' => ['\\', 't']
  | '\n' => ['\\', 'n']
  | '\r' => ['\\', 'r']
  | '"' => ['\\', '"']
  | '\\' => ['\\', '\\']
  | _ =>
    if isFormless c then
      ['\\', 'u', '\x7b'] ++ Nat.toDigits 16 c.toNat ++ ['\x7d']
    else [c]

/-- A text as it appears in a message. -/
def literal (text : String) : String :=
  String.ofList ('"' :: text.toList.flatMap literalChar ++ ['"'])

end Stylesheet.Text
