/-!
# Quoted text

A text stands between double quotes. Inside, a backslash goes before every double
quote and every backslash, and before nothing else. A reader that takes the
character after a backslash literally, and stops at the first quote that no
backslash precedes, therefore recovers the text and leaves what follows it.
-/

namespace Stylesheet.Text

/-- The characters that need a backslash between quotes. -/
def needsBackslash (c : Char) : Bool := c = '"' || c = '\\'

def escape : List Char → List Char
  | [] => []
  | c :: cs => if needsBackslash c then '\\' :: c :: escape cs else c :: escape cs

/-- The text between double quotes. -/
def quoted (text : String) : String :=
  String.ofList ('"' :: escape text.toList ++ ['"'])

/-- The rest of a quoted text after its opening quote: the characters it stands
for, and what follows the closing quote. A text that never closes is refused. -/
def readEscaped? : List Char → Option (List Char × List Char)
  | [] => none
  | '"' :: rest => some ([], rest)
  | '\\' :: c :: cs => (readEscaped? cs).map fun (read, rest) => (c :: read, rest)
  | c :: cs => (readEscaped? cs).map fun (read, rest) => (c :: read, rest)

/-- Read one quoted text from the front of `cs`. -/
def readQuoted? : List Char → Option (List Char × List Char)
  | '"' :: cs => readEscaped? cs
  | _ => none

end Stylesheet.Text
