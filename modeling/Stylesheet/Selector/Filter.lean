import Stylesheet.Error
import Stylesheet.Selector.Basic

/-!
# Specificity filters

A filter compares the weight of a selector with a threshold. Its text is an
optional comparison and a threshold in decimal digits, with blanks allowed before,
between and after the two. Without a comparison the weight has to equal the
threshold, and a threshold of 2 ^ 32 or more is refused.
-/

namespace Stylesheet

/-- How a weight is compared with a threshold. -/
inductive Comparison where
  | equal
  | notEqual
  | greater
  | greaterOrEqual
  | less
  | lessOrEqual
deriving DecidableEq, Repr

namespace Comparison

/-- Whether the comparison holds between two numbers. -/
def holds (c : Comparison) (m n : UInt32) : Bool :=
  match c with
  | .equal => m = n
  | .notEqual => m ≠ n
  | .greater => n < m
  | .greaterOrEqual => n ≤ m
  | .less => m < n
  | .lessOrEqual => m ≤ n

def symbol : Comparison → String
  | .equal => "=="
  | .notEqual => "!="
  | .greater => ">"
  | .greaterOrEqual => ">="
  | .less => "<"
  | .lessOrEqual => "<="

/-- The comparison in front of a text and what follows it. A text that starts with
none asks for equality. -/
def read : List Char → Comparison × List Char
  | '=' :: '=' :: cs => (.equal, cs)
  | '!' :: '=' :: cs => (.notEqual, cs)
  | '>' :: '=' :: cs => (.greaterOrEqual, cs)
  | '<' :: '=' :: cs => (.lessOrEqual, cs)
  | '>' :: cs => (.greater, cs)
  | '<' :: cs => (.less, cs)
  | cs => (.equal, cs)

end Comparison

/-- The threshold that a text of digits denotes. -/
def threshold? (digits : List Char) : Option UInt32 :=
  let value := Nat.ofDigitChars 10 digits 0
  if !digits.isEmpty && digits.all Char.isDigit && value < UInt32.size then some (UInt32.ofNat value)
  else none

/-- A condition on the weight of a selector. -/
structure SpecificityFilter where
  comparison : Comparison
  threshold : UInt32
deriving DecidableEq, Repr

namespace SpecificityFilter

/-- The weights equal to a number. -/
def ofWeight (n : UInt32) : SpecificityFilter := ⟨.equal, n⟩

/-- The filter that a text denotes. -/
def read (text : String) : Except Error SpecificityFilter :=
  let (comparison, rest) := Comparison.read (Text.trim text.toList)
  match threshold? (Text.trimStart rest) with
  | some threshold => .ok ⟨comparison, threshold⟩
  | none => .error (.invalidFilter text)

def text (f : SpecificityFilter) : String := f.comparison.symbol ++ " " ++ toString f.threshold.toNat

/-- Whether a weight passes the filter. -/
def admits (f : SpecificityFilter) (weight : UInt32) : Bool :=
  f.comparison.holds weight f.threshold

def accepts (f : SpecificityFilter) (s : Selector) : Bool := f.admits s.weight

end SpecificityFilter

end Stylesheet
