import Stylesheet.Color.Basic
import Stylesheet.Text.Blank
import Stylesheet.Text.Quoted

/-!
# Values

The value of a property is a size, a keyword, a quoted text, a series of values
joined by one separator, a function call, or a color. The arguments of a call are
themselves a series, joined by commas unless another separator is chosen.

Values are compared by the numbers they hold: the two zeros are equal, and a value
that is not a number differs from itself.
-/

namespace Stylesheet

/-- What stands between the members of a series. -/
inductive Separator where
  | comma
  | space
  | slash
deriving DecidableEq, Repr

def Separator.text : Separator → String
  | .comma => ","
  | .space => " "
  | .slash => "/"

/-- The value of a property. -/
inductive Value where
  | size (size : Size)
  | keyword (word : String)
  | quoted (content : String)
  | series (separator : Separator) (items : List Value)
  | call (name : String) (separator : Separator) (arguments : List Value)
  | color (color : Color)

namespace Value

mutual

/-- Equality of values, number by number. -/
def same : Value → Value → Bool
  | .size a, .size b => a == b
  | .keyword a, .keyword b => a == b
  | .quoted a, .quoted b => a == b
  | .series s xs, .series t ys => decide (s = t) && allSame xs ys
  | .call n s xs, .call m t ys => n == m && decide (s = t) && allSame xs ys
  | .color a, .color b => a == b
  | _, _ => false

/-- Equality of two lists of values, member by member. -/
def allSame : List Value → List Value → Bool
  | [], [] => true
  | x :: xs, y :: ys => same x y && allSame xs ys
  | _, _ => false

end

instance : BEq Value := ⟨same⟩

mutual

def text : Value → String
  | .size s => s.text
  | .keyword w => w
  | .quoted t => Text.quoted t
  | .series s items => s.text.intercalate (texts items)
  | .call name s arguments => name ++ "(" ++ s.text.intercalate (texts arguments) ++ ")"
  | .color c => c.text

/-- The text of each member of a list. -/
def texts : List Value → List String
  | [] => []
  | v :: vs => v.text :: texts vs

end

theorem texts_eq_map (vs : List Value) : texts vs = vs.map text := by
  induction vs with
  | nil => rfl
  | cons v vs ih => simp [texts, ih]

def keyword? : Value → Option String
  | .keyword w => some w
  | _ => none

def size? : Value → Option Size
  | .size s => some s
  | _ => none

/-- Whether the value is this keyword, up to letter case. -/
def isKeyword (word : String) (v : Value) : Bool := v.keyword?.any (Text.sameWord word)

/-- Whether the value is one of these keywords, up to letter case. -/
def isOneOf (words : List String) (v : Value) : Bool := words.any v.isKeyword

def isSize (v : Value) : Bool := v.size?.isSome

/-- Whether the value is a series with this separator. -/
def isSeriesBy (separator : Separator) : Value → Bool
  | .series s _ => s = separator
  | _ => false

/-- A call of `url` with a quoted address. -/
def url (address : String) : Value := .call "url" .comma [.quoted address]

end Value

end Stylesheet
