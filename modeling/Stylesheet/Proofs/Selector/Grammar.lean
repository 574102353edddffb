import Stylesheet.Proofs.Selector.Nesting
import Stylesheet.Proofs.Selector.Tally

/-!
# A grammar of selectors

A complex selector consists of compounds that are joined by combinators. A compound
starts with a type or the universal selector, or with neither, and goes on with simple
selectors in any number. The arguments of `:is`, `:not`, `:has` and `:where` are lists
of complex selectors in turn, nested to any depth, while other arguments and the bodies
of attributes are well-nested texts.

The rank of a selector counts its simple selectors by what they are, not by how they
are written. A choice counts as the greatest of its arguments, when ids, classes and
types are compared in turn.
-/

namespace Stylesheet.Selector

def isNameChar (c : Char) : Bool := c.isAlphanum || c = '-' || c = '_' || 0x80 ≤ c.toNat

def startsName (c : Char) : Bool := c.isAlpha || c = '_' || 0x80 ≤ c.toNat

/-- A name starts with a letter, an underscore or a character outside ASCII, and goes on
with those, digits and hyphens. -/
structure Name where
  first : Char
  others : List Char
  starts : startsName first = true
  continues : others.all isNameChar = true

def Name.text (name : Name) : List Char := name.first :: name.others

/-- The name in lower case. -/
def Name.word (name : Name) : String := Text.lower (String.ofList name.text)

/-- The body of an attribute, or the text in the parentheses of a pseudo-class. -/
structure Body where
  text : List Char
  nested : Nested true text

def Body.argument : Option Body → List Char
  | none => []
  | some body => '(' :: (body.text ++ [')'])

inductive Sign where
  | child
  | next
  | later

def Sign.char : Sign → Char
  | .child => '>'
  | .next => '+'
  | .later => '~'

/-- What joins two compounds: at least one space, or a sign with any number of spaces on
both sides. -/
inductive Combinator where
  | descendant (more : Nat)
  | signed (before : Nat) (sign : Sign) (after : Nat)

def Combinator.text : Combinator → List Char
  | .descendant more => List.replicate (more + 1) ' '
  | .signed before sign after =>
    List.replicate before ' ' ++ sign.char :: List.replicate after ' '

mutual

inductive Simple where
  | id (name : Name)
  | ofClass (name : Name)
  /-- An attribute with its brackets. -/
  | bracketed (body : Body)
  /-- A pseudo-class without an argument, or one of the four old pseudo-elements. -/
  | pseudoClass (name : Name) (ordinary : name.word ∉ ["is", "not", "has", "where"])
  /-- A pseudo-class with an argument that is no list of selectors. -/
  | function (name : Name) (ordinary : name.word ∉ ["is", "not", "has", "where"])
    (newer : name.word ∉ ["before", "after", "first-line", "first-letter"]) (argument : Body)
  | pseudoElement (name : Name) (argument : Option Body)
  | choice (name : Name) (transparent : name.word ∈ ["is", "not", "has"])
    (arguments : Arguments)
  | weightless (name : Name) (named : name.word = "where") (arguments : Arguments)

inductive Compound where
  | empty
  | universal
  | type (name : Name)
  | and (compound : Compound) (simple : Simple)

inductive Complex where
  | compound (compound : Compound)
  | combine (left : Complex) (combinator : Combinator) (right : Compound)

/-- One or more selectors, joined by commas. -/
inductive Arguments where
  | last (selector : Complex)
  | cons (selector : Complex) (others : Arguments)

end

/-! ### Texts -/

mutual

def Simple.text : Simple → List Char
  | .id name => '#' :: name.text
  | .ofClass name => '.' :: name.text
  | .bracketed body => '[' :: (body.text ++ [']'])
  | .pseudoClass name _ => ':' :: name.text
  | .function name _ _ argument => ':' :: (name.text ++ Body.argument (some argument))
  | .pseudoElement name argument => ':' :: ':' :: (name.text ++ Body.argument argument)
  | .choice name _ arguments => ':' :: (name.text ++ '(' :: (arguments.text ++ [')']))
  | .weightless name _ arguments => ':' :: (name.text ++ '(' :: (arguments.text ++ [')']))

def Compound.text : Compound → List Char
  | .empty => []
  | .universal => ['*']
  | .type name => name.text
  | .and compound simple => compound.text ++ simple.text

def Complex.text : Complex → List Char
  | .compound compound => compound.text
  | .combine left combinator right => left.text ++ (combinator.text ++ right.text)

def Arguments.text : Arguments → List Char
  | .last selector => selector.text
  | .cons selector others => selector.text ++ ',' :: others.text

end

/-! ### Ranks -/

mutual

def Simple.rank : Simple → Tally
  | .id _ => ⟨1, 0, 0⟩
  | .ofClass _ => ⟨0, 1, 0⟩
  | .bracketed _ => ⟨0, 1, 0⟩
  | .pseudoClass name _ =>
    if name.word ∈ ["before", "after", "first-line", "first-letter"] then ⟨0, 0, 1⟩ else ⟨0, 1, 0⟩
  | .function .. => ⟨0, 1, 0⟩
  | .pseudoElement .. => ⟨0, 0, 1⟩
  | .choice _ _ arguments => arguments.rank
  | .weightless .. => ⟨0, 0, 0⟩

def Compound.rank : Compound → Tally
  | .empty => ⟨0, 0, 0⟩
  | .universal => ⟨0, 0, 0⟩
  | .type _ => ⟨0, 0, 1⟩
  | .and compound simple => compound.rank + simple.rank

def Complex.rank : Complex → Tally
  | .compound compound => compound.rank
  | .combine left _ right => left.rank + right.rank

/-- The greatest of the ranks. -/
def Arguments.rank : Arguments → Tally
  | .last selector => selector.rank
  | .cons selector others =>
    if selector.rank.lex < others.rank.lex then others.rank else selector.rank

end

end Stylesheet.Selector
