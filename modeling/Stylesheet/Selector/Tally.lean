import Stylesheet.Selector.Group
import Stylesheet.Selector.Specificity
import Stylesheet.Text.Blank

/-!
# Counting the parts of a selector

The specificity of a selector text is found by one pass over its UTF-8 code units,
each seen as the character of its number. A unit from U+0080 on is part of some
character outside ASCII and always belongs to a name.

An id, a class, an attribute, a pseudo-class, a type and a pseudo-element each
count once. `:not`, `:is` and `:has` count as the greatest of their arguments, and
`:where` counts nothing. Combinators, blanks, the universal selector and whatever
else is unknown are passed over.

A tally counts with natural numbers, and `toSpecificity` cuts them off in the end. A
scanner that adds one to a 32-bit number for every part cuts nothing off: it finds the
same counts as long as they fit into 32 bits. No text has more parts than units, so
they fit for every text of fewer than 2³² units. What such a scanner finds in a longer
text is not said here.
-/

namespace Stylesheet.Selector

/-- The number of parts of each rank. -/
structure Tally where
  ids : Nat
  classes : Nat
  types : Nat
deriving DecidableEq, Repr

namespace Tally

def zero : Tally := ⟨0, 0, 0⟩
def oneId : Tally := ⟨1, 0, 0⟩
def oneClass : Tally := ⟨0, 1, 0⟩
def oneType : Tally := ⟨0, 0, 1⟩

def add (s t : Tally) : Tally := ⟨s.ids + t.ids, s.classes + t.classes, s.types + t.types⟩

instance : Add Tally := ⟨add⟩

/-- Whether `s` comes before `t` when ids, classes and types are compared in turn. -/
def precedes (s t : Tally) : Bool :=
  s.ids < t.ids ||
    (s.ids = t.ids && (s.classes < t.classes || (s.classes = t.classes && s.types < t.types)))

def max (s t : Tally) : Tally := if s.precedes t then t else s

/-- The greatest of several tallies, zero when there is none. -/
def greatest (ts : List Tally) : Tally := ts.foldl max zero

/-- The tally as a specificity. -/
def toSpecificity (t : Tally) : Specificity :=
  ⟨saturate t.ids, saturate t.classes, saturate t.types⟩

end Tally

/-- The UTF-8 code units of a text. -/
def units (text : String) : List Char :=
  text.toList.flatMap fun c => (String.utf8EncodeChar c).map fun unit => Char.ofNat unit.toNat

/-- The units of a name. A backslash belongs to the name, the unit after it only if
it is a name unit itself. -/
def isNameUnit (c : Char) : Bool :=
  c.isAlphanum || c = '-' || c = '_' || c = '\\' || 0x80 ≤ c.toNat

/-- The units that start a type. -/
def isTypeStart (c : Char) : Bool := c.isAlpha || c = '_' || 0x80 ≤ c.toNat

/-- What a colon introduces. -/
inductive Pseudo where
  /-- A pseudo-element. -/
  | element
  /-- An ordinary pseudo-class. -/
  | ordinary
  /-- `:where`, which has no weight. -/
  | weightless
  /-- A pseudo-class that stands for one of its arguments. -/
  | oneOf (arguments : List (List Char))
deriving DecidableEq, Repr

/-- The pseudo-elements that may be written with one colon. -/
def singleColonElements : List String := ["before", "after", "first-line", "first-letter"]

/-- The pseudo-classes that stand for one of their arguments. -/
def transparentClasses : List String := ["not", "is", "has"]

/-- The units after a colon, without the second colon of a pseudo-element. -/
def pseudoName (cs : List Char) : List Char :=
  match cs with
  | ':' :: name => name
  | name => name

/-- What the units after a colon introduce. -/
def pseudo (cs : List Char) : Pseudo :=
  let name := Text.lower (String.ofList ((pseudoName cs).takeWhile isNameUnit))
  let rest := (pseudoName cs).dropWhile isNameUnit
  if cs.head? = some ':' || name ∈ singleColonElements then .element
  else if name = "where" then .weightless
  else
    match rest with
    | '(' :: body =>
      if name ∈ transparentClasses then .oneOf (alternatives (argument body)) else .ordinary
    | _ => .ordinary

/-- What follows a pseudo-class or a pseudo-element and its arguments. -/
def afterPseudo (cs : List Char) : List Char :=
  match (pseudoName cs).dropWhile isNameUnit with
  | '(' :: body => afterGroup '(' ')' body
  | rest => rest

theorem length_dropWhile_le (p : Char → Bool) (cs : List Char) :
    (cs.dropWhile p).length ≤ cs.length :=
  (List.dropWhile_suffix p).length_le

theorem length_pseudoName_le (cs : List Char) : (pseudoName cs).length ≤ cs.length := by
  unfold pseudoName
  split <;> simp

theorem length_afterPseudo_le (cs : List Char) : (afterPseudo cs).length ≤ cs.length := by
  have name := length_pseudoName_le cs
  have drop := length_dropWhile_le isNameUnit (pseudoName cs)
  unfold afterPseudo
  split
  · next body h =>
    have := length_afterGroup_le '(' ')' body
    simp only [h, List.length_cons] at drop
    omega
  · omega

theorem length_le_of_mem_pseudo {cs piece : List Char} {arguments : List (List Char)}
    (h : pseudo cs = .oneOf arguments) (mem : piece ∈ arguments) :
    piece.length ≤ cs.length := by
  have name := length_pseudoName_le cs
  have drop := length_dropWhile_le isNameUnit (pseudoName cs)
  simp only [pseudo] at h
  split at h
  · cases h
  · split at h
    · cases h
    · split at h
      · next body hbody =>
        split at h
        · cases h
          have := length_le_of_mem_alternatives mem
          have := length_argument_le body
          simp only [hbody, List.length_cons] at drop
          omega
        · cases h
      · cases h

/-- The tally of a selector. -/
def tally : List Char → Tally
  | [] => .zero
  | c :: cs =>
    if c = '#' then .oneId + tally (cs.dropWhile isNameUnit)
    else if c = '.' then .oneClass + tally (cs.dropWhile isNameUnit)
    else if c = '[' then .oneClass + tally (afterGroup '[' ']' cs)
    else if c = ':' then
      match _h : pseudo cs with
      | .element => .oneType + tally (afterPseudo cs)
      | .ordinary => .oneClass + tally (afterPseudo cs)
      | .weightless => tally (afterPseudo cs)
      | .oneOf arguments =>
        .greatest (arguments.attach.map fun ⟨piece, _⟩ => tally piece) + tally (afterPseudo cs)
    else if isTypeStart c then .oneType + tally (cs.dropWhile isNameUnit)
    else tally cs
termination_by cs => cs.length
decreasing_by
  all_goals simp only [List.length_cons]
  · have := length_dropWhile_le isNameUnit cs
    omega
  · have := length_dropWhile_le isNameUnit cs
    omega
  · have := length_afterGroup_le '[' ']' cs
    omega
  · have := length_afterPseudo_le cs
    omega
  · have := length_afterPseudo_le cs
    omega
  · have := length_afterPseudo_le cs
    omega
  · next mem =>
    have := length_le_of_mem_pseudo _h mem
    omega
  · have := length_afterPseudo_le cs
    omega
  · have := length_dropWhile_le isNameUnit cs
    omega
  · omega

end Stylesheet.Selector

namespace Stylesheet

/-- The specificity of one selector. -/
def Specificity.of (text : String) : Specificity :=
  (Selector.tally (Selector.units text)).toSpecificity

end Stylesheet
