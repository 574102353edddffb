import Stylesheet.Shorthand.Words

/-!
# Parts of a shorthand

A shorthand whose parts may come in any order is read by sorting its values by
part. Every value has to belong to a part, and a part that holds one value takes
that value, or its initial value when there is none.
-/

namespace Stylesheet.Shorthand

/-- The values that belong to one part, in their order. -/
def valuesOf {κ : Type} [DecidableEq κ] (part? : Value → Option κ) (part : κ)
    (vs : List Value) : List Value :=
  vs.filter fun v => part? v = some part

/-- Whether every value belongs to a part. -/
def allKnown {κ : Type} (part? : Value → Option κ) (vs : List Value) : Bool :=
  vs.all fun v => (part? v).isSome

/-- The only value, or the initial value when there is none. Two values are
refused. -/
def single? (initial : Value) : List Value → Option Value
  | [] => some initial
  | [v] => some v
  | _ => none

end Stylesheet.Shorthand
