/-!
# Exact contents of a double

A finite double is a sign, a whole significand and a power of two. Decoding it
this way turns questions about its decimal digits, or about its remainder by a
whole number, into questions about natural numbers. Infinities and the
not-a-number values have no such form.
-/

namespace Stylesheet.Number

/-- The double `±significand * 2 ^ exponent`. -/
structure Binary where
  negative : Bool
  significand : Nat
  exponent : Int
deriving DecidableEq, Repr

namespace Binary

/-- The stored fraction occupies the low 52 bits. A normal double has one more
bit on top of it; a subnormal double, and zero, has not. -/
def ofFloat? (x : Float) : Option Binary :=
  let bits := x.toBits.toNat
  let negative := decide (Nat.pow 2 63 ≤ bits)
  let biased : Nat := bits / Nat.pow 2 52 % Nat.pow 2 11
  let fraction : Nat := bits % Nat.pow 2 52
  if biased = Nat.pow 2 11 - 1 then none
  else if biased = 0 then some ⟨negative, fraction, -1074⟩
  else some ⟨negative, Nat.pow 2 52 + fraction, (biased : Int) - 1075⟩

/-- A power of two has a nearer neighbour below it than above it, except at the
bottom of the range, where the spacing does not change. -/
def hasNarrowGapBelow (b : Binary) : Bool :=
  b.significand = Nat.pow 2 52 && b.exponent != -1074

end Binary

/-- The remainder of `x` by a whole number, with the sign of `x`. A value below
the divisor is its own remainder, so only values of at least one unit in the
last place of the divisor's size are divided, and those remainders are exact. -/
def remainder (x : Float) (divisor : Nat) : Float :=
  match Binary.ofFloat? x with
  | none => x
  | some ⟨negative, m, e⟩ =>
    if x.abs < Float.ofNat divisor then x
    else
      let r :=
        if 0 ≤ e then Float.ofNat (m * Nat.pow 2 e.toNat % divisor)
        else
          let unit := Nat.pow 2 (-e).toNat
          Float.ofNat (m % (divisor * unit)) / Float.ofNat unit
      if negative then -r else r

end Stylesheet.Number
