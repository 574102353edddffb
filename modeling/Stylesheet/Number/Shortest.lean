import Stylesheet.Number.Binary

/-!
# Shortest decimal

The reals that read back as one double form an interval around it. The shortest
decimal of the double is taken from the coarsest decimal grid that meets this
interval: of the double's two neighbours on that grid the nearer one that lies in
the interval, and the upper one when both are equally near.

If any point of a grid lies in the interval, one of the two neighbours does, so
testing the two is enough. All comparisons are made between natural numbers,
after the double and the interval have been brought to a common denominator.
-/

namespace Stylesheet.Number

/-- The decimal `coefficient * 10 ^ exponent`. -/
structure Decimal where
  coefficient : Nat
  exponent : Int
deriving DecidableEq, Repr

/-- A positive double with the bounds of its interval: `value / denominator` is
the double, and the reals between `lower / denominator` and `upper / denominator`
read back as it. The two bounds belong to the interval exactly when the
significand is even. -/
structure Span where
  lower : Nat
  value : Nat
  upper : Nat
  denominator : Nat
  closed : Bool

namespace Span

/-- Half a unit above, and half a unit below, or a quarter where the neighbour
below is nearer. A factor of four keeps all three numerators whole. -/
def ofBinary (b : Binary) : Span :=
  let scale := Nat.pow 2 (b.exponent - 2).toNat
  let m := 4 * b.significand
  { lower := (m - if b.hasNarrowGapBelow then 1 else 2) * scale
    value := m * scale
    upper := (m + 2) * scale
    denominator := Nat.pow 2 (2 - b.exponent).toNat
    closed := b.significand % 2 = 0 }

/-- Whether `n * step`, over the denominator, reads back as the double. -/
def admits (s : Span) (numerator : Nat) : Bool :=
  if s.closed then s.lower ≤ numerator && numerator ≤ s.upper
  else s.lower < numerator && numerator < s.upper

/-- Multiplying every numerator and the denominator leaves the span as it was. -/
def rescale (s : Span) (factor : Nat) : Span :=
  { s with
    lower := s.lower * factor
    value := s.value * factor
    upper := s.upper * factor
    denominator := s.denominator * factor }

/-- The nearer admitted neighbour on the grid of multiples of `10 ^ e`. -/
def onGrid? (s : Span) (e : Int) : Option Decimal :=
  let fine := s.rescale (Nat.pow 10 (-e).toNat)
  let step := s.denominator * Nat.pow 10 e.toNat
  let below := fine.value / step
  let low := below * step
  let high := low + step
  if fine.admits high && (!fine.admits low || high - fine.value ≤ fine.value - low) then
    some ⟨below + 1, e⟩
  else if fine.admits low then some ⟨below, e⟩
  else none

/-- An exponent whose power of ten lies above the double, by at most a factor of
a hundred. -/
def ceilingExponent (s : Span) : Int :=
  let digits (n : Nat) : Int := (Nat.toDigits 10 n).length
  digits s.value - digits s.denominator + 1

/-- Nineteen grids suffice: seventeen digits always tell a double from its
neighbours, and the first digit may stand two places below the ceiling. -/
def shortest (s : Span) : Decimal :=
  ((List.range 19).findSome? fun i : Nat => s.onGrid? (s.ceilingExponent - i)).getD ⟨0, 0⟩

end Span

/-- The shortest decimal of the magnitude of a double; zero is `0`. -/
def Binary.shortest (b : Binary) : Decimal :=
  if b.significand = 0 then ⟨0, 0⟩ else (Span.ofBinary b).shortest

end Stylesheet.Number
