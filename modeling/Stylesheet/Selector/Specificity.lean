/-!
# Specificity

The specificity of a selector counts its ids, its classes and the like, and its
types and the like. Specificities are ordered by their counts from left to right.
The weight of a specificity is one number: a hundred for every id, ten for every
class, one for every type.

Counts and weights are 32-bit numbers. Where specificities are added and weighed, a
number stays at the greatest value instead of passing it. `saturate` is the only place
where this happens, so every such sum is the least of the true sum and that value. The
parts of one selector are counted before they are cut off in this way, which tells the
counts of a scanner as far as those fit into 32 bits (`Selector.tally`).
-/

namespace Stylesheet

/-- A count that stays at the greatest 32-bit number. -/
def saturate (n : Nat) : UInt32 := UInt32.ofNat (min n (UInt32.size - 1))

theorem toNat_saturate (n : Nat) : (saturate n).toNat = min n (UInt32.size - 1) := by
  rw [saturate, UInt32.toNat_ofNat_of_lt']
  exact Nat.lt_of_le_of_lt (Nat.min_le_right _ _) (by decide)

/-- The rank of a selector, as three counts. -/
structure Specificity where
  ids : UInt32
  classes : UInt32
  types : UInt32
deriving DecidableEq, Repr

namespace Specificity

def zero : Specificity := ⟨0, 0, 0⟩

def addCount (m n : UInt32) : UInt32 := saturate (m.toNat + n.toNat)

def scaleCount (factor : Nat) (n : UInt32) : UInt32 := saturate (factor * n.toNat)

def add (s t : Specificity) : Specificity :=
  ⟨addCount s.ids t.ids, addCount s.classes t.classes, addCount s.types t.types⟩

/-- The weight by which the cascade and the filters compare selectors. -/
def weight (s : Specificity) : UInt32 :=
  addCount (addCount (scaleCount 100 s.ids) (scaleCount 10 s.classes)) s.types

/-- The order of specificities: ids first, then classes, then types. -/
def order (s t : Specificity) : Ordering :=
  (compare s.ids t.ids).then ((compare s.classes t.classes).then (compare s.types t.types))

end Specificity

end Stylesheet
