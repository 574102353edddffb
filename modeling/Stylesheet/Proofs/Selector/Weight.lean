import Mathlib
import Stylesheet.Proofs.Selector.Tally

/-!
# The weight of a specificity

The weight is put together from saturating products and sums, but it is cut off only once:
it is the exact sum of a hundred for every id, ten for every class and one for every type,
or the greatest 32-bit number. So weights can be added, and more parts never weigh less.

Choices compare their arguments count by count, the cascade and the filters compare weights.
Both orders agree where classes and types are digits and no weight is cut off.
-/

namespace Stylesheet.Specificity

variable {s t : Specificity}

/-- The weight before it is cut off. -/
def exactWeight (s : Specificity) : ℕ := 100 * s.ids.toNat + 10 * s.classes.toNat + s.types.toNat

/-- The counts, in the form in which a choice compares its arguments. -/
def counts (s : Specificity) : Selector.Tally := ⟨s.ids.toNat, s.classes.toNat, s.types.toNat⟩

/-- Whether the weight, not cut off, has the classes and the types for its last two digits. -/
structure HasDigits (s : Specificity) : Prop where
  classes : s.classes ≤ 9
  types : s.types ≤ 9
  fits : s.exactWeight ≤ 2 ^ 32 - 1

/-! ### Cutting off -/

theorem toNat_addCount (m n : UInt32) :
    (addCount m n).toNat = min (m.toNat + n.toNat) (2 ^ 32 - 1) :=
  toNat_saturate _

theorem toNat_scaleCount (factor : ℕ) (n : UInt32) :
    (scaleCount factor n).toNat = min (factor * n.toNat) (2 ^ 32 - 1) :=
  toNat_saturate _

/-- Cutting off every product and every sum is cutting off once. -/
theorem toNat_weight (s : Specificity) : s.weight.toNat = min s.exactWeight (2 ^ 32 - 1) := by
  simp only [weight, toNat_addCount, toNat_scaleCount, exactWeight]
  omega

/-- Weights are added: a count that is cut off has the greatest weight by itself. -/
theorem toNat_weight_add (s t : Specificity) :
    (s.add t).weight.toNat = min (s.weight.toNat + t.weight.toNat) (2 ^ 32 - 1) := by
  simp only [toNat_weight, exactWeight, add, toNat_addCount]
  omega

theorem weight_le_weight (ids : s.ids ≤ t.ids) (classes : s.classes ≤ t.classes)
    (types : s.types ≤ t.types) : s.weight ≤ t.weight := by
  rw [UInt32.le_iff_toNat_le] at ids classes types ⊢
  simp only [toNat_weight, exactWeight]
  omega

/-! ### The two orders -/

theorem order_eq_lt_iff : s.order t = .lt ↔ s.counts.lex < t.counts.lex := by
  simp only [order, Ordering.then_eq_lt, Std.compare_eq_lt, Std.compare_eq_eq_iff_eq,
    Selector.Tally.lex, counts, Prod.Lex.toLex_lt_toLex, UInt32.lt_iff_toNat_lt,
    ← UInt32.toNat_inj]

/-- Numbers are compared as their digits are. -/
theorem HasDigits.lex_lt_iff (hs : s.HasDigits) (ht : t.HasDigits) :
    s.counts.lex < t.counts.lex ↔ s.exactWeight < t.exactWeight := by
  have sc := UInt32.le_iff_toNat_le.1 hs.classes
  have st := UInt32.le_iff_toNat_le.1 hs.types
  have tc := UInt32.le_iff_toNat_le.1 ht.classes
  have tt := UInt32.le_iff_toNat_le.1 ht.types
  have nine : (9 : UInt32).toNat = 9 := rfl
  simp only [Selector.Tally.lex, counts, Prod.Lex.toLex_lt_toLex, exactWeight]
  omega

theorem HasDigits.weight_lt_iff (hs : s.HasDigits) (ht : t.HasDigits) :
    s.weight < t.weight ↔ s.exactWeight < t.exactWeight := by
  rw [UInt32.lt_iff_toNat_lt, toNat_weight, toNat_weight, min_eq_left hs.fits,
    min_eq_left ht.fits]

/-- The weight is the exact sum, cut off once, also of specificities that are added. No part
makes it smaller, and where the classes and the types are digits of a weight that is not cut
off, it is in the order in which a choice compares its arguments. -/
theorem weight_cut_off_once (s t : Specificity) :
    s.weight.toNat = min (2 ^ 32 - 1) (100 * s.ids.toNat + 10 * s.classes.toNat + s.types.toNat) ∧
      (s.add t).weight.toNat = min (2 ^ 32 - 1) (s.weight.toNat + t.weight.toNat) ∧
      (s.ids ≤ t.ids → s.classes ≤ t.classes → s.types ≤ t.types → s.weight ≤ t.weight) ∧
      (s.order t = .lt ↔ s.counts.precedes t.counts = true) ∧
      (s.HasDigits → t.HasDigits → (s.order t = .lt ↔ s.weight < t.weight)) := by
  refine ⟨?_, ?_, weight_le_weight, ?_, fun hs ht => ?_⟩
  · rw [toNat_weight, exactWeight, min_comm]
  · rw [toNat_weight_add, min_comm]
  · rw [order_eq_lt_iff, Selector.Tally.precedes_iff]
  · rw [order_eq_lt_iff, hs.lex_lt_iff ht, hs.weight_lt_iff ht]

/-- The two heaviest weights that are not cut off are in the order of their types. -/
theorem heaviest_in_order :
    let s : Specificity := ⟨42949672, 9, 4⟩
    let t : Specificity := ⟨42949672, 9, 5⟩
    s.HasDigits ∧ t.HasDigits ∧ t.weight.toNat = 2 ^ 32 - 1 ∧
      (s.order t = .lt ↔ s.weight < t.weight) := by
  intro s t
  have hs : s.HasDigits := ⟨by decide, by decide, by decide⟩
  have ht : t.HasDigits := ⟨by decide, by decide, by decide⟩
  obtain ⟨-, -, -, -, agree⟩ := weight_cut_off_once s t
  exact ⟨hs, ht, by decide, agree hs ht⟩

/-- A class more than nine is as heavy as an id, but a choice takes the id. -/
example : Specificity.order ⟨0, 10, 1⟩ ⟨1, 0, 0⟩ = .lt ∧
    Specificity.weight ⟨1, 0, 0⟩ < Specificity.weight ⟨0, 10, 1⟩ := by decide

end Stylesheet.Specificity
