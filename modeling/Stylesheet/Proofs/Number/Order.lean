import Mathlib
import Stylesheet.Color.Space

/-!
# The order of numbers

Doubles are compared by their contents. A value that is not a number is comparable with
nothing; all others are comparable with each other, and reading a comparison from the other
side turns it round. So a number that is not below another one is at least as large, and
moving a number into a range puts it there, whatever it was, and leaves it alone if it is
there already.
-/

namespace Stylesheet

open Float.Model (UnpackedFloat)

namespace Number

theorem compare_eq_none_iff (a b : UnpackedFloat) :
    a.compare b = none ↔ a.isNaN = true ∨ b.isNaN = true := by
  rcases a with ⟨_ | _⟩ | _ | ⟨_ | _⟩ | ⟨_ | _, m, e, _⟩ <;>
    rcases b with ⟨_ | _⟩ | _ | ⟨_ | _⟩ | ⟨_ | _, m', e', _⟩ <;>
      simp [UnpackedFloat.compare, UnpackedFloat.isNaN]

theorem compare_swap (a b : UnpackedFloat) : b.compare a = (a.compare b).map Ordering.swap := by
  have exponents (e e' : Int) : (compare e e').swap = compare e' e := Std.OrientedCmp.eq_swap.symm
  have mantissas (m m' : Nat) : (compare m m').swap = compare m' m := Std.OrientedCmp.eq_swap.symm
  rcases a with ⟨_ | _⟩ | _ | ⟨_ | _⟩ | ⟨_ | _, m, e, _⟩ <;>
    rcases b with ⟨_ | _⟩ | _ | ⟨_ | _⟩ | ⟨_ | _, m', e', _⟩ <;>
      simp [UnpackedFloat.compare, Ordering.swap_then, exponents, mantissas] <;> rfl

variable {x y : Float}

theorem isNaN_iff : x.isNaN = true ↔ x.toModel.unpack.isNaN = true := Iff.rfl

theorem lt_iff : x < y ↔ x.toModel.unpack.compare y.toModel.unpack = some .lt := by
  change decide (x.toModel.unpack.compare y.toModel.unpack == some .lt) = true ↔ _
  simp

theorem le_iff : x ≤ y ↔ x.toModel.unpack.compare y.toModel.unpack = some .lt ∨
    x.toModel.unpack.compare y.toModel.unpack = some .eq := by
  change decide ((x.toModel.unpack.compare y.toModel.unpack).any Ordering.isLE) = true ↔ _
  rcases x.toModel.unpack.compare y.toModel.unpack with _ | _ | _ | _ <;> simp

theorem beq_iff : (x == y) = true ↔ x.toModel.unpack.compare y.toModel.unpack = some .eq := by
  change (x.toModel.unpack.compare y.toModel.unpack == some .eq) = true ↔ _
  exact beq_iff_eq

theorem le_of_lt (h : x < y) : x ≤ y := le_iff.2 (.inl (lt_iff.1 h))

theorem isNaN_of_le (h : x ≤ y) : x.isNaN = false ∧ y.isNaN = false := by
  have comparable : x.toModel.unpack.compare y.toModel.unpack ≠ none := by
    rcases le_iff.1 h with h | h <;> simp [h]
  rw [Ne, compare_eq_none_iff, ← isNaN_iff, ← isNaN_iff] at comparable
  simpa using comparable

theorem le_of_not_lt (hx : x.isNaN = false) (hy : y.isNaN = false) (h : ¬ x < y) : y ≤ x := by
  have comparable : x.toModel.unpack.compare y.toModel.unpack ≠ none := by
    rw [Ne, compare_eq_none_iff, ← isNaN_iff, ← isNaN_iff, hx, hy]
    decide
  rw [lt_iff] at h
  rw [le_iff, compare_swap]
  rcases found : x.toModel.unpack.compare y.toModel.unpack with _ | _ | _ | _
  · exact absurd found comparable
  · exact absurd found h
  · exact .inr rfl
  · exact .inl rfl

theorem not_lt_of_le (h : x ≤ y) : ¬ y < x := by
  rw [lt_iff, compare_swap]
  rcases le_iff.1 h with h | h <;> simp [h]

theorem not_le_of_lt (h : x < y) : ¬ y ≤ x := fun le => not_lt_of_le le h

theorem lt_irrefl (x : Float) : ¬ x < x := by
  intro below
  have turned := compare_swap x.toModel.unpack x.toModel.unpack
  rw [lt_iff.1 below] at turned
  cases turned

theorem lt_of_le_of_bne (h : x ≤ y) (different : (x != y) = true) : x < y := by
  rcases le_iff.1 h with less | equal
  · exact lt_iff.2 less
  · rw [bne, beq_iff.2 equal] at different
    cases different

theorem bne_of_lt (h : x < y) : (x != y) = true := by
  have unequal : (x == y) = false := by
    rw [Bool.eq_false_iff, Ne, beq_iff, lt_iff.1 h]
    simp
  rw [bne, unequal, Bool.not_false]

end Number

section Clamp

variable {low high x : Float}

/-- A number moved into a range is in that range, and so is what is not a number. -/
theorem clamp_mem (x : Float) (range : low ≤ high) :
    low ≤ clamp x low high ∧ clamp x low high ≤ high := by
  obtain ⟨low_is, high_is⟩ := Number.isNaN_of_le range
  have self {y : Float} (is : y.isNaN = false) : y ≤ y :=
    Number.le_of_not_lt is is (Number.lt_irrefl y)
  rw [clamp]
  split
  · exact ⟨self low_is, range⟩
  · rename_i inside
    rw [Bool.or_eq_true, not_or, decide_eq_true_eq, Bool.not_eq_true] at inside
    split
    · exact ⟨range, self high_is⟩
    · rename_i below
      exact ⟨Number.le_of_not_lt inside.1 low_is inside.2,
        Number.le_of_not_lt high_is inside.1 below⟩

/-- A number in the range stays as it is. -/
theorem clamp_eq_self (above : low ≤ x) (below : x ≤ high) : clamp x low high = x := by
  have is : x.isNaN = false := (Number.isNaN_of_le below).1
  have start : ¬ decide (x < low) = true := by
    simpa only [decide_eq_true_eq] using Number.not_lt_of_le above
  rw [clamp, is, Bool.false_or, if_neg start, if_neg (Number.not_lt_of_le below)]

end Clamp

end Stylesheet
