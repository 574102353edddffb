import Stylesheet.Proofs.Selector.Scanning

/-!
# The specificity of a well-formed selector

The scanner counts a selector of the grammar by its rank. No count of the rank is
greater than the length of the text, so the counts of a text that is not too long are
exact.
-/

namespace Stylesheet.Selector

/-- Whether no count is greater than a bound. -/
def Tally.Within (t : Tally) (n : Nat) : Prop := t.ids ≤ n ∧ t.classes ≤ n ∧ t.types ≤ n

namespace Tally.Within

variable {s t : Tally} {m n : Nat}

theorem mono (h : t.Within m) (le : m ≤ n) : t.Within n :=
  ⟨h.1.trans le, h.2.1.trans le, h.2.2.trans le⟩

theorem add (h : s.Within m) (k : t.Within n) : (s + t).Within (m + n) :=
  ⟨Nat.add_le_add h.1 k.1, Nat.add_le_add h.2.1 k.2.1, Nat.add_le_add h.2.2 k.2.2⟩

theorem zero (n : Nat) : Tally.Within ⟨0, 0, 0⟩ n := ⟨Nat.zero_le n, Nat.zero_le n, Nat.zero_le n⟩

/-- A single part counts one. -/
theorem one (h : s = ⟨1, 0, 0⟩ ∨ s = ⟨0, 1, 0⟩ ∨ s = ⟨0, 0, 1⟩) : s.Within (n + 1) := by
  rcases h with rfl | rfl | rfl <;> simp [Within]

end Tally.Within

mutual

theorem Simple.rank_within : ∀ simple : Simple, simple.rank.Within simple.text.length
  | .id _ => .one (Or.inl rfl)
  | .ofClass _ => .one (Or.inr (Or.inl rfl))
  | .bracketed _ => .one (Or.inr (Or.inl rfl))
  | .pseudoClass name _ => by
      apply Tally.Within.one
      rw [Simple.rank]
      split
      · exact Or.inr (Or.inr rfl)
      · exact Or.inr (Or.inl rfl)
  | .function .. => .one (Or.inr (Or.inl rfl))
  | .pseudoElement .. => .one (Or.inr (Or.inr rfl))
  | .choice name _ arguments => by
      apply arguments.rank_within.mono
      simp only [Simple.text, List.length_cons, List.length_append]
      omega
  | .weightless .. => .zero _

theorem Compound.rank_within : ∀ compound : Compound, compound.rank.Within compound.text.length
  | .empty => .zero _
  | .universal => .zero _
  | .type name => .one (Or.inr (Or.inr rfl))
  | .and compound simple => by
      rw [Compound.rank, Compound.text, List.length_append]
      exact compound.rank_within.add simple.rank_within

theorem Complex.rank_within : ∀ complex : Complex, complex.rank.Within complex.text.length
  | .compound compound => compound.rank_within
  | .combine left combinator right => by
      apply (left.rank_within.add right.rank_within).mono
      simp only [Complex.text, List.length_append]
      omega

theorem Arguments.rank_within :
    ∀ arguments : Arguments, arguments.rank.Within arguments.text.length
  | .last selector => selector.rank_within
  | .cons selector others => by
      rw [Arguments.rank, Arguments.text, List.length_append, List.length_cons]
      split
      · exact others.rank_within.mono (by omega)
      · exact selector.rank_within.mono (by omega)

end

/-- The scanner counts a selector by its rank. -/
theorem tally_of_text (complex : Complex) :
    tally (units (String.ofList complex.text)) = complex.rank := by
  have scanned := complex.tally_units stops_nil
  rwa [List.append_nil, tally_nil, Tally.add_zero, ← units_ofList] at scanned

/-- The specificity of the text of a selector has the counts of its rank. -/
theorem specificity_of_text (complex : Complex) (short : complex.text.length < 2 ^ 32) :
    (Specificity.of (String.ofList complex.text)).ids.toNat = complex.rank.ids ∧
      (Specificity.of (String.ofList complex.text)).classes.toNat = complex.rank.classes ∧
      (Specificity.of (String.ofList complex.text)).types.toNat = complex.rank.types := by
  obtain ⟨ids, classes, types⟩ := complex.rank_within
  have counted {n : Nat} (h : n ≤ complex.text.length) : (saturate n).toNat = n := by
    have size : UInt32.size = 2 ^ 32 := rfl
    rw [toNat_saturate]
    omega
  rw [Specificity.of, tally_of_text]
  exact ⟨counted ids, counted classes, counted types⟩

/-- Of a class and an id in a choice the id counts, next to the type in front of it. -/
theorem specificity_of_choice :
    let word (first : Char) (others : List Char) (starts : startsName first = true)
        (continues : others.all isNameChar = true) : Name :=
      ⟨first, others, starts, continues⟩
    let x := word 'x' ['1'] (by decide) (by decide)
    let y := word 'y' [] (by decide) (by decide)
    let choice := Simple.choice (word 'N' ['o', 't'] (by decide) (by decide)) (by decide +kernel)
      (.cons (.compound (.and .empty (.ofClass x)))
        (.last (.combine (.compound .empty) (.descendant 0) (.and .empty (.id y)))))
    let selector := Complex.combine (.compound (.type y)) (.signed 1 .child 1) (.and .empty choice)
    String.ofList selector.text = "y > :Not(.x1, #y)" ∧ selector.text.length < 2 ^ 32 ∧
      (Specificity.of (String.ofList selector.text)).ids.toNat = 1 ∧
      (Specificity.of (String.ofList selector.text)).classes.toNat = 0 ∧
      (Specificity.of (String.ofList selector.text)).types.toNat = 1 := by
  intro word x y choice selector
  have short : selector.text.length < 2 ^ 32 := by decide
  have counts := specificity_of_text selector short
  exact ⟨rfl, short, counts⟩

end Stylesheet.Selector
