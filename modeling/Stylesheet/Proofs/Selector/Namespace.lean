import Mathlib
import Stylesheet.Proofs.Selector.Specificity

/-!
# Namespaces in front of a type

A type, or the universal selector, may have a namespace in front, which ends in a bar. The
scanner passes over the bar wherever it stands, so every namespace, written as a star, adds
nothing. But it has read the name of a namespace as a type before it comes to the bar, and so
a named namespace counts as one type more.
-/

namespace Stylesheet.Selector

/-- The namespace in front of a type: any of them, or one by its name. -/
inductive Namespace where
  | every
  | named (name : Name)

/-- The simple selectors that stand behind a type and count no types themselves. -/
inductive Qualifier where
  | id (name : Name)
  | ofClass (name : Name)
  | bracketed (body : Body)

def Qualifier.simple : Qualifier → Simple
  | .id name => .id name
  | .ofClass name => .ofClass name
  | .bracketed body => .bracketed body

/-- The text of ids, classes and attributes in a row. -/
def qualifiersText (qualifiers : List Qualifier) : List Char :=
  qualifiers.flatMap fun q => q.simple.text

namespace Namespace

def text : Namespace → List Char
  | .every => ['*']
  | .named name => name.text

/-- What the scanner counts for the namespace. -/
def rank : Namespace → Tally
  | .every => ⟨0, 0, 0⟩
  | .named _ => ⟨0, 0, 1⟩

/-- A selector in the namespace. -/
def within (space : Namespace) (selector : List Char) : String :=
  String.ofList (space.text ++ '|' :: selector)

/-! ### The bar -/

theorem tally_bar (cs : List Char) : tally ('|' :: cs) = tally cs :=
  tally_other (by decide) (by decide)

/-- A namespace is counted by itself, whatever stands behind its bar. -/
theorem tally_within (space : Namespace) (selector : List Char) :
    tally (units (space.within selector)) =
      space.rank + tally (units (String.ofList selector)) := by
  have ends (cs : List Char) : EndsName ('|' :: cs) := by
    rintro _ ⟨⟩
    decide
  rw [within, units_ofList, units_ofList, textUnits_append, textUnits_cons_of_ascii (by decide)]
  cases space with
  | every =>
      rw [text, textUnits_cons_of_ascii (by decide), textUnits_nil, List.singleton_append,
        tally_other (by decide) (by decide), tally_bar]
      exact (Tally.zero_add _).symm
  | named name =>
      rw [text, name.tally_units (ends _), tally_bar]
      rfl

end Namespace

/-! ### Specificities -/

theorem addCount_saturate (m n : ℕ) :
    Specificity.addCount (saturate m) (saturate n) = saturate (m + n) := by
  rw [← UInt32.toNat_inj, Specificity.addCount, toNat_saturate, toNat_saturate, toNat_saturate,
    toNat_saturate]
  omega

/-- Counts may be cut off before or after they are added. -/
theorem Tally.toSpecificity_add (s t : Tally) :
    (s + t).toSpecificity = s.toSpecificity.add t.toSpecificity := by
  simp only [toSpecificity, Specificity.add, add_def, addCount_saturate]

theorem specificity_within (space : Namespace) (selector : List Char) :
    Specificity.of (space.within selector) =
      space.rank.toSpecificity.add (Specificity.of (String.ofList selector)) := by
  rw [Specificity.of, space.tally_within, Tally.toSpecificity_add, Specificity.of]

/-! ### Qualified types -/

/-- A compound with more simple selectors behind it. -/
def Compound.qualified (head : Compound) (qualifiers : List Qualifier) : Compound :=
  qualifiers.foldl (fun compound q => .and compound q.simple) head

theorem Compound.text_qualified (head : Compound) (qualifiers : List Qualifier) :
    (head.qualified qualifiers).text = head.text ++ qualifiersText qualifiers := by
  induction qualifiers generalizing head with
  | nil => exact (List.append_nil _).symm
  | cons q qs ih =>
      have first := ih (.and head q.simple)
      rw [Compound.text, List.append_assoc] at first
      exact first

theorem Compound.types_qualified (head : Compound) (qualifiers : List Qualifier) :
    (head.qualified qualifiers).rank.types = head.rank.types := by
  induction qualifiers generalizing head with
  | nil => rfl
  | cons q qs ih =>
      refine (ih (.and head q.simple)).trans ?_
      rw [Compound.rank]
      cases q <;> rfl

/-- Behind a compound that is a type, or none, ids, classes and attributes leave the count of
types as it is. -/
theorem types_of_qualified (head : Compound) (qualifiers : List Qualifier) :
    (Specificity.of (String.ofList (head.text ++ qualifiersText qualifiers))).types =
      saturate head.rank.types := by
  rw [← head.text_qualified, ← head.types_qualified qualifiers]
  exact congrArg (saturate ·.types) (tally_of_text (.compound (head.qualified qualifiers)))

theorem addCount_zero (n : UInt32) : Specificity.addCount (saturate 0) n = n := by
  have small := n.toNat_lt
  have size : UInt32.size = 2 ^ 32 := rfl
  rw [← UInt32.toNat_inj, Specificity.addCount, toNat_saturate, toNat_saturate]
  omega

/-- As long as the types are not cut off, a namespace adds nothing exactly if it is no name. -/
theorem specificity_within_eq_iff (space : Namespace) {selector : List Char}
    (room : (Specificity.of (String.ofList selector)).types.toNat < 2 ^ 32 - 1) :
    Specificity.of (space.within selector) = Specificity.of (String.ofList selector) ↔
      space = .every := by
  rw [specificity_within]
  cases space with
  | every =>
      refine iff_of_true ?_ rfl
      simp only [Namespace.rank, Tally.toSpecificity, Specificity.add, addCount_zero]
  | named name =>
      refine iff_of_false (fun same => ?_) nofun
      have types := congrArg (·.types.toNat) same
      have size : UInt32.size = 2 ^ 32 := rfl
      simp only [Namespace.rank, Tally.toSpecificity, Specificity.add, Specificity.addCount,
        toNat_saturate] at types
      omega

/-- A namespace counts by its own rank in front of every selector. So in front of a type, or of
the universal selector, with any ids, classes and attributes behind it, a namespace adds nothing
exactly if it is not named. -/
theorem namespace_weightless_iff (space : Namespace) (type : Name) (qualifiers : List Qualifier) :
    let typed := type.text ++ qualifiersText qualifiers
    let universal := '*' :: qualifiersText qualifiers
    (∀ selector, Specificity.of (space.within selector) =
        space.rank.toSpecificity.add (Specificity.of (String.ofList selector))) ∧
      (Specificity.of (space.within typed) = Specificity.of (String.ofList typed) ↔
        space = .every) ∧
      (Specificity.of (space.within universal) = Specificity.of (String.ofList universal) ↔
        space = .every) := by
  intro typed universal
  have of_head (head : Compound) (few : head.rank.types ≤ 1) :
      (Specificity.of (String.ofList (head.text ++ qualifiersText qualifiers))).types.toNat <
        2 ^ 32 - 1 := by
    rw [types_of_qualified, toNat_saturate]
    omega
  exact ⟨specificity_within space,
    specificity_within_eq_iff space (of_head (.type type) (Nat.le_refl 1)),
    specificity_within_eq_iff space (of_head .universal (Nat.zero_le 1))⟩

/-- The namespace in `svg|a` counts like a second type, in `*|a` it does not count. -/
theorem named_namespace_counts :
    let svg : Name := ⟨'s', ['v', 'g'], by decide, by decide⟩
    (Namespace.named svg).within ['a'] = "svg|a" ∧ Namespace.every.within ['a'] = "*|a" ∧
      Specificity.of "svg|a" = ⟨0, 0, 2⟩ ∧ Specificity.of "*|a" = ⟨0, 0, 1⟩ ∧
      Specificity.of "a" = ⟨0, 0, 1⟩ := by
  intro svg
  let a : Name := ⟨'a', [], by decide, by decide⟩
  have alone : Specificity.of (String.ofList ['a']) = ⟨0, 0, 1⟩ :=
    congrArg Tally.toSpecificity (tally_of_text (.compound (.type a)))
  have named := specificity_within (.named svg) ['a']
  have every := specificity_within .every ['a']
  rw [alone] at named every
  exact ⟨rfl, rfl, named, every, alone⟩

end Stylesheet.Selector
