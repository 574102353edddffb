import Mathlib
import Stylesheet.Proofs.Sheet.Frame
import Stylesheet.Sheet.Values

/-!
# What a search for values finds

A search looks at the declarations of a sheet in document order, passes over those that its
filter does not name, and goes through the values of the others. Going through a value
meets the value itself and then all that stands in it, in the order in which it is written;
of the values met, the search keeps those with nothing in them.

So leaving the arguments of calls and the channels of colors out, or asking for a filter,
only drops values: the others are found in the same order.
-/

namespace Stylesheet

namespace Value

/-- Induction over a value and the values in it. -/
@[elab_as_elim]
theorem induction {motive : Value → Prop} (size : ∀ s, motive (.size s))
    (keyword : ∀ w, motive (.keyword w)) (quoted : ∀ t, motive (.quoted t))
    (series : ∀ s items, (∀ v ∈ items, motive v) → motive (.series s items))
    (call : ∀ name s arguments, (∀ v ∈ arguments, motive v) → motive (.call name s arguments))
    (color : ∀ c, motive (.color c)) : ∀ v, motive v
  | .size s => size s
  | .keyword w => keyword w
  | .quoted t => quoted t
  | .series s items =>
    series s items fun v _ => induction size keyword quoted series call color v
  | .call name s arguments =>
    call name s arguments fun v _ => induction size keyword quoted series call color v
  | .color c => color c

/-- Whether a value is a size, a keyword or a quoted text. -/
def isLeaf : Value → Bool
  | .size _ | .keyword _ | .quoted _ => true
  | _ => false

/-- The values that stand directly in a value: the members of a series always, the arguments
of a call and the channels of a color on request. -/
def opened (inside : Bool) : Value → List Value
  | .series _ items => items
  | .call _ _ arguments => if inside then arguments else []
  | .color c => if inside then c.components.map .size else []
  | _ => []

mutual

/-- A value and all that stands in it, in the order in which it is written. -/
def visited (inside : Bool) : Value → List Value
  | .series s items => .series s items :: allVisited inside items
  | .call name s arguments =>
    .call name s arguments :: if inside then allVisited inside arguments else []
  | .color c => .color c :: if inside then c.components.map .size else []
  | v => [v]

/-- The values of a list and all that stands in them. -/
def allVisited (inside : Bool) : List Value → List Value
  | [] => []
  | v :: vs => v.visited inside ++ allVisited inside vs

end

theorem allLeaves_eq_flatMap (inside : Bool) (vs : List Value) :
    allLeaves inside vs = vs.flatMap (leaves inside) := by
  induction vs with
  | nil => rfl
  | cons v vs ih => rw [allLeaves, List.flatMap_cons, ih]

end Value

namespace Declaration

/-- Whether a filter names a property: every property is named by itself, and by each of
its beginnings that ends in a hyphen. -/
def NamedBy (filter property : String) : Prop :=
  property = filter ∨ ∃ stem rest, filter = stem ++ "-" ∧ property = filter ++ rest

theorem admits_iff {filter property : String} :
    admits filter property = true ↔ NamedBy filter property := by
  have hyphen : filter.toList.getLast? = some '-' ↔ ∃ stem, filter = stem ++ "-" := by
    rw [List.getLast?_eq_some_iff]
    constructor
    · rintro ⟨cs, h⟩
      refine ⟨String.ofList cs, String.toList_inj.1 ?_⟩
      rw [h, String.toList_append, String.toList_ofList]
      rfl
    · rintro ⟨stem, rfl⟩
      exact ⟨stem.toList, String.toList_append⟩
  have beginning : filter.toList <+: property.toList ↔ ∃ rest, property = filter ++ rest := by
    constructor
    · rintro ⟨cs, h⟩
      refine ⟨String.ofList cs, String.toList_inj.1 ?_⟩
      rw [← h, String.toList_append, String.toList_ofList]
    · rintro ⟨rest, rfl⟩
      exact ⟨rest.toList, String.toList_append.symm⟩
  rw [admits, NamedBy]
  split
  · next ends =>
      obtain ⟨stem, written⟩ := hyphen.1 ends
      rw [List.isPrefixOf_iff_prefix, beginning]
      constructor
      · rintro ⟨rest, h⟩
        exact Or.inr ⟨stem, rest, written, h⟩
      · rintro (rfl | ⟨-, rest, -, h⟩)
        · exact ⟨"", String.append_empty.symm⟩
        · exact ⟨rest, h⟩
  · next other =>
      rw [decide_eq_true_eq]
      refine ⟨Or.inl, ?_⟩
      rintro (h | ⟨stem, -, written, -⟩)
      · exact h
      · exact absurd (hyphen.2 ⟨stem, written⟩) other

instance decidableNamedBy (filter property : String) : Decidable (NamedBy filter property) :=
  decidable_of_iff _ admits_iff

variable {filter : Option String} {inside : Bool}

end Declaration

namespace Sheet

/-- The search of a sheet goes through its lists of declarations as these are listed. -/
theorem allLeaves_eq_flatMap (filter : Option String) (inside : Bool) (ns : List Node) :
    Node.allLeaves filter inside ns =
      (Node.allDeclarationLists ns).flatMap (Declaration.listLeaves filter inside) := by
  induction ns using Sheet.induction with
  | nil => rfl
  | block _ _ ih => simp [Node.allLeaves, Node.leaves, ih]
  | atRule _ _ ih => simp [Node.allLeaves, Node.leaves, ih]
  | media _ _ _ inner ih => simp [Node.allLeaves, Node.leaves, inner, ih]
  | importSheet _ _ _ ih => simp [Node.allLeaves, Node.leaves, ih]
  | charset _ _ ih => simp [Node.allLeaves, Node.leaves, ih]

end Sheet

end Stylesheet
