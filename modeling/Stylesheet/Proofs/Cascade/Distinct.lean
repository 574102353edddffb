import Mathlib
import Stylesheet.Proofs.Cascade.Order

/-!
# What a merged block declares

A merged block declares no property twice, whether shorthands are created or not. What it
declares is declared by one of the blocks that compete, or it is a shorthand that was put
together, and then the longhands it was put together from are declared no more. In turn
nothing that competes is lost: a property is still declared, or its shorthand was created.
-/

namespace Stylesheet.Cascade

open Shorthand (compactionOrder)

variable {options : MergeOptions} {bs : List Block} {p : String} {d : Declaration}

/-- Whether one of the blocks, as it competes, declares a property. -/
def Declares (options : MergeOptions) (bs : List Block) (p : String) : Prop :=
  ∃ b ∈ bs, ∃ d ∈ (prepare options b).declarations, d.property = p

theorem mem_property_competitors_iff :
    p ∈ (competitors options bs).map (·.declaration.property) ↔ Declares options bs p := by
  simp only [competitors_eq, candidates, List.map_flatMap, List.map_map, List.mem_flatMap,
    List.mem_map, Function.comp_apply, Declares]

/-- Declarations are kept for exactly the properties that the blocks declare. -/
theorem mem_property_winners_iff :
    p ∈ (winners (bs.map (prepare options))).map (·.property) ↔ Declares options bs p := by
  rw [← mem_property_competitors_iff, winners, List.map_map]
  exact (holds_survivors options bs).property_mem_iff

theorem declares_of_mem_winners (hd : d ∈ winners (bs.map (prepare options))) :
    Declares options bs d.property :=
  mem_property_winners_iff.1 (List.mem_map_of_mem hd)

theorem declarations_merge (options : MergeOptions) (bs : List Block) :
    (merge options bs).declarations =
      if options.createShorthands then Shorthand.compact (winners (bs.map (prepare options)))
      else winners (bs.map (prepare options)) := rfl

theorem nodup_property_merge (options : MergeOptions) (bs : List Block) :
    ((merge options bs).declarations.map (·.property)).Nodup := by
  rw [declarations_merge]
  split
  · exact Shorthand.nodup_property_compact (nodup_property_winners options bs)
  · exact nodup_property_winners options bs

/-- A merged block declares what a block declares, or a shorthand of it is created. -/
theorem declared_or_absorbed (declared : Declares options bs p) :
    (∃ d ∈ (merge options bs).declarations, d.property = p) ∨
      ∃ s ∈ compactionOrder, p ∈ s.longhands ∧
        ∃ d ∈ (merge options bs).declarations,
          s.combine? (winners (bs.map (prepare options))) = some d := by
  obtain ⟨d, hd, rfl⟩ := List.mem_map.1 (mem_property_winners_iff.2 declared)
  rw [declarations_merge]
  split
  · rcases Shorthand.mem_compact_or_absorbed hd with kept | absorbed
    · exact Or.inl ⟨d, kept, rfl⟩
    · exact Or.inr absorbed
  · exact Or.inl ⟨d, hd, rfl⟩

/-- What a created shorthand is put together from is declared by the blocks, and not by the
merged block. -/
theorem longhands_of_created {s : Shorthand} (create : options.createShorthands = true)
    (hs : s ∈ compactionOrder)
    (created : s.combine? (winners (bs.map (prepare options))) = some d) :
    (∃ p ∈ s.longhands, Declares options bs p) ∧
      ∀ e ∈ (merge options bs).declarations, e.property ∉ s.longhands := by
  constructor
  · obtain ⟨p, hp, e, last⟩ := Shorthand.exists_longhand_of_combine? created
    obtain rfl := Declaration.property_of_last? last
    exact ⟨e.property, hp, declares_of_mem_winners (Declaration.mem_of_last? last)⟩
  · intro e he
    rw [declarations_merge, if_pos create] at he
    exact Shorthand.not_mem_longhands_of_compact hs created he

theorem declared_or_created (hd : d ∈ (merge options bs).declarations) :
    Declares options bs d.property ∨ options.createShorthands = true ∧
      ∃ s ∈ compactionOrder, s.combine? (winners (bs.map (prepare options))) = some d := by
  rw [declarations_merge] at hd
  split at hd
  · next create =>
      rcases Shorthand.mem_compact_iff.1 hd with ⟨old, -⟩ | created
      · exact Or.inl (declares_of_mem_winners old)
      · exact Or.inr ⟨create, created⟩
  · exact Or.inl (declares_of_mem_winners hd)

/-- The declarations of a merged block have different properties. The property of each is
declared by a block, or else the declaration is a shorthand put together from longhands that
blocks declare and that the merged block does not. And what a block declares is declared by
the merged block, or is a longhand of a shorthand put together there. -/
theorem merged_properties_distinct (options : MergeOptions) (bs : List Block) :
    let kept := winners (bs.map (prepare options))
    let merged := (merge options bs).declarations
    (merged.map (·.property)).Nodup ∧
      (∀ d ∈ merged, Declares options bs d.property ∨
        options.createShorthands = true ∧ ∃ s ∈ compactionOrder,
          s.combine? kept = some d ∧ d.property = s.name ∧
            (∃ p ∈ s.longhands, Declares options bs p) ∧
            ∀ e ∈ merged, e.property ∉ s.longhands) ∧
      ∀ p, Declares options bs p → (∃ d ∈ merged, d.property = p) ∨
        ∃ s ∈ compactionOrder, p ∈ s.longhands ∧ ∃ d ∈ merged, s.combine? kept = some d := by
  intro kept merged
  refine ⟨nodup_property_merge options bs, ?_, fun p declared => declared_or_absorbed declared⟩
  intro d hd
  rcases declared_or_created hd with declared | ⟨create, s, hs, created⟩
  · exact Or.inl declared
  · exact Or.inr ⟨create, s, hs, created, (Shorthand.combine?_eq_some created).1,
      longhands_of_created create hs created⟩

end Stylesheet.Cascade
