import Mathlib
import Stylesheet.Shorthand.Basic

/-!
# The shorthands in the registry

What the passes over the registry rely on: the names differ, only the longhands of
`border` are shorthands themselves, and the shorthands that are put together share no
property. A declaration sets its own property and, if it declares a shorthand, what its
longhands set.
-/

namespace Stylesheet.Shorthand

variable {s t : Shorthand} {p q : String}

/-! ### Names -/

theorem registry_names_nodup : (registry.map (·.name)).Nodup := by decide_cbv

theorem named?_eq_none_iff {name : String} :
    named? name = none ↔ ∀ s ∈ registry, name ≠ s.name := by
  rw [named?, List.find?_eq_none]
  simp [eq_comm]

theorem named?_eq_some_iff {name : String} :
    named? name = some s ↔ s ∈ registry ∧ name = s.name := by
  have found : ∀ t ∈ registry, named? t.name = some t := by decide_cbv
  constructor
  · intro h
    exact ⟨List.mem_of_find?_eq_some h, by simpa [eq_comm] using List.find?_some h⟩
  · rintro ⟨hs, rfl⟩
    exact found s hs

theorem named?_longhand_of_ne_border :
    ∀ s ∈ registry, s ≠ border → ∀ p ∈ s.longhands, named? p = none := by decide_cbv

/-! ### Longhands of longhands -/

/-- The longhands, with those that are shorthands replaced by their own. -/
def leaves (s : Shorthand) : List String :=
  s.longhands.flatMap fun p => ((named? p).map longhands).getD [p]

/-- The shorthands that `border` is taken apart to. -/
def borderBoxes : List Shorthand := [borderWidth, borderStyle, borderColor]

theorem borderBoxes_box :
    ∀ s ∈ borderBoxes, s ∈ registry ∧ s.kind = .box ∧ s.longhands.length = 4 ∧
      ∀ p ∈ s.longhands, named? p = none := by decide_cbv

theorem borderBoxes_ne_border : ∀ s ∈ borderBoxes, border.name ≠ s.name := by decide

theorem leaves_of_simple (simple : ∀ p ∈ s.longhands, named? p = none) :
    s.leaves = s.longhands := by
  calc s.leaves
      _ = s.longhands.flatMap fun p => [p] := by
        apply List.flatMap_congr
        intro p hp
        rw [simple p hp, Option.map_none, Option.getD_none]
      _ = s.longhands := List.flatMap_singleton' _

theorem leaves_border : border.leaves = borderBoxes.flatMap longhands := by decide_cbv

theorem named?_leaf : ∀ s ∈ registry, ∀ p ∈ s.leaves, named? p = none := by
  intro s hs p hp
  by_cases first : s = border
  · rw [first, leaves_border] at hp
    obtain ⟨t, ht, hp⟩ := List.mem_flatMap.1 hp
    exact (borderBoxes_box t ht).2.2.2 p hp
  · have simple := named?_longhand_of_ne_border s hs first
    rw [leaves_of_simple simple] at hp
    exact simple p hp

/-! ### The shorthands that are put together -/

/-- Two shorthands that have no property in common, neither a longhand nor a name. -/
def Apart (s t : Shorthand) : Prop := ∀ p ∈ s.name :: s.longhands, p ∉ t.name :: t.longhands

instance (s t : Shorthand) : Decidable (s.Apart t) :=
  inferInstanceAs (Decidable (∀ p ∈ s.name :: s.longhands, p ∉ t.name :: t.longhands))

theorem compactionOrder_apart : compactionOrder.Pairwise Apart := by decide_cbv

theorem mem_registry_of_compactionOrder : ∀ s ∈ compactionOrder, s ∈ registry := by decide_cbv

theorem compactionOrder_nodup : compactionOrder.Nodup := by decide_cbv

theorem named?_longhand : ∀ s ∈ compactionOrder, ∀ p ∈ s.longhands, named? p = none := by
  decide_cbv

theorem longhands_nodup : ∀ s ∈ compactionOrder, s.longhands.Nodup := by decide_cbv

theorem apart_of_ne : ∀ s ∈ compactionOrder, ∀ t ∈ compactionOrder, s ≠ t → s.Apart t := by
  decide_cbv

theorem compactable_of_compactionOrder : ∀ s ∈ compactionOrder, s.isCompactable = true := by
  decide_cbv

theorem box_of_compactionOrder :
    ∀ s ∈ compactionOrder, s ∈ [background, listStyle, font] ∨ s.kind = .box := by decide_cbv

theorem ne_name_of_longhand (hs : s ∈ compactionOrder) (hp : p ∈ s.longhands) : p ≠ s.name :=
  named?_eq_none_iff.1 (named?_longhand s hs p hp) s (mem_registry_of_compactionOrder s hs)

/-! ### What a declaration sets -/

/-- Declaring the first property sets the second: it is that property, or a longhand of
the first one sets it. -/
inductive Sets : String → String → Prop
  | itself (p : String) : Sets p p
  | longhand {s : Shorthand} {q p : String} (registered : s ∈ registry) (own : q ∈ s.longhands)
      (inner : Sets q p) : Sets s.name p

theorem Sets.eq_of_unnamed (h : Sets q p) (unnamed : named? q = none) : q = p := by
  cases h with
  | itself => rfl
  | longhand registered _ _ =>
      exact absurd rfl (named?_eq_none_iff.1 unnamed _ registered)

theorem eq_of_longhand : ∀ s ∈ compactionOrder, ∀ p ∈ s.longhands, ∀ t ∈ registry,
    p ∈ t.longhands → t = s := by decide_cbv

theorem eq_border_of_name : ∀ s ∈ compactionOrder, ∀ t ∈ registry,
    s.name ∈ t.longhands → t = border := by decide_cbv

theorem border_not_longhand : ∀ t ∈ registry, border.name ∉ t.longhands := by decide_cbv

/-- A longhand of a compacted shorthand is set by itself, the shorthand, and a border. -/
theorem Sets.cases_longhand (hs : s ∈ compactionOrder) (hp : p ∈ s.longhands) (h : Sets q p) :
    q = p ∨ q = s.name ∨ q = border.name := by
  induction h with
  | itself => exact Or.inl rfl
  | @longhand t r p registered own _ ih =>
      rcases ih hp with rfl | rfl | rfl
      · exact Or.inr (Or.inl (congrArg name (eq_of_longhand s hs r hp t registered own)))
      · exact Or.inr (Or.inr (congrArg name (eq_border_of_name s hs t registered own)))
      · exact absurd own (border_not_longhand t registered)

/-- A shorthand sets its longhands and its leaves, and nothing else but itself. -/
theorem sets_iff :
    Sets q p ↔ q = p ∨ ∃ s ∈ registry, q = s.name ∧ (p ∈ s.longhands ∨ p ∈ s.leaves) := by
  constructor
  · intro h
    induction h with
    | itself => exact Or.inl rfl
    | @longhand s r p registered own _ ih =>
        refine Or.inr ⟨s, registered, rfl, ?_⟩
        rcases ih with rfl | ⟨t, ht, rfl, below⟩
        · exact Or.inl own
        · have inner : t ≠ border := by
            rintro rfl
            exact border_not_longhand s registered own
          rw [leaves_of_simple (named?_longhand_of_ne_border t ht inner), or_self] at below
          refine Or.inr (List.mem_flatMap.2 ⟨t.name, own, ?_⟩)
          rwa [named?_eq_some_iff.2 ⟨ht, rfl⟩]
  · rintro (rfl | ⟨s, hs, rfl, own | leaf⟩)
    · exact .itself q
    · exact .longhand hs own (.itself p)
    · obtain ⟨r, own, leaf⟩ := List.mem_flatMap.1 leaf
      cases named : named? r with
      | none =>
          rw [named] at leaf
          obtain rfl := List.mem_singleton.1 leaf
          exact .longhand hs own (.itself p)
      | some t =>
          rw [named] at leaf
          obtain ⟨ht, rfl⟩ := named?_eq_some_iff.1 named
          exact .longhand hs own (.longhand ht leaf (.itself p))

instance decidableSets (q p : String) : Decidable (Sets q p) := decidable_of_iff _ sets_iff.symm

end Stylesheet.Shorthand
