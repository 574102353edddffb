import Stylesheet.Proofs.Shorthand.Background
import Stylesheet.Proofs.Shorthand.Compaction
import Stylesheet.Proofs.Shorthand.Font
import Stylesheet.Proofs.Shorthand.ListStyle
import Stylesheet.Shorthand.Expansion

/-!
# Which shorthands are read back

A box is always read back. Every other shorthand that is put together is read back
exactly if the values of its longhands fit its kind, or if one of them is a global
keyword, for then all are that keyword.
-/

namespace Stylesheet.Shorthand

namespace Box

theorem compact?_eq_some {sides : List (Option Value)} {values : List Value}
    (h : compact? sides = some values) :
    ∃ top right bottom left, sides = [some top, some right, some bottom, some left] ∧
      (∀ v ∈ [top, right, bottom, left], ∀ items, v ≠ .series .space items) ∧
      values = shortest top right bottom left := by
  unfold compact? at h
  split at h
  · next top right bottom left =>
      split at h
      · cases h
      · next no_series =>
          refine ⟨top, right, bottom, left, rfl, ?_, (Option.some.inj h).symm⟩
          rintro v hv items rfl
          exact no_series (List.any_eq_true.2 ⟨_, hv, rfl⟩)
  · cases h

theorem shortest_subset (top right bottom left : Value) :
    shortest top right bottom left ⊆ [top, right, bottom, left] := by
  unfold shortest
  split
  · exact List.Subset.refl _
  · split
    · exact (List.take_sublist 3 [top, right, bottom, left]).subset
    · split
      · exact (List.take_sublist 2 [top, right, bottom, left]).subset
      · exact (List.take_sublist 1 [top, right, bottom, left]).subset

/-- The sides that a shorter form leaves out are equal to those they follow. -/
theorem restored {sides : List (Option Value)} {values : List Value}
    (h : compact? sides = some values) :
    ∃ parts, expand? values = some parts ∧ Restored parts sides := by
  obtain ⟨top, right, bottom, left, rfl, flat, rfl⟩ := compact?_eq_some h
  have whole : Value.flattenSpaces (shortest top right bottom left) =
      shortest top right bottom left :=
    Value.flattenSpaces_of_forall fun v hv => flat v (shortest_subset _ _ _ _ hv)
  have found : ∃ a b c d, expand? (shortest top right bottom left) = some [a, b, c, d] ∧
      a.Agrees top ∧ b.Agrees right ∧ c.Agrees bottom ∧ d.Agrees left := by
    rw [expand?, whole, shortest]
    cases sides : right == left with
    | false =>
        exact ⟨top, right, bottom, left, by simp [bne, sides], .refl _, .refl _, .refl _, .refl _⟩
    | true =>
        cases ends : top == bottom with
        | false =>
            exact ⟨top, right, bottom, right, by simp [bne, sides, ends], .refl _, .refl _, .refl _,
              Or.inr sides⟩
        | true =>
            cases all : top == right with
            | false =>
                exact ⟨top, right, top, right, by simp [bne, sides, ends, all], .refl _, .refl _,
                  Or.inr ends, Or.inr sides⟩
            | true =>
                exact ⟨top, top, top, top, by simp [bne, sides, ends, all], .refl _, Or.inr all,
                  Or.inr ends, Or.inr (BEq.trans all sides)⟩
  obtain ⟨a, b, c, d, expanded, ha, hb, hc, hd⟩ := found
  refine ⟨_, expanded, .cons ?_ (.cons ?_ (.cons ?_ (.cons ?_ .nil)))⟩
  · rintro _ ⟨⟩
    exact ha
  · rintro _ ⟨⟩
    exact hb
  · rintro _ ⟨⟩
    exact hc
  · rintro _ ⟨⟩
    exact hd

end Box

/-- Whether the values of the longhands, in their order, fit a kind of shorthand. -/
def Kind.Fits : Kind → List (Option Value) → Prop
  | .background, [color, image, repetition, position, attachment] =>
    Background.Fits color image repetition position attachment
  | .listStyle, [type, position, image] => ListStyle.Fits type position image
  | .font, [style, variant, weight, some size, lineHeight, some family] =>
    Font.Fits style variant weight size lineHeight family
  | _, _ => True

/-- The number of longhands of a shorthand of a kind. -/
def Kind.width : Kind → Nat
  | .border => 3
  | .box => 4
  | .font => 6
  | .background => 5
  | .listStyle => 3

theorem length_longhands : ∀ s ∈ registry, s.longhands.length = s.kind.width := by decide_cbv

/-- Taking a shorthand apart names a value for every longhand. -/
theorem Kind.length_of_expand? {k : Kind} {vs parts : List Value}
    (h : k.expand? vs = some parts) : parts.length = k.width := by
  cases k with
  | border =>
      simp only [expand?, Border.expand?, Option.bind_eq_bind, Option.bind_eq_some_iff] at h
      obtain ⟨-, -, width, -, style, -, color, -, rest⟩ := h
      exact (congrArg List.length (Option.some.inj rest)).symm
  | box =>
      simp only [expand?, Box.expand?] at h
      split at h
      all_goals first
        | exact (congrArg List.length (Option.some.inj h)).symm
        | cases h
  | font =>
      simp only [expand?, Font.expand?, Option.bind_eq_bind, Option.bind_eq_some_iff] at h
      obtain ⟨found, -, -, -, rest⟩ := h
      exact (congrArg List.length (Option.some.inj rest)).symm
  | background =>
      obtain ⟨-, color, image, repetition, attachment, -, -, -, -, rfl⟩ :=
        Background.expand?_eq_some.1 h
      rfl
  | listStyle =>
      obtain ⟨-, -, type, position, image, -, -, -, rfl⟩ := ListStyle.expand?_eq_some.1 h
      rfl

theorem length_of_parts? {s : Shorthand} (hs : s ∈ registry) {vs parts : List Value}
    (h : s.parts? vs = some parts) : parts.length = s.longhands.length := by
  have expanded (h : s.kind.expand? vs = some parts) : parts.length = s.longhands.length := by
    rw [length_longhands s hs, Kind.length_of_expand? h]
  unfold parts? at h
  split at h
  · split at h
    · rw [← Option.some.inj h, List.length_map]
    · exact expanded h
  · exact expanded h

theorem compactPresent?_eq_some {vs : List (Option Value)} {values : List Value}
    (h : compactPresent? vs = some values) : values = vs.filterMap id := by
  simp only [compactPresent?] at h
  split at h
  · cases h
  · exact (Option.some.inj h).symm

theorem Font.exists_of_compact? {vs : List (Option Value)} {values : List Value}
    (h : Font.compact? vs = some values) :
    ∃ style variant weight size lineHeight family,
      vs = [style, variant, weight, some size, lineHeight, some family] ∧
      values = Font.leading style variant weight ++
        [Font.sizeWithHeight size lineHeight, family] := by
  match vs, h with
  | [style, variant, weight, some size, lineHeight, some family], h =>
      exact ⟨style, variant, weight, size, lineHeight, family, rfl, Font.compact?_eq_some h⟩

/-- The values that are put together are read back exactly if they fit. -/
theorem Kind.restored_iff {k : Kind} {vs : List (Option Value)} {values : List Value}
    (width : vs.length = k.width) (h : k.compact? vs = some values) :
    (∃ parts, k.expand? values = some parts ∧ Restored parts vs) ↔ k.Fits vs := by
  cases k with
  | border => cases h
  | box =>
      exact ⟨fun _ => trivial, fun _ => Box.restored h⟩
  | font =>
      obtain ⟨style, variant, weight, size, lineHeight, family, rfl, rfl⟩ :=
        Font.exists_of_compact? h
      exact ⟨fun ⟨_, expanded, restored⟩ => Font.Fits.of_restored expanded restored,
        Font.Fits.restored⟩
  | background =>
      obtain rfl := compactPresent?_eq_some h
      match vs, width with
      | [_, _, _, _, _], _ =>
          exact ⟨fun ⟨_, expanded, restored⟩ => Background.Fits.of_restored expanded restored,
            Background.Fits.restored⟩
  | listStyle =>
      obtain rfl := compactPresent?_eq_some h
      match vs, width with
      | [_, _, _], _ =>
          exact ⟨fun ⟨_, expanded, restored⟩ => ListStyle.Fits.of_restored expanded restored,
            ListStyle.Fits.restored⟩

/-- A shorthand that is written as one value has that value from a longhand. -/
theorem Kind.mem_of_compact? {k : Kind} {vs : List (Option Value)} {v : Value}
    (h : k.compact? vs = some [v]) : some v ∈ vs := by
  have present (h : [v] = vs.filterMap id) : some v ∈ vs := by
    have member : v ∈ vs.filterMap id := h ▸ List.mem_singleton_self v
    simpa using member
  cases k with
  | border => cases h
  | box =>
      obtain ⟨top, right, bottom, left, rfl, -, short⟩ := Box.compact?_eq_some h
      have member := Box.shortest_subset _ _ _ _ (short ▸ List.mem_singleton_self v)
      simpa using member
  | font =>
      obtain ⟨style, variant, weight, size, lineHeight, family, rfl, written⟩ :=
        Font.exists_of_compact? h
      have lengths := congrArg List.length written
      simp only [List.length_append, List.length_cons, List.length_nil] at lengths
      omega
  | background => exact present (compactPresent?_eq_some h)
  | listStyle => exact present (compactPresent?_eq_some h)

/-- Without a global keyword, what is put together is taken apart by the kind. -/
theorem parts?_of_compact? {s : Shorthand} {vs : List (Option Value)} {values : List Value}
    (ordinary : ∀ v, some v ∈ vs → isGlobal v = false) (joined : s.kind.compact? vs = some values) :
    s.parts? values = s.kind.expand? values := by
  unfold parts?
  split
  · next v => rw [if_neg (by simp [ordinary v (Kind.mem_of_compact? joined)])]
  · rfl

theorem restored_const {v : Value} {ps : List String} {vs : List (Option Value)}
    (width : vs.length = ps.length) (h : ∀ w ∈ vs.filterMap id, v.Agrees w) :
    Restored (ps.map fun _ => v) vs := by
  induction ps generalizing vs with
  | nil =>
      rw [List.length_eq_zero_iff.1 width]
      exact .nil
  | cons p ps ih =>
      match vs, width with
      | held :: vs, width =>
          refine .cons ?_ (ih (Nat.succ.inj width) ?_)
          · rintro w rfl
            exact h w (by simp)
          · intro w hw
            apply h w
            cases held with
            | none => exact hw
            | some u => exact List.mem_cons_of_mem _ hw

/-- Global values that are as many as the longhands are all there is. -/
theorem present_eq_globals {vs : List (Option Value)} {first : Value} {others : List Value}
    (globals : (vs.filterMap id).filter isGlobal = first :: others)
    (count : others.length + 1 = vs.length) : vs.filterMap id = first :: others := by
  rw [← globals]
  symm
  apply List.filter_sublist.eq_of_length_le
  rw [globals, List.length_cons, count]
  exact List.length_filterMap_le ..

/-- What a shorthand is put together to is read back exactly if the longhands have a
global keyword or fit. -/
theorem restored_iff {s : Shorthand} (hs : s ∈ registry) {vs : List (Option Value)}
    {values : List Value} (width : vs.length = s.longhands.length)
    (joined : s.join? vs = some values) :
    (∃ parts, s.parts? values = some parts ∧ Restored parts vs) ↔
      (∃ v, some v ∈ vs ∧ isGlobal v = true) ∨ s.kind.Fits vs := by
  unfold join? at joined
  split at joined
  · next none_global =>
      have ordinary : ∀ v, some v ∈ vs → isGlobal v = false := by
        intro v hv
        have := List.filter_eq_nil_iff.1 none_global v (by simpa using hv)
        simpa using this
      rw [parts?_of_compact? ordinary joined,
        Kind.restored_iff (width.trans (length_longhands s hs)) joined]
      refine ⟨Or.inr, ?_⟩
      rintro (⟨v, hv, global⟩ | fits)
      · rw [ordinary v hv] at global
        cases global
      · exact fits
  · next first others globals =>
      split at joined
      · next all =>
          obtain rfl := Option.some.inj joined
          rw [Bool.and_eq_true, decide_eq_true_eq, List.all_eq_true] at all
          obtain ⟨count, same⟩ := all
          have everything := present_eq_globals globals count
          have member : first ∈ (vs.filterMap id).filter isGlobal := by
            rw [globals]
            exact List.mem_cons_self
          obtain ⟨present, global⟩ := List.mem_filter.1 member
          have spread : s.parts? [first] = some (s.longhands.map fun _ => first) := if_pos global
          constructor
          · intro _
            exact Or.inl ⟨first, by simpa using present, global⟩
          · intro _
            refine ⟨_, spread, restored_const width ?_⟩
            intro w hw
            rw [everything] at hw
            rcases List.mem_cons.1 hw with rfl | hw
            · exact .refl w
            · exact Or.inr (BEq.symm (same w hw))
      · cases joined

end Stylesheet.Shorthand
