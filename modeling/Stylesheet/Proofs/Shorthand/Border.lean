import Mathlib
import Stylesheet.Proofs.Shorthand.Part
import Stylesheet.Proofs.Shorthand.Words
import Stylesheet.Shorthand.Border

/-!
# What a border is taken apart to

A value that belongs to a part of a border is a size, a keyword or a color, and so is
the initial value of every part. None of them is a series.
-/

namespace Stylesheet.Shorthand.Border

variable {v : Value} {k : Part}

theorem part?_series (s : Separator) (items : List Value) : part? (.series s items) = none := by
  have no_size : (Value.series s items).isSize = false := rfl
  have no_color : isColor (.series s items) = false := rfl
  simp [part?, no_size, no_color, Value.isOneOf_series]

theorem ne_series_of_part? (h : part? v = some k) (s : Separator) (items : List Value) :
    v ≠ .series s items := by
  rintro rfl
  rw [part?_series] at h
  cases h

theorem expand?_eq_some {vs parts : List Value} :
    expand? vs = some parts ↔
      let vs := Value.flattenSpaces vs
      allKnown part? vs = true ∧ ∃ width style color,
        single? (.keyword "medium") (valuesOf part? .width vs) = some width ∧
        single? (.keyword "none") (valuesOf part? .style vs) = some style ∧
        single? (.keyword "currentcolor") (valuesOf part? .color vs) = some color ∧
        parts = [width, style, color] := by
  simp only [expand?, Option.bind_eq_bind, Option.bind_eq_some_iff, Option.guard_eq_some']
  constructor
  · rintro ⟨-, known, width, hw, style, hs, color, hc, h⟩
    exact ⟨known, width, style, color, hw, hs, hc, (Option.some.inj h).symm⟩
  · rintro ⟨known, width, style, color, hw, hs, hc, rfl⟩
    exact ⟨(), known, width, hw, style, hs, color, hc, rfl⟩

/-- A border is taken apart to a width, a style and a color. -/
theorem part?_of_expand? {vs parts : List Value} (h : expand? vs = some parts) :
    ∃ width style color, parts = [width, style, color] ∧
      part? width = some .width ∧ part? style = some .style ∧ part? color = some .color := by
  obtain ⟨-, width, style, color, hw, hs, hc, rfl⟩ := expand?_eq_some.1 h
  refine ⟨width, style, color, rfl, ?_, ?_, ?_⟩
  · exact part?_of_single? (by decide +kernel) hw
  · exact part?_of_single? (by decide +kernel) hs
  · exact part?_of_single? (by decide +kernel) hc

/-- So no part of a border is a series. -/
theorem ne_series_of_expand? {vs parts : List Value} (h : expand? vs = some parts) {v : Value}
    (hv : v ∈ parts) (separator : Separator) (items : List Value) :
    v ≠ .series separator items := by
  obtain ⟨width, style, color, rfl, hw, hs, hc⟩ := part?_of_expand? h
  simp only [List.mem_cons, List.not_mem_nil, or_false] at hv
  rcases hv with rfl | rfl | rfl
  · exact ne_series_of_part? hw separator items
  · exact ne_series_of_part? hs separator items
  · exact ne_series_of_part? hc separator items

end Stylesheet.Shorthand.Border
