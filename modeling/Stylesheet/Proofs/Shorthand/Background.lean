import Stylesheet.Proofs.Lists
import Stylesheet.Proofs.Shorthand.Part
import Stylesheet.Proofs.Shorthand.Words
import Stylesheet.Proofs.Value.Series
import Stylesheet.Shorthand.Background

/-!
# Which backgrounds are read back

A background is written as its values one after the other, and read by sorting them by
part. So it is read back exactly if every value belongs to the part it was written
for, where a position may be a series of several values that all do.
-/

namespace Stylesheet.Shorthand.Background

variable {v w : Value} {k : Part}

theorem part?_congr (h : v.Agrees w) : part? v = part? w := by
  simp only [part?, h.isSize_eq, h.isOneOf_eq, h.isImage_eq, h.isColor_eq]

theorem part?_series (s : Separator) (items : List Value) : part? (.series s items) = none := by
  have no_image : isImage (.series s items) = false := rfl
  have no_size : (Value.series s items).isSize = false := rfl
  have no_color : isColor (.series s items) = false := rfl
  simp [part?, no_size, no_image, no_color, Value.isOneOf_series]

/-- A value that belongs to a part is in one piece. -/
theorem ne_space_of_part? (h : part? v = some k) (items : List Value) :
    v ≠ .series .space items := by
  rintro rfl
  rw [part?_series] at h
  cases h

/-- The values of the longhands belong to the parts they are written for. -/
structure Fits (color image repetition position attachment : Option Value) : Prop where
  color : ∀ v ∈ color, part? v = some .color
  image : ∀ v ∈ image, part? v = some .image
  repetition : ∀ v ∈ repetition, part? v = some .repetition
  position : ∀ v ∈ position,
    v.Rejoins ∧ ∀ w ∈ Value.flattenSpaces [v], part? w = some .position
  attachment : ∀ v ∈ attachment, part? v = some .attachment

theorem expand?_eq_some {vs parts : List Value} :
    expand? vs = some parts ↔
      let vs := Value.flattenSpaces vs
      allKnown part? vs = true ∧ ∃ color image repetition attachment,
        single? (.keyword "transparent") (valuesOf part? .color vs) = some color ∧
        single? (.keyword "none") (valuesOf part? .image vs) = some image ∧
        single? (.keyword "repeat") (valuesOf part? .repetition vs) = some repetition ∧
        single? (.keyword "scroll") (valuesOf part? .attachment vs) = some attachment ∧
        parts = [color, image, repetition, position (valuesOf part? .position vs), attachment] := by
  simp only [expand?, Option.bind_eq_bind, Option.bind_eq_some_iff, Option.guard_eq_some']
  constructor
  · rintro ⟨-, known, color, hc, image, hi, repetition, hr, attachment, ha, h⟩
    exact ⟨known, color, image, repetition, attachment, hc, hi, hr, ha, (Option.some.inj h).symm⟩
  · rintro ⟨known, color, image, repetition, attachment, hc, hi, hr, ha, rfl⟩
    exact ⟨(), known, color, hc, image, hi, repetition, hr, attachment, ha, rfl⟩

/-- The values of the position, or the initial ones, are positions. -/
theorem exists_position (vs : List Value) :
    ∃ ws, position (valuesOf part? .position vs) = .joinSpaces ws ∧ ws ≠ [] ∧
      ∀ w ∈ ws, part? w = some .position := by
  by_cases empty : valuesOf part? .position vs = []
  · refine ⟨initialPosition, by rw [position, empty]; rfl, by decide, ?_⟩
    intro w hw
    simp only [initialPosition, List.mem_cons, List.not_mem_nil, or_false, or_self] at hw
    rw [hw]
    decide_cbv
  · refine ⟨_, by rw [position, if_neg (by simpa using empty)], empty, ?_⟩
    intro w hw
    exact (mem_valuesOf.1 hw).2

variable {color image repetition position attachment : Option Value}

/-- What is restored was of the kind of the part that it came back from. -/
theorem Fits.of_restored {vs parts : List Value} (expanded : expand? vs = some parts)
    (restored : Restored parts [color, image, repetition, position, attachment]) :
    Fits color image repetition position attachment := by
  obtain ⟨-, c, i, r, a, hc, hi, hr, ha, rfl⟩ := expand?_eq_some.1 expanded
  obtain ⟨ws, joined, some_left, kinds⟩ := exists_position (Value.flattenSpaces vs)
  rw [joined] at restored
  simp only [Restored, List.forall₂_cons, List.Forall₂.nil, and_true] at restored
  obtain ⟨color, image, repetition, position, attachment⟩ := restored
  have flat : ∀ w ∈ ws, ∀ items, w ≠ .series .space items :=
    fun w hw => ne_space_of_part? (kinds w hw)
  constructor
  case color => exact part?_of_restored part?_congr (by decide +kernel) hc color
  case image => exact part?_of_restored part?_congr (by decide +kernel) hi image
  case repetition => exact part?_of_restored part?_congr (by decide +kernel) hr repetition
  case attachment => exact part?_of_restored part?_congr (by decide +kernel) ha attachment
  case position =>
    intro v hv
    have same := (position v hv).symm
    refine ⟨same.rejoins (Value.rejoins_joinSpaces flat some_left), ?_⟩
    intro w hw
    have pieces := same.forall₂_flattenSpaces
    rw [Value.flattenSpaces_joinSpaces flat] at pieces
    obtain ⟨u, hu, agrees⟩ := exists_of_forall₂ pieces hw
    rw [part?_congr agrees, kinds u hu]

theorem flattenSpaces_of_part? {held : Option Value} (h : ∀ v ∈ held, part? v = some k) :
    Value.flattenSpaces held.toList = held.toList := by
  apply Value.flattenSpaces_of_forall
  intro v hv
  exact ne_space_of_part? (h v (Option.mem_toList.1 hv))

/-- The longhands and the parts they are written for. -/
def slots (color image repetition position attachment : Option Value) :
    List (Part × Option Value) :=
  [(.color, color), (.image, image), (.repetition, repetition), (.position, position),
    (.attachment, attachment)]

theorem Fits.slots (fits : Fits color image repetition position attachment) :
    ∀ slot ∈ slots color image repetition position attachment,
      ∀ w ∈ Value.flattenSpaces slot.2.toList, part? w = some slot.1 := by
  have whole {k : Part} {held : Option Value} (h : ∀ v ∈ held, part? v = some k) :
      ∀ w ∈ Value.flattenSpaces held.toList, part? w = some k := by
    rw [flattenSpaces_of_part? h]
    simpa using h
  simp only [Background.slots, List.forall_mem_cons, List.not_mem_nil, false_implies,
    implies_true, and_true]
  refine ⟨whole fits.color, whole fits.image, whole fits.repetition, ?_, whole fits.attachment⟩
  cases position with
  | none => simp
  | some v => exact (fits.position v rfl).2

theorem position_pieces (h : v.Rejoins) : Background.position (Value.flattenSpaces [v]) = v := by
  have some_left := h.flattenSpaces_ne_nil
  rw [Background.position, if_neg (by simpa using some_left), h.joinSpaces_flattenSpaces]

/-- Values that belong to their parts are all found again, and a part without one has its
initial value. -/
theorem Fits.expand?_present (fits : Fits color image repetition position attachment) :
    expand? ([color, image, repetition, position, attachment].filterMap id) =
      some [color.getD (.keyword "transparent"), image.getD (.keyword "none"),
        repetition.getD (.keyword "repeat"), position.getD (.joinSpaces initialPosition),
        attachment.getD (.keyword "scroll")] := by
  have sorted {k : Part} (held : Option Value)
      (h : (k, held) ∈ Background.slots color image repetition position attachment) :
      valuesOf part? k (Value.flattenSpaces
        ([color, image, repetition, position, attachment].filterMap id)) =
          Value.flattenSpaces held.toList :=
    valuesOf_slots fits.slots (by simp [Background.slots]) h
  have placed : Background.position (Value.flattenSpaces position.toList) =
      position.getD (.joinSpaces initialPosition) := by
    cases position with
    | none => rfl
    | some v => exact position_pieces (fits.position v rfl).1
  refine expand?_eq_some.2 ⟨allKnown_slots fits.slots, color.getD (.keyword "transparent"),
    image.getD (.keyword "none"), repetition.getD (.keyword "repeat"),
    attachment.getD (.keyword "scroll"), ?_, ?_, ?_, ?_, ?_⟩
  · rw [sorted color (by simp [Background.slots]),
      flattenSpaces_of_part? fits.color, single?_toList]
  · rw [sorted image (by simp [Background.slots]),
      flattenSpaces_of_part? fits.image, single?_toList]
  · rw [sorted repetition (by simp [Background.slots]),
      flattenSpaces_of_part? fits.repetition, single?_toList]
  · rw [sorted attachment (by simp [Background.slots]),
      flattenSpaces_of_part? fits.attachment, single?_toList]
  · rw [sorted position (by simp [Background.slots]), placed]

/-- Values that belong to their parts are all restored. -/
theorem Fits.restored (fits : Fits color image repetition position attachment) :
    ∃ parts, expand? ([color, image, repetition, position, attachment].filterMap id) = some parts ∧
      Restored parts [color, image, repetition, position, attachment] :=
  ⟨_, fits.expand?_present, .cons (agrees_getD color _) (.cons (agrees_getD image _)
    (.cons (agrees_getD repetition _) (.cons (agrees_getD position _)
      (.cons (agrees_getD attachment _) .nil))))⟩

end Stylesheet.Shorthand.Background
