import Stylesheet.Proofs.Shorthand.Part
import Stylesheet.Proofs.Shorthand.Words
import Stylesheet.Shorthand.ListStyle

/-!
# Which list styles are read back

A list style is read by sorting its values by part, except that the keyword `none`
stands for the type or the image. Where it was written for one of them it is read back
as that one, or as both, and the other is then open or `none` as well. It is read back
in lower case, so no other spelling of it is restored.
-/

namespace Stylesheet.Shorthand.ListStyle

variable {v w : Value} {k : Part}

theorem part?_congr (h : v.Agrees w) : part? v = part? w := by
  simp only [part?, h.isKeyword_eq, h.isOneOf_eq]
  apply h.congr
  intro same
  cases v <;> cases w <;> simp_all [Value.same]

theorem part?_none : part? (.keyword "none") = some .absent := by decide_cbv

theorem isKeyword_none (v : Value) : v.isKeyword "none" = decide (part? v = some .absent) := by
  cases said : v.isKeyword "none" with
  | true => simp [part?, said]
  | false =>
      simp only [part?, said]
      split
      · next absent => cases absent
      · split
        · rfl
        · split <;> rfl

theorem part?_series (s : Separator) (items : List Value) : part? (.series s items) = none := by
  simp [part?, Value.isOneOf_series, ← Value.isOneOf_singleton]

theorem ne_space_of_part? (h : part? v = some k) (items : List Value) :
    v ≠ .series .space items := by
  rintro rfl
  rw [part?_series] at h
  cases h

/-- The values of the longhands belong to the parts they are written for, where the
type and the image may be `none`. -/
structure Fits (type position image : Option Value) : Prop where
  type : ∀ v ∈ type, part? v = some .type ∨ v = .keyword "none"
  position : ∀ v ∈ position, part? v = some .position
  image : ∀ v ∈ image, part? v = some .image ∨ v = .keyword "none"

theorem expand?_eq_some {vs parts : List Value} :
    expand? vs = some parts ↔
      let vs := Value.flattenSpaces vs
      let nones := (valuesOf part? .absent vs).length
      allKnown part? vs = true ∧
        nones + (valuesOf part? .type vs).length + (valuesOf part? .image vs).length ≤ 2 ∧
        ∃ type position image,
          single? (.keyword (if nones = 0 then "disc" else "none")) (valuesOf part? .type vs) =
            some type ∧
          single? (.keyword "outside") (valuesOf part? .position vs) = some position ∧
          single? (.keyword "none") (valuesOf part? .image vs) = some image ∧
          parts = [type, position, image] := by
  simp only [expand?, Option.bind_eq_bind, Option.bind_eq_some_iff, Option.guard_eq_some']
  constructor
  · rintro ⟨-, known, -, few, type, ht, position, hp, image, hi, h⟩
    exact ⟨known, few, type, position, image, ht, hp, hi, (Option.some.inj h).symm⟩
  · rintro ⟨known, few, type, position, image, ht, hp, hi, rfl⟩
    exact ⟨(), known, (), few, type, ht, position, hp, image, hi, rfl⟩

variable {type position image : Option Value}

/-- What is restored was of the kind of the part that it came back from, or `none`. -/
theorem Fits.of_restored {vs parts : List Value} (expanded : expand? vs = some parts)
    (restored : Restored parts [type, position, image]) : Fits type position image := by
  obtain ⟨-, -, t, p, i, ht, hp, hi, rfl⟩ := expand?_eq_some.1 expanded
  simp only [Restored, List.forall₂_cons, List.Forall₂.nil, and_true] at restored
  obtain ⟨type, position, image⟩ := restored
  constructor
  case type =>
    intro v hv
    have same := type v hv
    rcases eq_initial_or_mem_of_single? ht with rfl | member
    · split at same
      · left
        rw [← part?_congr same]
        decide +kernel
      · exact Or.inr same.symm.eq_keyword
    · left
      rw [← part?_congr same]
      exact (mem_valuesOf.1 member).2
  case position =>
    exact part?_of_restored part?_congr (by decide +kernel) hp position
  case image =>
    intro v hv
    have same := image v hv
    rcases eq_initial_or_mem_of_single? hi with rfl | member
    · exact Or.inr same.symm.eq_keyword
    · left
      rw [← part?_congr same]
      exact (mem_valuesOf.1 member).2

/-- The values of the longhands are read for the parts they are written for, where `none`,
in any letter case, may stand for the type and the image. -/
structure Reads (type position image : Option Value) : Prop where
  type : ∀ v ∈ type, part? v = some .type ∨ part? v = some .absent
  position : ∀ v ∈ position, part? v = some .position
  image : ∀ v ∈ image, part? v = some .image ∨ part? v = some .absent

/-- The type that is read where this type and this image are written: a `none` stands for
the type first. -/
def typeRead (type image : Option Value) : Value :=
  (type.map (·.respelled "none")).getD
    (.keyword (if image.any (·.isKeyword "none") then "none" else "disc"))

/-- The image that is read where this image is written. -/
def imageRead (image : Option Value) : Value :=
  (image.map (·.respelled "none")).getD (.keyword "none")

theorem Reads.exists_part (reads : Reads type position image)
    (hv : some v ∈ [type, position, image]) : ∃ k, part? v = some k := by
  simp only [List.mem_cons, List.not_mem_nil, or_false] at hv
  rcases hv with hv | hv | hv
  · exact (reads.type v hv.symm).elim (⟨_, ·⟩) (⟨_, ·⟩)
  · exact ⟨_, reads.position v hv.symm⟩
  · exact (reads.image v hv.symm).elim (⟨_, ·⟩) (⟨_, ·⟩)

/-- Values that are read for their parts are in one piece each. -/
theorem Reads.flattenSpaces (reads : Reads type position image) :
    Value.flattenSpaces ([type, position, image].filterMap id) =
      type.toList ++ (position.toList ++ image.toList) := by
  have present : [type, position, image].filterMap id =
      type.toList ++ (position.toList ++ image.toList) := by
    cases type <;> cases position <;> cases image <;> rfl
  rw [← present]
  apply Value.flattenSpaces_of_forall
  intro v hv
  obtain ⟨k, known⟩ := reads.exists_part (by simpa using hv)
  exact ne_space_of_part? known

theorem cases_of_reads {held : Option Value}
    (h : ∀ v ∈ held, part? v = some k ∨ part? v = some .absent) :
    held = none ∨ (∃ v, held = some v ∧ part? v = some k) ∨
      ∃ v, held = some v ∧ part? v = some .absent := by
  cases held with
  | none => exact Or.inl rfl
  | some v =>
      rcases h v rfl with kind | absent
      · exact Or.inr (Or.inl ⟨v, rfl, kind⟩)
      · exact Or.inr (Or.inr ⟨v, rfl, absent⟩)

/-- Values that are read for their parts are all found again, and a part without one has
its initial value, except for a type where the image is `none`. -/
theorem Reads.expand?_present (reads : Reads type position image) :
    expand? ([type, position, image].filterMap id) =
      some [typeRead type image, position.getD (.keyword "outside"), imageRead image] := by
  have hp : ∀ v ∈ position.toList, part? v = some .position := by simpa using reads.position
  simp only [expand?_eq_some, reads.flattenSpaces, valuesOf_append, allKnown_append,
    valuesOf_eq_self hp, allKnown_of_forall hp,
    valuesOf_eq_nil hp (show Part.position ≠ .absent by decide),
    valuesOf_eq_nil hp (show Part.position ≠ .type by decide),
    valuesOf_eq_nil hp (show Part.position ≠ .image by decide)]
  -- neither the type nor the image, either of its kind or `none`, is read for another part
  rcases cases_of_reads reads.type with rfl | ⟨t, rfl, ht⟩ | ⟨t, rfl, ht⟩ <;>
    rcases cases_of_reads reads.image with rfl | ⟨i, rfl, hi⟩ | ⟨i, rfl, hi⟩ <;>
      simp [valuesOf, allKnown, typeRead, imageRead, Value.respelled, isKeyword_none, *]

theorem Fits.reads (fits : Fits type position image) : Reads type position image := by
  have open_or_none {k : Part} {held : Option Value}
      (h : ∀ v ∈ held, part? v = some k ∨ v = .keyword "none") :
      ∀ v ∈ held, part? v = some k ∨ part? v = some .absent := by
    intro v hv
    rcases h v hv with kind | rfl
    · exact Or.inl kind
    · exact Or.inr part?_none
  exact ⟨open_or_none fits.type, fits.position, open_or_none fits.image⟩

/-- Values that fit are all restored. -/
theorem Fits.restored (fits : Fits type position image) :
    ∃ parts, expand? ([type, position, image].filterMap id) = some parts ∧
      Restored parts [type, position, image] := by
  have same {k : Part} (other : k ≠ .absent) {held : Option Value}
      (h : ∀ v ∈ held, part? v = some k ∨ v = .keyword "none") (initial : Value) :
      ∀ v ∈ held, ((held.map (·.respelled "none")).getD initial).Agrees v := by
    rintro v rfl
    apply Value.agrees_respelled
    intro said
    rcases h v rfl with kind | rfl
    · simp [isKeyword_none, kind, other] at said
    · rfl
  have type_same := same (show Part.type ≠ .absent by decide) fits.type
  have image_same := same (show Part.image ≠ .absent by decide) fits.image
  exact ⟨_, fits.reads.expand?_present, .cons (type_same _)
    (.cons (agrees_getD position _) (.cons (image_same _) .nil))⟩

end Stylesheet.Shorthand.ListStyle
