import Mathlib
import Stylesheet.Proofs.Color.Keyword
import Stylesheet.Proofs.Shorthand.Completion
import Stylesheet.Proofs.Text.Blank

/-!
# The longhands of a background after compaction and expansion

The color, the image, the repetition, the position and the attachment of a background are
told apart by the kind of each value, in whatever order they are asked for: none of the
words of one part is a word of another one, and no color has one of these words as its
name. So values of their own kinds are put together, and each longhand is found again as
it was; the longhands that were missing have their initial values.
-/

namespace Stylesheet.Shorthand

variable {v w : Value} {words : List String}

/-! ### Words that name no color -/

/-- The words that are colors, in lower case. -/
def colorWords : List String :=
  "transparent" :: "currentcolor" :: colorKeywords.toList.map Prod.fst

/-- The words of a background that are no colors, and the global keywords. -/
def colorlessWords : List String :=
  "none" :: (globalWords ++ (positionWords ++ (repeatWords ++ attachmentWords)))

theorem colorlessWords_apart : ∀ w ∈ colorlessWords.map Text.lower,
    w ∉ colorWords ∧ ∀ c ∈ w.toList, Text.isBlank c = false := by
  have each : (colorlessWords.map Text.lower).all (fun w =>
      decide (w ∉ colorWords) && w.toList.all fun c => !Text.isBlank c) = true := by decide_cbv
  simpa only [List.all_eq_true, Bool.and_eq_true, decide_eq_true_eq, Bool.not_eq_true'] using each

/-- The keyword of a color, in lower case, is one of the words that are colors, unless there
are blanks around it. -/
theorem lower_mem_colorWords {word : String} (h : isColor (.keyword word) = true)
    (solid : ∀ c ∈ (Text.lower word).toList, Text.isBlank c = false) :
    Text.lower word ∈ colorWords := by
  rw [isColor, Bool.or_eq_true] at h
  rcases h with own | named
  · obtain ⟨_, same, member⟩ := Value.isOneOf_iff.1 own
    obtain rfl := Value.keyword.inj same
    have first : ∀ w ∈ ["transparent", "currentcolor"].map Text.lower, w ∈ colorWords := by
      decide_cbv
    exact first _ member
  · obtain ⟨color, found⟩ := Option.isSome_iff_exists.1 named
    obtain ⟨channels, entry, -⟩ := Option.map_eq_some_iff.1 found
    rw [Rgb.ofKeyword?_eq_some_iff, Text.trim_of_not_blank (Text.not_blank_of_lower solid),
      String.ofList_toList] at entry
    refine List.mem_cons_of_mem _ (List.mem_cons_of_mem _ ?_)
    exact List.mem_map.2 ⟨_, Array.mem_def.1 entry, rfl⟩

/-- A color is none of these words. -/
theorem isOneOf_of_isColor (h : isColor v = true) (colorless : words ⊆ colorlessWords) :
    v.isOneOf words = false := by
  rw [Bool.eq_false_iff]
  intro found
  obtain ⟨word, rfl, member⟩ := Value.isOneOf_iff.1 found
  obtain ⟨other, solid⟩ := colorlessWords_apart _ (List.map_subset _ colorless member)
  exact other (lower_mem_colorWords h solid)

theorem isImage_of_isOneOf (h : v.isOneOf words = true) : isImage v = v.isKeyword "none" := by
  obtain ⟨word, rfl, -⟩ := Value.isOneOf_iff.1 h
  rfl

theorem isImage_of_isColor (h : isColor v = true) : isImage v = false := by
  cases v with
  | color c => rfl
  | keyword word =>
      have silent : (Value.keyword word).isOneOf ["none"] = false :=
        isOneOf_of_isColor h (by decide_cbv)
      rwa [Value.isOneOf_singleton] at silent
  | _ => cases h

theorem isSize_of_isColor (h : isColor v = true) : v.isSize = false := by
  cases v with
  | size s => cases h
  | _ => rfl

namespace Background

/-! ### The part of a value of a kind -/

variable {k : Part}

/-- Whether a value may stand in a position. -/
def isPlace (v : Value) : Bool := v.isSize || v.isOneOf positionWords

theorem part?_of_isPlace (h : isPlace v = true) : part? v = some .position := if_pos h

theorem part?_of_isImage (h : isImage v = true) : part? v = some .image := by
  have no_place : isPlace v = false := by
    cases v with
    | call name s arguments => rfl
    | keyword word =>
        have silent : (Value.keyword word).isOneOf ["none"] = true := by
          rwa [Value.isOneOf_singleton]
        have elsewhere : (Value.keyword word).isOneOf positionWords = false :=
          Value.isOneOf_eq_false silent (by decide_cbv)
        rw [isPlace, Value.isSize_of_isOneOf silent, elsewhere, Bool.or_self]
    | _ => cases h
  rw [isPlace] at no_place
  simp [part?, no_place, h]

theorem part?_of_repetition (h : v.isOneOf repeatWords = true) : part? v = some .repetition := by
  have no_place : v.isOneOf positionWords = false := Value.isOneOf_eq_false h (by decide_cbv)
  have no_image : isImage v = false := by
    rw [isImage_of_isOneOf h, Value.isKeyword_eq_false h (by decide_cbv)]
  simp [part?, Value.isSize_of_isOneOf h, no_place, no_image, h]

theorem part?_of_attachment (h : v.isOneOf attachmentWords = true) :
    part? v = some .attachment := by
  have no_place : v.isOneOf positionWords = false := Value.isOneOf_eq_false h (by decide_cbv)
  have no_image : isImage v = false := by
    rw [isImage_of_isOneOf h, Value.isKeyword_eq_false h (by decide_cbv)]
  have no_repetition : v.isOneOf repeatWords = false := Value.isOneOf_eq_false h (by decide_cbv)
  simp [part?, Value.isSize_of_isOneOf h, no_place, no_image, no_repetition, h]

theorem part?_of_isColor (h : isColor v = true) : part? v = some .color := by
  have no_place : v.isOneOf positionWords = false := isOneOf_of_isColor h (by decide_cbv)
  have no_repetition : v.isOneOf repeatWords = false := isOneOf_of_isColor h (by decide_cbv)
  have no_attachment : v.isOneOf attachmentWords = false := isOneOf_of_isColor h (by decide_cbv)
  simp [part?, isSize_of_isColor h, no_place, isImage_of_isColor h, no_repetition, no_attachment, h]

/-- A global keyword belongs to no part. -/
theorem part?_of_isGlobal (h : isGlobal v = true) : part? v = none := by
  have no_place : v.isOneOf positionWords = false := Value.isOneOf_eq_false h (by decide_cbv)
  have no_image : isImage v = false := by
    rw [isImage_of_isOneOf h, Value.isKeyword_eq_false h (by decide_cbv)]
  have no_repetition : v.isOneOf repeatWords = false := Value.isOneOf_eq_false h (by decide_cbv)
  have no_attachment : v.isOneOf attachmentWords = false :=
    Value.isOneOf_eq_false h (by decide_cbv)
  have no_color : isColor v = false := by
    rw [Bool.eq_false_iff]
    intro color
    rw [isGlobal, isOneOf_of_isColor color (by decide_cbv)] at h
    cases h
  simp [part?, Value.isSize_of_isOneOf h, no_place, no_image, no_repetition, no_attachment,
    no_color]

/-! ### Values of their own kinds -/

/-- Whether the values of the longhands are of their own kinds: a color, an image or `none`,
a word for the repetition and for the attachment, and for the position one or more sizes or
words for places. -/
structure OwnKinds (color image repetition position attachment : Option Value) : Prop where
  color : ∀ v ∈ color, isColor v = true
  image : ∀ v ∈ image, isImage v = true
  repetition : ∀ v ∈ repetition, v.isOneOf repeatWords = true
  position : ∀ v ∈ position,
    ∃ places, v = .joinSpaces places ∧ places ≠ [] ∧ ∀ w ∈ places, isPlace w = true
  attachment : ∀ v ∈ attachment, v.isOneOf attachmentWords = true

variable {color image repetition position attachment : Option Value}

theorem OwnKinds.fits (kinds : OwnKinds color image repetition position attachment) :
    Fits color image repetition position attachment where
  color v hv := part?_of_isColor (kinds.color v hv)
  image v hv := part?_of_isImage (kinds.image v hv)
  repetition v hv := part?_of_repetition (kinds.repetition v hv)
  attachment v hv := part?_of_attachment (kinds.attachment v hv)
  position v hv := by
    obtain ⟨places, rfl, some_left, all⟩ := kinds.position v hv
    have flat : ∀ w ∈ places, ∀ items, w ≠ .series .space items :=
      fun w hw => ne_space_of_part? (part?_of_isPlace (all w hw))
    refine ⟨Value.rejoins_joinSpaces flat some_left, ?_⟩
    rw [Value.flattenSpaces_joinSpaces flat]
    exact fun w hw => part?_of_isPlace (all w hw)

/-- The pieces of a value that fits belong to one part. -/
theorem Fits.exists_part (fits : Fits color image repetition position attachment)
    (hv : some v ∈ [color, image, repetition, position, attachment]) :
    ∃ k, ∀ w ∈ Value.flattenSpaces [v], part? w = some k := by
  have longhands : [color, image, repetition, position, attachment] =
      (Background.slots color image repetition position attachment).map Prod.snd := rfl
  rw [longhands] at hv
  obtain ⟨⟨k, held⟩, member, rfl⟩ := List.mem_map.1 hv
  exact ⟨k, fits.slots _ member⟩

/-- A value that is no series of spaces is its only piece. -/
theorem part?_of_pieces (pieces : ∀ w ∈ Value.flattenSpaces [v], part? w = some k)
    (whole : ∀ items, v ≠ .series .space items) : part? v = some k := by
  rw [Value.flattenSpaces_singleton whole] at pieces
  exact pieces v (List.mem_singleton_self v)

theorem Fits.avoidsGlobal (fits : Fits color image repetition position attachment) :
    AvoidsGlobal [color, image, repetition, position, attachment] := by
  intro v hv
  obtain ⟨k, pieces⟩ := fits.exists_part hv
  rw [Bool.eq_false_iff]
  intro global
  have known := part?_of_pieces pieces (by
    rintro items rfl
    rw [isGlobal, Value.isOneOf_series] at global
    cases global)
  rw [part?_of_isGlobal global] at known
  cases known

theorem Fits.accepts (fits : Fits color image repetition position attachment) :
    Kind.background.Accepts [color, image, repetition, position, attachment] := by
  intro v hv
  obtain ⟨k, pieces⟩ := fits.exists_part hv
  cases v with
  | series s items =>
      cases s with
      | space => rfl
      | comma | slash =>
          have known := part?_of_pieces pieces nofun
          rw [part?_series] at known
          cases known
  | _ => rfl

end Background

/-! ### The main result -/

variable {ds : List Declaration} {important : Bool}
  {color image repetition position attachment : Option Value}

/-- Longhands of a background with values of their own kinds come back with these values and
their importance, and the missing ones have their initial values. -/
theorem background_completed (declared : background.PartlyDeclared ds important)
    (held : background.held ds = [color, image, repetition, position, attachment])
    (kinds : Background.OwnKinds color image repetition position attachment) :
    background.Declares (expand (compact ds))
      [color.getD (.keyword "transparent"), image.getD (.keyword "none"),
        repetition.getD (.keyword "repeat"),
        position.getD (.series .space [.size (.percent 0), .size (.percent 0)]),
        attachment.getD (.keyword "scroll")] important := by
  have fits := kinds.fits
  apply declared.declares (by decide) (isTopmost _ (by simp))
  · rw [held]
    exact fits.avoidsGlobal
  · rw [held]
    exact fits.accepts
  · rw [held]
    exact fits.expand?_present

/-- A color in a letter case of its own and a position of two values, both important, with a
border between them, are completed by the image, the repetition and the attachment. -/
theorem color_and_position_completed :
    let place : Value := .size (.ofNumber 10 (some "px"))
    let ds : List Declaration :=
      [⟨"background-position", [.keyword "Left", place], true⟩,
        ⟨"border", [.keyword "thin"], false⟩,
        ⟨"background-color", [.keyword "RebeccaPurple"], true⟩]
    let color : Option Value := some (.keyword "RebeccaPurple")
    let position : Option Value := some (.series .space [.keyword "Left", place])
    background.PartlyDeclared ds true ∧ background.held ds = [color, none, none, position, none] ∧
      Background.OwnKinds color none none position none ∧
      background.Declares (expand (compact ds))
        [.keyword "RebeccaPurple", .keyword "none", .keyword "repeat",
          .series .space [.keyword "Left", place], .keyword "scroll"] true := by
  intro place ds color position
  have declared : background.PartlyDeclared ds true := by
    constructor <;> decide_cbv
  have held : background.held ds = [color, none, none, position, none] := rfl
  have kinds : Background.OwnKinds color none none position none := by
    refine ⟨?_, by simp, by simp, ?_, by simp⟩
    · intro v hv
      rw [← Option.some.inj hv]
      decide +kernel
    · intro v hv
      rw [← Option.some.inj hv]
      exact ⟨[.keyword "Left", place], rfl, by decide, by decide_cbv⟩
  exact ⟨declared, held, kinds, background_completed declared held kinds⟩

end Stylesheet.Shorthand
