import Mathlib
import Stylesheet.Proofs.Shorthand.Completion

/-!
# The longhands of a list style after compaction and expansion

A type, a marker position and an image of their own kinds are put together, and each is
found again as it was, with the keyword `none` in lower case. A missing longhand has its
initial value, with one exception. A list style with the single keyword `none` has that
for its type, so where only the image is `none`, and no type is declared, the type becomes
`none` as well: the markers disappear.
-/

namespace Stylesheet.Shorthand

variable {v : Value} {ds : List Declaration} {important : Bool} {type position image : Option Value}

namespace ListStyle

/-! ### Values of their own kinds -/

/-- Whether the values of the longhands are of their own kinds: for the type a quoted text or
a keyword that is neither a marker position nor global, for the position a marker position,
and for the image a function call or `none`. -/
structure OwnKinds (type position image : Option Value) : Prop where
  type : ∀ v ∈ type, (∃ text, v = .quoted text) ∨
    (∃ word, v = .keyword word) ∧ v.isOneOf markerPositionWords = false ∧ isGlobal v = false
  position : ∀ v ∈ position, v.isOneOf markerPositionWords = true
  image : ∀ v ∈ image, (∃ name s arguments, v = .call name s arguments) ∨
    v.isKeyword "none" = true

theorem part?_of_isKeyword_none (h : v.isKeyword "none" = true) : part? v = some .absent :=
  if_pos h

theorem isGlobal_of_isKeyword_none (h : v.isKeyword "none" = true) : isGlobal v = false := by
  rw [← Value.isOneOf_singleton] at h
  exact Value.isOneOf_eq_false h (by decide_cbv)

namespace OwnKinds

variable (kinds : OwnKinds type position image)

include kinds

theorem reads : Reads type position image where
  type v hv := by
    rcases kinds.type v hv with ⟨text, rfl⟩ | ⟨⟨word, rfl⟩, elsewhere, -⟩
    · exact Or.inl rfl
    · cases said : (Value.keyword word).isKeyword "none" with
      | true => exact Or.inr (part?_of_isKeyword_none said)
      | false => exact Or.inl (by simp [part?, said, elsewhere])
  position v hv := by
    have own := kinds.position v hv
    have silent : v.isKeyword "none" = false := Value.isKeyword_eq_false own (by decide_cbv)
    simp [part?, silent, own]
  image v hv := by
    rcases kinds.image v hv with ⟨name, s, arguments, rfl⟩ | said
    · exact Or.inl rfl
    · exact Or.inr (part?_of_isKeyword_none said)

theorem avoidsGlobal : AvoidsGlobal [type, position, image] := by
  intro v hv
  simp only [List.mem_cons, List.not_mem_nil, or_false] at hv
  rcases hv with hv | hv | hv
  · rcases kinds.type v hv.symm with ⟨text, rfl⟩ | ⟨-, -, ordinary⟩
    · rfl
    · exact ordinary
  · exact Value.isOneOf_eq_false (kinds.position v hv.symm) (by decide_cbv)
  · rcases kinds.image v hv.symm with ⟨name, s, arguments, rfl⟩ | said
    · rfl
    · exact isGlobal_of_isKeyword_none said

theorem accepts : Kind.listStyle.Accepts [type, position, image] := by
  intro v hv
  obtain ⟨k, known⟩ := kinds.reads.exists_part hv
  cases v with
  | series s items =>
      rw [part?_series] at known
      cases known
  | _ => rfl

/-- What is read of the values that were written for the longhands. -/
theorem declares (declared : listStyle.PartlyDeclared ds important)
    (held : listStyle.held ds = [type, position, image]) :
    listStyle.Declares (expand (compact ds))
      [typeRead type image, position.getD (.keyword "outside"), imageRead image] important := by
  apply declared.declares (by decide) (isTopmost _ (by simp))
  · rw [held]
    exact kinds.avoidsGlobal
  · rw [held]
    exact kinds.accepts
  · rw [held]
    exact kinds.reads.expand?_present

end OwnKinds

theorem typeRead_of_image_none (absent : type = none)
    (said : ∃ v ∈ image, v.isKeyword "none" = true) : typeRead type image = .keyword "none" := by
  obtain ⟨v, rfl, said⟩ := said
  simp [typeRead, absent, said]

theorem typeRead_eq_iff :
    typeRead type image = (type.map (·.respelled "none")).getD (.keyword "disc") ↔
      ¬ (type = none ∧ ∃ v ∈ image, v.isKeyword "none" = true) := by
  cases type with
  | some v => simp [typeRead]
  | none => cases image <;> simp [typeRead]

end ListStyle

/-! ### The main result -/

/-- Longhands of a list style with values of their own kinds come back with these values,
`none` in lower case, and their importance, and the missing ones have their initial values,
unless the type is missing and the image is `none`: then the type is `none` instead of a
disc. -/
theorem list_style_completed_iff (declared : listStyle.PartlyDeclared ds important)
    (held : listStyle.held ds = [type, position, image])
    (kinds : ListStyle.OwnKinds type position image) :
    (listStyle.Declares (expand (compact ds))
        [(type.map (·.respelled "none")).getD (.keyword "disc"),
          position.getD (.keyword "outside"),
          (image.map (·.respelled "none")).getD (.keyword "none")] important ↔
      ¬ (type = none ∧ ∃ v ∈ image, v.isKeyword "none" = true)) ∧
    (type = none → (∃ v ∈ image, v.isKeyword "none" = true) →
      listStyle.Declares (expand (compact ds))
        [.keyword "none", position.getD (.keyword "outside"), .keyword "none"] important) := by
  have found := kinds.declares declared held
  constructor
  · rw [← ListStyle.typeRead_eq_iff]
    constructor
    · intro completed
      exact (List.cons.inj (found.unique completed)).1
    · intro same
      rw [← same]
      exact found
  · intro absent said
    rw [ListStyle.typeRead_of_image_none absent said] at found
    obtain ⟨v, rfl, said⟩ := said
    rwa [ListStyle.imageRead, Option.map_some, Value.respelled_of_isKeyword said] at found

/-- A quoted marker and an image `none` in capital letters, both important, are completed by
the position. -/
theorem marker_and_image_completed :
    let ds : List Declaration :=
      [⟨"list-style-image", [.keyword "NONE"], true⟩, ⟨"color", [.keyword "red"], false⟩,
        ⟨"list-style-type", [.quoted "- "], true⟩]
    let type : Option Value := some (.quoted "- ")
    let image : Option Value := some (.keyword "NONE")
    listStyle.PartlyDeclared ds true ∧ listStyle.held ds = [type, none, image] ∧
      ListStyle.OwnKinds type none image ∧
      listStyle.Declares (expand (compact ds))
        [.quoted "- ", .keyword "outside", .keyword "none"] true := by
  intro ds type image
  have unmarked : (Value.keyword "NONE").isKeyword "none" = true := by decide_cbv
  have spoken : (Value.quoted "- ").isKeyword "none" = false := rfl
  have declared : listStyle.PartlyDeclared ds true := by
    constructor <;> decide_cbv
  have held : listStyle.held ds = [type, none, image] := rfl
  have kinds : ListStyle.OwnKinds type none image := by
    refine ⟨?_, by simp, ?_⟩
    · intro v hv
      rw [← Option.some.inj hv]
      exact Or.inl ⟨"- ", rfl⟩
    · intro v hv
      rw [← Option.some.inj hv]
      exact Or.inr unmarked
  have present : ¬ (type = none ∧ ∃ v ∈ image, v.isKeyword "none" = true) := by
    rintro ⟨absent, -⟩
    exact Option.some_ne_none _ absent
  refine ⟨declared, held, kinds, ?_⟩
  have completed := (list_style_completed_iff declared held kinds).1.2 present
  rwa [Option.map_some, Option.map_some, Value.respelled_of_isKeyword unmarked,
    Value.respelled_of_not_isKeyword spoken] at completed

/-- An image that is declared as `none`, as it is initially, takes the markers away: the type
is no disc. -/
theorem image_none_clears_type :
    let ds : List Declaration := [⟨"list-style-image", [.keyword "none"], false⟩]
    let image : Option Value := some (.keyword "none")
    listStyle.PartlyDeclared ds false ∧ listStyle.held ds = [none, none, image] ∧
      ListStyle.OwnKinds none none image ∧
      ((Declaration.last? "list-style-type" (expand (compact ds))).bind Declaration.value?).any
        (·.isKeyword "none") = true ∧
      ¬ listStyle.Declares (expand (compact ds))
        [.keyword "disc", .keyword "outside", .keyword "none"] false := by
  intro ds image
  have cleared : ((Declaration.last? "list-style-type" (expand (compact ds))).bind
      Declaration.value?).any (·.isKeyword "none") = true := by decide +kernel
  have kinds : ListStyle.OwnKinds none none image := by
    refine ⟨by simp, by simp, ?_⟩
    intro v hv
    rw [← Option.some.inj hv]
    exact Or.inr (by decide_cbv)
  refine ⟨?_, rfl, kinds, cleared, ?_⟩
  · constructor <;> decide_cbv
  · intro completed
    obtain ⟨only, -⟩ := List.forall₂_cons.1 completed
    have disc : (Value.keyword "disc").isKeyword "none" = false := by decide_cbv
    rw [Declaration.last?_eq_getLast?, only] at cleared
    exact Bool.false_ne_true (disc.symm.trans cleared)

end Stylesheet.Shorthand
