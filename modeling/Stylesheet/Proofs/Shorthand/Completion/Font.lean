import Mathlib
import Stylesheet.Proofs.Shorthand.Completion

/-!
# The longhands of a font after compaction and expansion

A font leaves out what is `normal`, joins the size with a line height that is not, and ends
in the family, whatever its shape. A reader that takes the leading values one by one finds
the size behind them, because a size that stands alone is none of them, and so it finds all
longhands as they were, with the keyword `normal` in lower case. A missing longhand is
`normal`.
-/

namespace Stylesheet.Shorthand

variable {ds : List Declaration} {important : Bool}
  {style variant weight lineHeight : Option Value} {size family : Value}

namespace Font

/-- Whether the values of the longhands are of their own kinds: each leading value is a word
of its longhand, a weight or `normal`; only the family may have layers, and it is no series
of spaces with fewer than two members. The size is told from the leading values by a line
height that is not `normal`, or because it is a size that is no weight or a word for a
size. -/
structure OwnKinds (style variant weight : Option Value) (size : Value)
    (lineHeight : Option Value) (family : Value) : Prop where
  style : ∀ v ∈ style, v.isKeyword "normal" = true ∨ v.isOneOf fontStyleWords = true
  variant : ∀ v ∈ variant, v.isKeyword "normal" = true ∨ v.isKeyword "small-caps" = true
  weight : ∀ v ∈ weight, v.isKeyword "normal" = true ∨ isFontWeight v = true
  unlayeredSize : isLayered size = false
  unlayeredHeight : ∀ v ∈ lineHeight, isLayered v = false
  known : (∃ v ∈ lineHeight, v.isKeyword "normal" = false) ∨
    size.isSize = true ∧ isFontWeight size = false ∨ size.isOneOf fontSizeWords = true
  family : family.Rejoins

theorem isFontWeight_of_isOneOf {v : Value} (h : v.isOneOf fontSizeWords = true) :
    isFontWeight v = false := by
  rw [Bool.eq_false_iff]
  intro weight
  rw [isOneOf_of_isFontWeight weight (by decide_cbv)] at h
  cases h

namespace OwnKinds

variable (kinds : OwnKinds style variant weight size lineHeight family)

include kinds

theorem reads : LeadReads style variant weight where
  style _ h := kind_of_mem_written kinds.style h
  variant _ h := kind_of_mem_written kinds.variant h
  weight _ h := kind_of_mem_written kinds.weight h

/-- A leading value is taken as one, whether it is written or left out. -/
theorem leads {v : Value} (hv : some v ∈ [style, variant, weight]) : Font.leads v = true := by
  simp only [List.mem_cons, List.not_mem_nil, or_false] at hv
  simp only [Font.leads, Bool.or_eq_true]
  rcases hv with hv | hv | hv
  · exact Or.inl (Or.inl (kinds.style v hv.symm))
  · rcases kinds.variant v hv.symm with said | own
    · exact Or.inl (Or.inl (Or.inl said))
    · exact Or.inl (Or.inr own)
  · rcases kinds.weight v hv.symm with said | own
    · exact Or.inl (Or.inl (Or.inl said))
    · exact Or.inr own

theorem accepts :
    Kind.font.Accepts [style, variant, weight, some size, lineHeight, some family] := by
  refine ⟨_, _, _, _, _, _, rfl, ?_⟩
  intro v hv
  have cases_of : some v ∈ [style, variant, weight] ∨ some v = some size ∨ some v = lineHeight := by
    simpa [or_assoc] using hv
  rcases cases_of with leading | own | own
  · exact isLayered_of_leads (kinds.leads leading)
  · rw [Option.some.inj own]
    exact kinds.unlayeredSize
  · exact kinds.unlayeredHeight v own.symm

theorem known_alone : (∃ v ∈ lineHeight, v.isKeyword "normal" = false) ∨
    (size.isSize || size.isOneOf fontSizeWords) = true ∧ isFontWeight size = false := by
  rcases kinds.known with slash | ⟨number, no_weight⟩ | word
  · exact Or.inl slash
  · exact Or.inr ⟨by rw [number, Bool.true_or], no_weight⟩
  · exact Or.inr ⟨by rw [word, Bool.or_true], isFontWeight_of_isOneOf word⟩

end OwnKinds

end Font

/-! ### The main result -/

/-- A size and a family, and further longhands of a font, with values of their own kinds, none
of them a global keyword, come back with these values, `normal` in lower case, and their
importance, and the missing ones are `normal`. -/
theorem font_completed (declared : font.PartlyDeclared ds important)
    (held : font.held ds = [style, variant, weight, some size, lineHeight, some family])
    (ordinary : AvoidsGlobal (font.held ds))
    (kinds : Font.OwnKinds style variant weight size lineHeight family) :
    font.Declares (expand (compact ds))
      [(style.map (·.respelled "normal")).getD Font.normal,
        (variant.map (·.respelled "normal")).getD Font.normal,
        (weight.map (·.respelled "normal")).getD Font.normal, size,
        (lineHeight.map (·.respelled "normal")).getD Font.normal, family] important := by
  apply declared.declares (by decide) (isTopmost _ (by simp)) ordinary
  · rw [held]
    exact kinds.accepts
  · rw [held, ← Font.getD_written_eq, ← Font.getD_written_eq, ← Font.getD_written_eq,
      ← Font.getD_written_eq]
    exact Font.expand?_written kinds.reads kinds.known_alone kinds.family

/-- A size that is a variable is known by its line height. The important longhands of its
font, with a weight `normal` in capital letters and a family of two layers, are completed by
the variant. -/
theorem variable_size_completed :
    let size : Value := .call "var" .comma [.keyword "--size"]
    let height : Value := .size (.ofNumber 1.5 none)
    let family : Value := .series .comma [.keyword "Georgia", .keyword "serif"]
    let ds : List Declaration :=
      [⟨"font-family", [family], true⟩, ⟨"line-height", [height], true⟩,
        ⟨"color", [.keyword "red"], false⟩, ⟨"font-size", [size], true⟩,
        ⟨"font-weight", [.keyword "NORMAL"], true⟩, ⟨"font-style", [.keyword "Italic"], true⟩]
    let style : Option Value := some (.keyword "Italic")
    let weight : Option Value := some (.keyword "NORMAL")
    font.PartlyDeclared ds true ∧
      font.held ds = [style, none, weight, some size, some height, some family] ∧
      AvoidsGlobal (font.held ds) ∧
      Font.OwnKinds style none weight size (some height) family ∧
      font.Declares (expand (compact ds))
        [.keyword "Italic", .keyword "normal", .keyword "normal", size, height, family] true := by
  intro size height family ds style weight
  have slanted : (Value.keyword "Italic").isOneOf fontStyleWords = true := by decide_cbv
  have regular : (Value.keyword "NORMAL").isKeyword "normal" = true := by decide_cbv
  have declared : font.PartlyDeclared ds true := by
    constructor <;> decide_cbv
  have held : font.held ds = [style, none, weight, some size, some height, some family] := rfl
  have ordinary : AvoidsGlobal (font.held ds) := by
    rw [held]
    exact any_present_eq_false.1 (by decide_cbv)
  have kinds : Font.OwnKinds style none weight size (some height) family := by
    refine ⟨?_, by simp, ?_, rfl, ?_, Or.inl ⟨height, rfl, rfl⟩, ?_⟩
    · intro v hv
      rw [← Option.some.inj hv]
      exact Or.inr slanted
    · intro v hv
      rw [← Option.some.inj hv]
      exact Or.inl regular
    · intro v hv
      rw [← Option.some.inj hv]
      rfl
    · simp [Value.Rejoins, family]
  refine ⟨declared, held, ordinary, kinds, ?_⟩
  have completed := font_completed declared held ordinary kinds
  have number : height.isKeyword "normal" = false := rfl
  rwa [Option.map_some, Option.map_some, Option.map_some,
    Value.respelled_of_not_isKeyword (Font.not_normal_of_style slanted),
    Value.respelled_of_isKeyword regular, Value.respelled_of_not_isKeyword number] at completed

end Stylesheet.Shorthand
