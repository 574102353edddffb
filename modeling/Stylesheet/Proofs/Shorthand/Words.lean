import Stylesheet.Proofs.Value.Equality
import Stylesheet.Shorthand.Words

/-!
# What the kind of a value depends on

The parts of a shorthand are told apart by predicates on a single value. Values that
agree satisfy the same ones, so a value that is read back is of the kind of the one it
stands for. And a keyword that is on one list of words is on no list that has no word
in common with it.
-/

namespace Stylesheet

namespace Value

theorem isOneOf_iff {v : Value} {words : List String} :
    v.isOneOf words = true ↔ ∃ w, v = .keyword w ∧ Text.lower w ∈ words.map Text.lower := by
  cases v with
  | keyword w => simp [isOneOf, isKeyword, keyword?, Text.sameWord]
  | _ => simp [isOneOf, isKeyword, keyword?]

theorem isKeyword_self (word : String) : (keyword word).isKeyword word = true := by
  simp [isKeyword, keyword?, Text.sameWord]

theorem isOneOf_singleton (v : Value) (word : String) : v.isOneOf [word] = v.isKeyword word := by
  simp [isOneOf]

/-- A value, with this keyword in the letter case in which it is given here. -/
def respelled (word : String) (v : Value) : Value := if v.isKeyword word then .keyword word else v

theorem respelled_of_isKeyword {v : Value} {word : String} (h : v.isKeyword word = true) :
    v.respelled word = .keyword word := if_pos h

theorem respelled_of_not_isKeyword {v : Value} {word : String} (h : v.isKeyword word = false) :
    v.respelled word = v := if_neg (Bool.eq_false_iff.1 h)

/-- A value is kept if it is not that keyword in another letter case. -/
theorem agrees_respelled {v : Value} {word : String}
    (h : v.isKeyword word = true → v = .keyword word) : (v.respelled word).Agrees v := by
  cases said : v.isKeyword word with
  | true =>
      rw [respelled_of_isKeyword said, h said]
      exact .refl _
  | false =>
      rw [respelled_of_not_isKeyword said]
      exact .refl v

theorem isOneOf_eq_false {v : Value} {words others : List String} (h : v.isOneOf words = true)
    (disjoint : ∀ w ∈ words.map Text.lower, w ∉ others.map Text.lower) :
    v.isOneOf others = false := by
  obtain ⟨w, rfl, member⟩ := isOneOf_iff.1 h
  rw [Bool.eq_false_iff]
  intro found
  obtain ⟨u, equal, other⟩ := isOneOf_iff.1 found
  rw [← keyword.inj equal] at other
  exact disjoint _ member other

theorem isKeyword_eq_false {v : Value} {words : List String} {word : String}
    (h : v.isOneOf words = true) (other : Text.lower word ∉ words.map Text.lower) :
    v.isKeyword word = false := by
  rw [← isOneOf_singleton]
  apply isOneOf_eq_false h
  intro w hw found
  rw [List.map_singleton, List.mem_singleton] at found
  exact other (found ▸ hw)

theorem isSize_of_isOneOf {v : Value} {words : List String} (h : v.isOneOf words = true) :
    v.isSize = false := by
  obtain ⟨w, rfl, -⟩ := isOneOf_iff.1 h
  rfl

theorem isOneOf_of_isSize {v : Value} (h : v.isSize = true) (words : List String) :
    v.isOneOf words = false := by
  rw [Bool.eq_false_iff]
  intro found
  rw [isSize_of_isOneOf found] at h
  exact Bool.false_ne_true h

theorem isOneOf_series (s : Separator) (items : List Value) (words : List String) :
    (series s items).isOneOf words = false := by
  rw [Bool.eq_false_iff]
  intro found
  obtain ⟨w, equal, -⟩ := isOneOf_iff.1 found
  cases equal

variable {v w : Value}

theorem Agrees.isKeyword_eq (h : v.Agrees w) (word : String) :
    v.isKeyword word = w.isKeyword word := by
  rw [isKeyword, isKeyword, h.keyword?_eq]

theorem Agrees.isSize_eq (h : v.Agrees w) : v.isSize = w.isSize := by
  apply h.congr
  intro same
  cases v <;> cases w <;> simp_all [Value.same, isSize, size?]

theorem Agrees.isColor_eq (h : v.Agrees w) : Shorthand.isColor v = Shorthand.isColor w := by
  apply h.congr
  intro same
  cases v <;> cases w <;> simp_all [Value.same, Shorthand.isColor]

theorem Agrees.isImage_eq (h : v.Agrees w) : Shorthand.isImage v = Shorthand.isImage w := by
  apply h.congr
  intro same
  cases v <;> cases w <;> simp_all [Value.same, Shorthand.isImage, isKeyword, keyword?]

theorem Agrees.isFontWeight_eq (h : v.Agrees w) :
    Shorthand.isFontWeight v = Shorthand.isFontWeight w := by
  have words := h.isOneOf_eq Shorthand.fontWeightWords
  apply h.congr
  intro same
  cases v with
  | size a =>
      cases w with
      | size b =>
          obtain ⟨value, unit, -⟩ := Size.beq_iff.1 same
          simp only [Shorthand.isFontWeight, unit, BEq.congr_left value]
      | _ => cases same
  | _ => cases w <;> first | exact words | cases same

end Value

namespace Shorthand

theorem isFontWeight_series (s : Separator) (items : List Value) :
    isFontWeight (.series s items) = false :=
  Value.isOneOf_series s items fontWeightWords

theorem isGlobal_series (s : Separator) (items : List Value) : isGlobal (.series s items) = false :=
  Value.isOneOf_series s items globalWords

/-- A weight is on no list of words that has none of the words for weights. -/
theorem isOneOf_of_isFontWeight {v : Value} {words : List String} (h : isFontWeight v = true)
    (disjoint : ∀ w ∈ fontWeightWords.map Text.lower, w ∉ words.map Text.lower) :
    v.isOneOf words = false := by
  cases v with
  | size s => exact Value.isOneOf_of_isSize rfl words
  | _ => exact Value.isOneOf_eq_false h disjoint

theorem isKeyword_of_isFontWeight {v : Value} {word : String} (h : isFontWeight v = true)
    (other : Text.lower word ∉ fontWeightWords.map Text.lower) : v.isKeyword word = false := by
  rw [← Value.isOneOf_singleton]
  apply isOneOf_of_isFontWeight h
  intro w hw found
  rw [List.map_singleton, List.mem_singleton] at found
  exact other (found ▸ hw)

end Shorthand

end Stylesheet
