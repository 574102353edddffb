import Mathlib
import Stylesheet.Proofs.Color.Keyword
import Stylesheet.Proofs.Text.Bytes

/-!
# Halving the table of color keywords and searching it

A keyword is looked up by halving the table of the colors, and its bytes are compared at every
step. The keywords increase in that order, so halving finds what going through the table from its
start would find, for any text: the entry whose keyword is the text without the blanks around it,
up to letter case. Looked up the other way round, a color has the first of its keywords.
-/

namespace Stylesheet

/-- Find a key as `bisect` does, but compare keys by their bytes. -/
def bisectBytes {α : Type} (table : Array (String × α)) (key : String) (low high : ℕ)
    (h : high ≤ table.size) : Option α :=
  if inside : low < high then
    let middle := low + (high - low) / 2
    have : middle < table.size := by omega
    let (candidate, value) := table[middle]
    if Text.bytes candidate = Text.bytes key then some value
    else if Text.bytes candidate < Text.bytes key then bisectBytes table key (middle + 1) high h
    else bisectBytes table key low middle (by omega)
  else none
termination_by high - low

theorem bisectBytes_eq {α : Type} (table : Array (String × α)) (key : String) (low high : ℕ)
    (h : high ≤ table.size) : bisectBytes table key low high h = bisect table key low high h := by
  fun_induction bisect table key low high h with
  | case1 low high h inside middle bound value there =>
      rw [bisectBytes, dif_pos inside]
      simp only [show table[low + (high - low) / 2] = _ from there, if_true]
  | case2 low high h inside middle bound candidate value there other smaller ih =>
      rw [bisectBytes, dif_pos inside]
      simp only [show table[low + (high - low) / 2] = _ from there, Text.bytes_inj,
        Text.bytes_lt_iff, if_neg other, if_pos smaller]
      exact ih
  | case3 low high h inside middle bound candidate value there other larger ih =>
      rw [bisectBytes, dif_pos inside]
      simp only [show table[low + (high - low) / 2] = _ from there, Text.bytes_inj,
        Text.bytes_lt_iff, if_neg other, if_neg larger]
      exact ih
  | case4 low high h outside => rw [bisectBytes, dif_neg outside]

theorem Text.lower_lower (word : String) : lower (lower word) = lower word := by
  rw [lower, lower, String.toList_ofList, List.map_map]
  congr 1
  exact List.map_congr_left fun c _ => Char.toLower_toLower_eq_toLower c

section Search

variable {text name word : String} {c : Rgb}

/-- No letter of a keyword is in upper case, so it is matched by the words that have it in lower
case. -/
theorem sameWord_keyword_iff (entry : (name, c) ∈ colorKeywords) :
    Text.sameWord name word = true ↔ name = Text.lower word := by
  have lower : Text.lower name = name := by
    rw [← lower_trim_keyword entry, Text.lower_lower]
  rw [Text.sameWord, lower, decide_eq_true_eq]

/-- A text is looked up as the color of an entry with its keyword. -/
theorem Rgb.ofKeyword?_eq_some_iff_exists : Rgb.ofKeyword? text = some c ↔
    ∃ name, (name, c) ∈ colorKeywords ∧
      Text.sameWord name (String.ofList (Text.trim text.toList)) = true := by
  rw [Rgb.ofKeyword?_eq_some_iff]
  constructor
  · intro entry
    exact ⟨_, entry, (sameWord_keyword_iff entry).2 rfl⟩
  · rintro ⟨name, entry, same⟩
    rwa [← (sameWord_keyword_iff entry).1 same]

theorem Rgb.ofKeyword?_eq_none_iff : Rgb.ofKeyword? text = none ↔
    ∀ entry ∈ colorKeywords,
      Text.sameWord entry.1 (String.ofList (Text.trim text.toList)) = false := by
  rw [Option.eq_none_iff_forall_ne_some]
  constructor
  · intro missing entry member
    rw [Bool.eq_false_iff]
    intro same
    exact missing entry.2 (Rgb.ofKeyword?_eq_some_iff_exists.2 ⟨entry.1, member, same⟩)
  · intro others c found
    obtain ⟨name, member, same⟩ := Rgb.ofKeyword?_eq_some_iff_exists.1 found
    rw [others (name, c) member] at same
    cases same

/-- Going through the table from its start finds the same. -/
theorem Rgb.ofKeyword?_eq_find? (text : String) : Rgb.ofKeyword? text =
    (colorKeywords.find? fun entry =>
      Text.sameWord entry.1 (String.ofList (Text.trim text.toList))).map Prod.snd := by
  cases found : colorKeywords.find? fun entry =>
      Text.sameWord entry.1 (String.ofList (Text.trim text.toList)) with
  | none =>
      rw [Option.map_none, Rgb.ofKeyword?_eq_none_iff]
      simpa using Array.find?_eq_none.1 found
  | some entry =>
      have same := Array.find?_some found
      rw [Option.map_some, Rgb.ofKeyword?_eq_some_iff_exists]
      exact ⟨entry.1, Array.mem_of_find?_eq_some found, same⟩

/-- The keyword of a color is the first in the table. -/
theorem Rgb.keyword?_eq_some_iff : c.keyword? = some name ↔
    ∃ i, ∃ bound : i < colorKeywords.size, colorKeywords[i] = (name, c) ∧
      ∀ j (before : j < i), colorKeywords[j].2 ≠ c := by
  rw [Rgb.keyword?, Option.map_eq_some_iff]
  simp only [Array.find?_eq_some_iff_getElem]
  constructor
  · rintro ⟨⟨name, c⟩, ⟨same, i, bound, there, first⟩, rfl⟩
    obtain rfl := of_decide_eq_true same
    exact ⟨i, bound, there, fun j before => by simpa using first j before⟩
  · rintro ⟨i, bound, there, first⟩
    exact ⟨(name, c), ⟨decide_eq_true rfl, i, bound, there,
      fun j before => by simpa using first j before⟩, rfl⟩

end Search

/-- Halving the table by the bytes of its keywords is looking a keyword up, and this finds, for
any text, what a search from the start of the table finds: the color of the entry whose keyword is
the text without the blanks around it, up to letter case, and nothing if there is no such entry.
A color has a keyword if it stands in the table, and then it is the first one, which is looked up
as the color. -/
theorem keyword_lookup_eq_search :
    (∀ text : String,
      let word := String.ofList (Text.trim text.toList)
      bisectBytes colorKeywords (Text.lower word) 0 colorKeywords.size (Nat.le_refl _) =
          Rgb.ofKeyword? text ∧
        Rgb.ofKeyword? text =
          (colorKeywords.find? fun entry => Text.sameWord entry.1 word).map Prod.snd ∧
        (∀ c, Rgb.ofKeyword? text = some c ↔
          ∃ name, (name, c) ∈ colorKeywords ∧ Text.sameWord name word = true) ∧
        (Rgb.ofKeyword? text = none ↔
          ∀ entry ∈ colorKeywords, Text.sameWord entry.1 word = false)) ∧
    ∀ (c : Rgb) (name : String),
      (c.keyword? = some name ↔ ∃ i, ∃ bound : i < colorKeywords.size,
        colorKeywords[i] = (name, c) ∧ ∀ j (before : j < i), colorKeywords[j].2 ≠ c) ∧
      (c.keyword? = some name → Rgb.ofKeyword? name = some c) := by
  constructor
  · intro text word
    refine ⟨bisectBytes_eq .., Rgb.ofKeyword?_eq_find? text, fun c => ?_, ?_⟩
    · exact Rgb.ofKeyword?_eq_some_iff_exists
    · exact Rgb.ofKeyword?_eq_none_iff
  · intro c name
    exact ⟨Rgb.keyword?_eq_some_iff, Rgb.ofKeyword?_of_keyword?⟩

/-- Of two keywords the first names the color. -/
theorem aqua_is_looked_up :
    Rgb.keyword? ⟨0, 255, 255⟩ = some "aqua" ∧ Rgb.ofKeyword? "aqua" = some ⟨0, 255, 255⟩ := by
  have named : Rgb.keyword? ⟨0, 255, 255⟩ = some "aqua" := by decide +kernel
  exact ⟨named, (keyword_lookup_eq_search.2 _ _).2 named⟩

end Stylesheet
