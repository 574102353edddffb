import Mathlib
import Stylesheet.Color.Named

/-!
# Looking up color keywords

Halving finds a key wherever it stands in a table of increasing keys, because the half it gives
up holds smaller keys only, or larger ones only. The keywords of the colors increase, and each
of them is its own key: there is no blank around it and no letter of it is in upper case. So
the keyword of a color is always the keyword of that color when it is looked up.
-/

namespace Stylesheet

section Bisect

variable {α : Type} {table : Array (String × α)} {key : String} {value : α} {low high : Nat}

/-- The keys of a table in increasing order. -/
def Increasing (table : Array (String × α)) : Prop :=
  ∀ i j (hi : i < table.size) (hj : j < table.size), i < j → table[i].1 < table[j].1

namespace Increasing

variable {i j : Nat} {hi : i < table.size} {hj : j < table.size}

theorem lt_of_key_lt (increasing : Increasing table) (less : table[i].1 < table[j].1) : i < j := by
  rcases Nat.lt_trichotomy i j with before | rfl | behind
  · exact before
  · exact absurd less (String.lt_irrefl _)
  · exact absurd less (String.lt_asymm (increasing j i hj hi behind))

theorem eq_of_key_eq (increasing : Increasing table) (same : table[i].1 = table[j].1) : i = j := by
  rcases Nat.lt_trichotomy i j with before | there | behind
  · exact absurd (increasing i j hi hj before) (same ▸ String.lt_irrefl _)
  · exact there
  · exact absurd (increasing j i hj hi behind) (same ▸ String.lt_irrefl _)

end Increasing

/-- What is found is in the table, in whatever order that is. -/
theorem mem_of_bisect {h : high ≤ table.size} (found : bisect table key low high h = some value) :
    (key, value) ∈ table := by
  fun_induction bisect table key low high h with
  | case1 low high h inside middle bound entry here =>
    obtain rfl := Option.some.inj found
    exact here ▸ Array.getElem_mem bound
  | case2 low high h inside middle bound candidate entry here other smaller ih => exact ih found
  | case3 low high h inside middle bound candidate entry here other larger ih => exact ih found
  | case4 => cases found

/-- A key between the two positions is found. -/
theorem bisect_of_getElem (increasing : Increasing table) {h : high ≤ table.size} {i : Nat}
    (above : low ≤ i) (below : i < high) (there : table[i] = (key, value)) :
    bisect table key low high h = some value := by
  fun_induction bisect table key low high h with
  | case1 low high h inside middle bound entry here =>
    have met : middle = i := increasing.eq_of_key_eq (by rw [here, there])
    subst met
    rw [here] at there
    rw [(Prod.mk.inj there).2]
  | case2 low high h inside middle bound candidate entry here other smaller ih =>
    have further : middle < i := increasing.lt_of_key_lt (by rw [here, there]; exact smaller)
    exact ih further below there
  | case3 low high h inside middle bound candidate entry here other larger ih =>
    have less : key < candidate := lt_of_le_of_ne (String.not_lt.1 larger) (Ne.symm other)
    have nearer : i < middle := increasing.lt_of_key_lt (by rw [here, there]; exact less)
    exact ih above nearer there
  | case4 low high h outside => omega

/-- Halving a table of increasing keys finds exactly what is in it. -/
theorem bisect_eq_some_iff (increasing : Increasing table) :
    bisect table key 0 table.size (Nat.le_refl _) = some value ↔ (key, value) ∈ table := by
  constructor
  · exact mem_of_bisect
  · intro inside
    obtain ⟨i, bound, there⟩ := Array.mem_iff_getElem.1 inside
    exact bisect_of_getElem increasing (Nat.zero_le i) bound there

end Bisect

section Keywords

theorem increasing_colorKeywords : Increasing colorKeywords := by
  have chain : (colorKeywords.toList.map Prod.fst).IsChain (· < ·) := by decide +kernel
  have pairs := List.pairwise_iff_getElem.1 (List.isChain_iff_pairwise.1 chain)
  intro i j hi hj before
  have less := pairs i j (by simpa using hi) (by simpa using hj) before
  rwa [List.getElem_map, List.getElem_map, Array.getElem_toList, Array.getElem_toList] at less

/-- A keyword is looked up as it stands. -/
theorem lower_trim_keyword {name : String} {channels : Rgb}
    (entry : (name, channels) ∈ colorKeywords) :
    Text.lower (String.ofList (Text.trim name.toList)) = name := by
  have plain : ∀ e ∈ colorKeywords.toList,
      Text.lower (String.ofList (Text.trim e.1.toList)) = e.1 := by decide_cbv
  exact plain (name, channels) (Array.mem_def.1 entry)

theorem Rgb.ofKeyword?_eq_some_iff {text : String} {channels : Rgb} :
    Rgb.ofKeyword? text = some channels ↔
      (Text.lower (String.ofList (Text.trim text.toList)), channels) ∈ colorKeywords :=
  bisect_eq_some_iff increasing_colorKeywords

/-- The keyword of a color is a keyword of that color. -/
theorem Rgb.ofKeyword?_of_keyword? {channels : Rgb} {name : String}
    (named : channels.keyword? = some name) : Rgb.ofKeyword? name = some channels := by
  obtain ⟨⟨word, bytes⟩, first, rfl⟩ := Option.map_eq_some_iff.1 named
  have there : bytes = channels := by simpa using Array.find?_some first
  have inside := Array.mem_of_find?_eq_some first
  rw [Rgb.ofKeyword?_eq_some_iff, lower_trim_keyword inside, ← there]
  exact inside

end Keywords

end Stylesheet
