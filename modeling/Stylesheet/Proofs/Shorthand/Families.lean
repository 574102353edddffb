import Mathlib
import Stylesheet.Proofs.Shorthand.Overwriting

/-!
# Where the first family begins

A font with several families comes in two shapes: as separate values, the last of which is
the series of the families, or as one series of layers, the first of which holds everything
up to the first family. The second shape is taken apart before its tokens are told apart, so
only the last word of the first layer goes with the other families, and the words in front
of it are joined with the whole series by spaces. For a first family of one word that is the
series of the families. For a longer one it is not, although it is written the same.
-/

namespace Stylesheet

namespace Value

/-- Joined values are written one after another, a single one by itself. -/
theorem text_joinSpaces (vs : List Value) :
    (joinSpaces vs).text = " ".intercalate (vs.map text) := by
  by_cases single : vs.length = 1
  · obtain ⟨v, rfl⟩ := List.length_eq_one_iff.1 single
    rw [joinSpaces, List.map_singleton, String.intercalate_singleton]
  · rw [joinSpaces_of_length_ne_one single, text, texts_eq_map]
    rfl

/-- The text does not show whether a series starts with the last of the joined values or with
all of them. -/
theorem text_joinSpaces_series (s : Separator) (before : List Value) (v : Value)
    (others : List Value) :
    (joinSpaces (before ++ [.series s (v :: others)])).text =
      (series s (joinSpaces (before ++ [v]) :: others)).text := by
  rw [text_joinSpaces, text, texts_eq_map, List.map_cons, text_joinSpaces, List.map_append,
    List.map_append, List.map_singleton, List.map_singleton, text, texts_eq_map, List.map_cons]
  by_cases none_before : before.map text = []
  · rw [none_before, List.nil_append, List.nil_append, String.intercalate_singleton,
      String.intercalate_singleton]
  · rw [String.intercalate_append_of_ne_nil none_before (List.cons_ne_nil _ _),
      String.intercalate_append_of_ne_nil none_before (List.cons_ne_nil _ _),
      String.intercalate_singleton, String.intercalate_singleton, String.intercalate_cons_append]

end Value

namespace Shorthand.Font

variable {v : Value} {vs before rest tail : List Value}

/-- A font is taken apart at its first token that does not lead. -/
theorem expand?_of_tokens {size : Value} {lineHeight : Option Value}
    (split : tokens vs = (before ++ v :: rest, tail)) (lead : ∀ w ∈ before, leads w = true)
    (stops : leads v = false) (sized : size? v = some (size, lineHeight))
    (some_left : rest ++ tail ≠ []) :
    expand? vs = some (aspects.map (inForce before) ++
      [size, lineHeight.getD normal, .joinSpaces (rest ++ tail)]) := by
  have same : front vs = before := by
    rw [front, split, List.takeWhile_append_of_pos lead,
      List.takeWhile_cons_of_neg (by simp [stops]), List.append_nil]
  rw [expand?_eq_some_iff, same, split]
  exact ⟨v, rest, size, lineHeight, rfl, sized, some_left, rfl⟩

/-- It is refused if there is no such token, or if that is no size, or the last. -/
theorem expand?_eq_none_iff : expand? vs = none ↔
    ∀ v rest, (tokens vs).1.dropWhile leads = v :: rest → (size? v).isSome = true →
      rest ++ (tokens vs).2 = [] := by
  have split (v : Value) (rest : List Value) :
      (tokens vs).1 = front vs ++ v :: rest ↔ (tokens vs).1.dropWhile leads = v :: rest := by
    rw [front]
    constructor
    · intro whole
      exact List.append_cancel_left (List.takeWhile_append_dropWhile.trans whole)
    · intro behind
      rw [← behind, List.takeWhile_append_dropWhile]
  rw [Option.eq_none_iff_forall_ne_some]
  constructor
  · intro refused v rest behind sized
    obtain ⟨⟨size, lineHeight⟩, sized⟩ := Option.isSome_iff_exists.1 sized
    by_contra some_left
    exact refused _ (expand?_eq_some_iff.2
      ⟨v, rest, size, lineHeight, (split v rest).2 behind, sized, some_left, rfl⟩)
  · intro refused longhands expanded
    obtain ⟨v, rest, size, lineHeight, whole, sized, some_left, -⟩ :=
      expand?_eq_some_iff.1 expanded
    exact some_left (refused v rest ((split v rest).1 whole) (by rw [sized]; rfl))

/-- What a font with several families is written from: the values in front of the size, the
token of the size, the words of the first family, and the other families. -/
structure Draft where
  lead : List Value
  token : Value
  words : List Value
  others : List Value
  leads_of_mem : ∀ v ∈ lead, leads v = true
  isSome_size? : (size? token).isSome = true
  words_ne_nil : words ≠ []

namespace Draft

variable (d : Draft)

/-- One series of layers, the first of which ends in the first family. -/
def layered : List Value :=
  [.series .comma (.series .space (d.lead ++ d.token :: d.words) :: d.others)]

/-- The series of the families. -/
def families : Value := .series .comma (.joinSpaces d.words :: d.others)

/-- Separate values, the last of which are the families. -/
def separate : List Value := d.lead ++ [d.token, d.families]

/-- The other families behind the last word of the first one. -/
def lastFamilies : Value := .series .comma (d.words.getLast d.words_ne_nil :: d.others)

/-- What is taken for the families in a series of layers: the last word of the first family
stays with the other families. -/
def splitFamilies : Value := .joinSpaces (d.words.dropLast ++ [d.lastFamilies])

theorem tokens_layered :
    tokens d.layered = (d.lead ++ d.token :: d.words.dropLast, [d.lastFamilies]) := by
  have last : (d.lead ++ d.token :: d.words).getLast? = some (d.words.getLast d.words_ne_nil) := by
    rw [List.getLast?_append, List.getLast?_cons, List.getLast?_eq_some_getLast d.words_ne_nil]
    rfl
  have others : (d.lead ++ d.token :: d.words).dropLast =
      d.lead ++ d.token :: d.words.dropLast := by
    rw [List.dropLast_append_of_ne_nil (List.cons_ne_nil _ _),
      List.dropLast_cons_of_ne_nil d.words_ne_nil]
  simp only [tokens, layered, Value.flattenSpaces_space, last, others, lastFamilies]

theorem tokens_separate : tokens d.separate = (d.lead ++ [d.token, d.families], []) := by
  -- nothing is taken apart here: values that lead are no series, and neither the size nor the
  -- families are one of spaces
  have whole : ∀ items, d.token ≠ .series .space items := by
    intro items equal
    have sized := d.isSome_size?
    rw [equal] at sized
    cases sized
  rw [tokens_of_length (by simp [separate]), separate, Value.flattenSpaces_append,
    flattenSpaces_of_leads d.leads_of_mem, Value.flattenSpaces_cons,
    Value.flattenSpaces_singleton whole, Value.flattenSpaces_singleton (by rintro items ⟨⟩),
    List.singleton_append]

theorem text_splitFamilies : d.splitFamilies.text = d.families.text := by
  rw [splitFamilies, lastFamilies, Value.text_joinSpaces_series, List.dropLast_append_getLast,
    families]

/-- The families are split up unless the first one is a single word. -/
theorem splitFamilies_eq_iff : d.splitFamilies = d.families ↔ d.words.length = 1 := by
  constructor
  · intro same
    by_contra several
    have positive := List.length_pos_iff.2 d.words_ne_nil
    have joined : (d.words.dropLast ++ [d.lastFamilies]).length ≠ 1 := by
      rw [List.length_append, List.length_dropLast, List.length_singleton]
      omega
    rw [splitFamilies, Value.joinSpaces_of_length_ne_one joined, families] at same
    cases same
  · intro single
    obtain ⟨word, only⟩ := List.length_eq_one_iff.1 single
    simp only [splitFamilies, lastFamilies, families, only, List.dropLast_singleton,
      List.getLast_singleton, List.nil_append, Value.joinSpaces]

section Weight

variable (weight : leads d.token = true)

include weight

theorem leads_of_mem_concat : ∀ w ∈ d.lead ++ [d.token], leads w = true := by
  rw [List.forall_mem_append, List.forall_mem_singleton]
  exact ⟨d.leads_of_mem, weight⟩

/-- A token that is read as a weight leaves the separate values without a size. -/
theorem expand?_separate_of_leads : expand? d.separate = none := by
  have behind : (d.lead ++ [d.token, d.families]).dropWhile leads = [d.families] := by
    rw [List.append_cons, List.dropWhile_append_of_pos (d.leads_of_mem_concat weight),
      List.dropWhile_cons_of_neg (by simp [families, leads_series])]
  rw [expand?_eq_none_iff, tokens_separate, behind]
  rintro v rest ⟨⟩ sized
  cases sized

/-- In a series of layers a word of the first family may then be read as the size. -/
theorem expand?_layered_eq_none_iff : expand? d.layered = none ↔
    (d.words.dropLast.dropWhile leads).head?.bind size? = none := by
  have behind : (d.lead ++ d.token :: d.words.dropLast).dropWhile leads =
      d.words.dropLast.dropWhile leads := by
    rw [List.append_cons, List.dropWhile_append_of_pos (d.leads_of_mem_concat weight)]
  rw [expand?_eq_none_iff, tokens_layered, behind]
  cases d.words.dropLast.dropWhile leads with
  | nil => simp
  | cons v rest => simp

end Weight

end Draft

/-- If the token of the size is read as one, both shapes of a font are taken apart into the same
longhands but for the family. In the separate values the family is the series of the families,
with one member for each. In the series of layers it is written the same, but it is that series
only if the first family is a single word. If the token is read as a weight, the separate values
are refused, and so is the series of layers unless a word of the first family, other than the
last one, is read as the size. -/
theorem shapes_expand_alike_iff (d : Draft) :
    (leads d.token = false → ∃ size lineHeight, size? d.token = some (size, lineHeight) ∧
      expand? d.separate = some (aspects.map (inForce d.lead) ++
        [size, lineHeight.getD normal, d.families]) ∧
      expand? d.layered = some (aspects.map (inForce d.lead) ++
        [size, lineHeight.getD normal, d.splitFamilies]) ∧
      d.splitFamilies.text = d.families.text ∧
      (expand? d.layered = expand? d.separate ↔ d.words.length = 1)) ∧
    (leads d.token = true → expand? d.separate = none ∧
      (expand? d.layered = none ↔
        (d.words.dropLast.dropWhile leads).head?.bind size? = none)) := by
  constructor
  · intro stops
    obtain ⟨⟨size, lineHeight⟩, sized⟩ := Option.isSome_iff_exists.1 d.isSome_size?
    have separate := expand?_of_tokens d.tokens_separate d.leads_of_mem stops sized (by simp)
    have layered := expand?_of_tokens d.tokens_layered d.leads_of_mem stops sized (by simp)
    refine ⟨size, lineHeight, sized, separate, layered, d.text_splitFamilies, ?_⟩
    rw [separate, layered, ← d.splitFamilies_eq_iff, Option.some_inj, List.append_cancel_left_eq,
      List.cons_inj_right, List.cons_inj_right, List.singleton_inj]
    rfl
  · intro weight
    exact ⟨d.expand?_separate_of_leads weight, d.expand?_layered_eq_none_iff weight⟩

/-- A size with a line height in front of three families, the first of which is a single word,
and a weight in the place of the size. -/
theorem single_word_is_kept :
    let size := Value.series .slash [.size (.ofNumber 12 (some "px")), .keyword "small"]
    let d : Draft := ⟨[.keyword "bold"], size, [.quoted "Times New Roman"],
      [.keyword "Georgia", .keyword "serif"], by decide_cbv, rfl, List.cons_ne_nil _ _⟩
    let e : Draft := ⟨[], .size (.ofNumber 400 none), [.keyword "Georgia", .keyword "Pro"],
      [.keyword "serif"], by decide_cbv, rfl, List.cons_ne_nil _ _⟩
    leads d.token = false ∧ expand? d.layered = expand? d.separate ∧
      leads e.token = true ∧ expand? e.layered = none ∧ expand? e.separate = none := by
  have unknown : ([Value.keyword "Georgia"].dropWhile leads).head?.bind size? = none := rfl
  intro size d e
  have stops : leads d.token = false := leads_series _ _
  have weight : leads e.token = true := by decide +kernel
  obtain ⟨-, -, -, -, -, -, alike⟩ := (shapes_expand_alike_iff d).1 stops
  obtain ⟨separate, layered⟩ := (shapes_expand_alike_iff e).2 weight
  exact ⟨stops, alike.2 rfl, weight, layered.2 unknown, separate⟩

/-- A first family of two words is split up. -/
theorem second_word_is_split_off :
    let size : Value := .size (.ofNumber 12 (some "px"))
    let separate : List Value := [size,
      .series .comma [.series .space [.keyword "Times", .keyword "New"], .keyword "serif"]]
    let layered : List Value := [.series .comma
      [.series .space [size, .keyword "Times", .keyword "New"], .keyword "serif"]]
    expand? separate = some [normal, normal, normal, size, normal,
        .series .comma [.series .space [.keyword "Times", .keyword "New"], .keyword "serif"]] ∧
      expand? layered = some [normal, normal, normal, size, normal,
        .series .space [.keyword "Times", .series .comma [.keyword "New", .keyword "serif"]]] ∧
      expand? layered ≠ expand? separate := by
  intro size separate layered
  have apart : expand? separate = some [normal, normal, normal, size, normal,
      .series .comma [.series .space [.keyword "Times", .keyword "New"], .keyword "serif"]] := rfl
  have together : expand? layered = some [normal, normal, normal, size, normal,
      .series .space [.keyword "Times", .series .comma [.keyword "New", .keyword "serif"]]] := rfl
  refine ⟨apart, together, ?_⟩
  rw [apart, together]
  intro same
  cases same

end Shorthand.Font

end Stylesheet
