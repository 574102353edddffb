import Mathlib
import Stylesheet.Proofs.Shorthand.Arrangement
import Stylesheet.Proofs.Shorthand.Overwriting
import Stylesheet.Proofs.Shorthand.Recovery

/-!
# Every longhand is filled with one value

A declaration has a list of values, so what a longhand is filled with might be none or several
of them, and the longhands might be more or fewer than what is there to fill them. An expander
whose parts are single values does not show this. The readers below give for each longhand the
list of its values, and they agree with the expanders.

Every longhand gets one value, and only in few places it is a series: a side of a box that was
written as one, the position of a background, and the size, the line height and the family of a
font.
-/

namespace Stylesheet.Shorthand

/-! ### The values of every longhand -/

/-- The values that were found, or the initial value when there are none. -/
def filled (initial : Value) : List Value → List Value
  | [] => [initial]
  | vs => vs

theorem filled_eq {initial : Value} {vs : List Value} (few : vs.length ≤ 1) :
    filled initial vs = [vs.headD initial] := by
  match vs with
  | [] => rfl
  | [_] => rfl

theorem filled_toList (initial : Value) (held : Option Value) :
    filled initial held.toList = [held.getD initial] := by
  cases held <;> rfl

/-- Each value in a list of its own. -/
def singletons (vs : List Value) : List (List Value) := vs.map fun v => [v]

section Slots

variable {κ : Type} [DecidableEq κ] {part? : Value → Option κ} {k : κ}

/-- A slot that takes one token has at most one in the end. -/
theorem length_le_one_of_placeAll? {several : κ → Bool} {slots : κ → List Value}
    {vs : List Value} (placed : placeAll? part? several vs = some slots)
    (single : several k = false) : (slots k).length ≤ 1 := by
  obtain ⟨admitted, rfl⟩ := placeAll?_eq_some.1 placed
  exact admitted.once k single

/-- A part to which no series belongs is not filled with one. -/
theorem ne_series_of_single? {separator : Separator} {items vs : List Value} {word : String}
    {v : Value} (unknown : part? (.series separator items) = none)
    (h : single? (.keyword word) (valuesOf part? k vs) = some v) :
    v ≠ .series separator items := by
  rcases eq_initial_or_mem_of_single? h with rfl | member
  · exact nofun
  · rintro rfl
    have known := (mem_valuesOf.1 member).2
    rw [unknown] at known
    cases known

end Slots

namespace Border

/-- The values of the width, the style and the color. -/
def lists? (vs : List Value) : Option (List (List Value)) :=
  (placeAll? part? (fun _ => false) (Value.flattenSpaces vs)).map fun slots =>
    [filled (.keyword "medium") (slots .width), filled (.keyword "none") (slots .style),
      filled (.keyword "currentcolor") (slots .color)]

theorem lists?_eq (vs : List Value) : lists? vs = (expand? vs).map singletons := by
  rw [lists?, expand?_eq_placeAll?, Option.map_map]
  refine Option.map_congr fun slots placed => ?_
  have few (k : Part) : (slots k).length ≤ 1 := length_le_one_of_placeAll? placed rfl
  simp only [filled_eq (few _), Function.comp_apply, singletons, List.map_cons, List.map_nil]

end Border

namespace Box

/-- The values of the four sides. -/
def lists? (vs : List Value) : Option (List (List Value)) :=
  match Value.flattenSpaces vs with
  | [a] => some [[a], [a], [a], [a]]
  | [a, b] => some [[a], [b], [a], [b]]
  | [a, b, c] => some [[a], [b], [c], [b]]
  | [a, b, c, d] => some [[a], [b], [c], [d]]
  | _ => none

theorem lists?_eq (vs : List Value) : lists? vs = (expand? vs).map singletons := by
  unfold lists? expand?
  rcases Value.flattenSpaces vs with _ | ⟨a, _ | ⟨b, _ | ⟨c, _ | ⟨d, _ | ⟨e, ws⟩⟩⟩⟩⟩ <;> rfl

/-- The sides are tokens that were written. -/
theorem subset_of_expand? {vs parts : List Value} (h : expand? vs = some parts) :
    parts ⊆ Value.flattenSpaces vs := by
  unfold expand? at h
  split at h
  case h_5 => cases h
  all_goals
    next tokens =>
      obtain rfl := Option.some.inj h
      rw [tokens]
      simp

end Box

namespace Font

/-- The values of the style, the variant, the weight, the size, the line height and the
family. -/
def lists? (vs : List Value) : Option (List (List Value)) := do
  let (leading, families) := tokens vs
  let parts ← read? ⟨none, none, none⟩ leading
  let family := parts.family ++ families
  guard (!family.isEmpty)
  return [filled normal parts.lead.style.toList, filled normal parts.lead.variant.toList,
    filled normal parts.lead.weight.toList, [parts.size], filled normal parts.lineHeight.toList,
    [.joinSpaces family]]

theorem lists?_eq (vs : List Value) : lists? vs = (expand? vs).map singletons := by
  simp only [lists?, expand?, filled_toList, singletons, Option.bind_eq_bind, Option.map_bind,
    Option.pure_def, Function.comp_def, Option.map_some, List.map_cons, List.map_nil]

/-- The style, the variant and the weight are no series. -/
theorem le_of_series {vs parts : List Value} (h : expand? vs = some parts) {i : Nat}
    {separator : Separator} {items : List Value}
    (hi : parts[i]? = some (.series separator items)) : 3 ≤ i := by
  obtain ⟨v, rest, size, lineHeight, -, -, -, rfl⟩ := expand?_eq_some_iff.1 h
  by_contra early
  have lead : i < (aspects.map (inForce (front vs))).length := Nat.lt_of_not_le early
  rw [List.getElem?_append_left lead] at hi
  obtain ⟨k, -, said⟩ := List.mem_map.1 (List.mem_of_getElem? hi)
  have led : leads (inForce (front vs) k) = true :=
    leads_inForce (fun w hw => leads_of_mem_front hw) k
  rw [said, leads_series] at led
  cases led

end Font

namespace Background

/-- The values of the color, the image, the repetition, the position and the attachment. -/
def lists? (vs : List Value) : Option (List (List Value)) :=
  (placeAll? part? (fun k => k = .position) (Value.flattenSpaces vs)).map fun slots =>
    [filled (.keyword "transparent") (slots .color), filled (.keyword "none") (slots .image),
      filled (.keyword "repeat") (slots .repetition), [position (slots .position)],
      filled (.keyword "scroll") (slots .attachment)]

theorem lists?_eq (vs : List Value) : lists? vs = (expand? vs).map singletons := by
  rw [lists?, expand?_eq_placeAll?, Option.map_map]
  refine Option.map_congr fun slots placed => ?_
  have few (k : Part) (single : k ≠ .position) : (slots k).length ≤ 1 :=
    length_le_one_of_placeAll? placed (decide_eq_false single)
  simp only [filled_eq (few .color nofun), filled_eq (few .image nofun),
    filled_eq (few .repetition nofun), filled_eq (few .attachment nofun), Function.comp_apply,
    singletons, List.map_cons, List.map_nil]

/-- Only the position may be a series. -/
theorem eq_of_series {vs parts : List Value} (h : expand? vs = some parts) {i : Nat}
    {separator : Separator} {items : List Value}
    (hi : parts[i]? = some (.series separator items)) : i = 3 := by
  obtain ⟨-, color, image, repetition, attachment, hc, hm, hr, ha, rfl⟩ := expand?_eq_some.1 h
  have unknown := part?_series separator items
  match i with
  | 0 => exact absurd (Option.some.inj hi) (ne_series_of_single? unknown hc)
  | 1 => exact absurd (Option.some.inj hi) (ne_series_of_single? unknown hm)
  | 2 => exact absurd (Option.some.inj hi) (ne_series_of_single? unknown hr)
  | 3 => rfl
  | 4 => exact absurd (Option.some.inj hi) (ne_series_of_single? unknown ha)

end Background

namespace ListStyle

/-- The values of the type, the position and the image. -/
def lists? (vs : List Value) : Option (List (List Value)) :=
  (placeAll? part? (fun k => k = .absent) (Value.flattenSpaces vs)).bind fun slots =>
    (fill? (slots .absent).length (slots .type).head? (slots .image).head?).map fun both =>
      [filled (.keyword "disc") both.1.toList, filled (.keyword "outside") (slots .position),
        filled (.keyword "none") both.2.toList]

theorem lists?_eq (vs : List Value) : lists? vs = (expand? vs).map singletons := by
  rw [lists?, expand?_eq_placeAll?, Option.map_bind]
  refine Option.bind_congr fun slots placed => ?_
  have few : (slots .position).length ≤ 1 := length_le_one_of_placeAll? placed rfl
  simp only [filled_toList, filled_eq few, Function.comp_def, Option.map_map, singletons,
    List.map_cons, List.map_nil]

theorem ne_series_of_expand? {vs parts : List Value} (h : expand? vs = some parts) {v : Value}
    (hv : v ∈ parts) (separator : Separator) (items : List Value) :
    v ≠ .series separator items := by
  obtain ⟨-, -, type, position, image, ht, hp, hi, rfl⟩ := expand?_eq_some.1 h
  have unknown := part?_series separator items
  simp only [List.mem_cons, List.not_mem_nil, or_false] at hv
  rcases hv with rfl | rfl | rfl
  · exact ne_series_of_single? unknown ht
  · exact ne_series_of_single? unknown hp
  · exact ne_series_of_single? unknown hi

end ListStyle

/-- The values of the longhands, in their order, or nothing for values that the kind does not
know. -/
def Kind.lists? : Kind → List Value → Option (List (List Value))
  | .border => Border.lists?
  | .box => Box.lists?
  | .font => Font.lists?
  | .background => Background.lists?
  | .listStyle => ListStyle.lists?

theorem Kind.lists?_eq (k : Kind) (vs : List Value) :
    k.lists? vs = (k.expand? vs).map singletons := by
  cases k with
  | border => exact Border.lists?_eq vs
  | box => exact Box.lists?_eq vs
  | font => exact Font.lists?_eq vs
  | background => exact Background.lists?_eq vs
  | listStyle => exact ListStyle.lists?_eq vs

/-- Where a value that a longhand is filled with may be a series. -/
theorem Kind.series_of_expand? {k : Kind} {vs parts : List Value} (h : k.expand? vs = some parts)
    {i : Nat} {separator : Separator} {items : List Value}
    (hi : parts[i]? = some (.series separator items)) :
    (k = .box ∧ .series separator items ∈ Value.flattenSpaces vs) ∨
      (k = .background ∧ i = 3) ∨ (k = .font ∧ 3 ≤ i) := by
  have member := List.mem_of_getElem? hi
  cases k with
  | border => exact absurd rfl (Border.ne_series_of_expand? h member separator items)
  | box => exact Or.inl ⟨rfl, Box.subset_of_expand? h member⟩
  | font => exact Or.inr (Or.inr ⟨rfl, Font.le_of_series h hi⟩)
  | background => exact Or.inr (Or.inl ⟨rfl, Background.eq_of_series h hi⟩)
  | listStyle => exact absurd rfl (ListStyle.ne_series_of_expand? h member separator items)

/-- The values of the longhands for the values of one declaration. -/
def lists? (s : Shorthand) (vs : List Value) : Option (List (List Value)) :=
  match vs with
  | [v] => if isGlobal v then some (s.longhands.map fun _ => [v]) else s.kind.lists? vs
  | _ => s.kind.lists? vs

theorem lists?_eq (s : Shorthand) (vs : List Value) :
    s.lists? vs = (s.parts? vs).map singletons := by
  match vs with
  | [v] =>
      by_cases global : isGlobal v = true
      · simp only [lists?, parts?, if_pos global, Option.map_some, singletons, List.map_map,
          Function.comp_def]
      · simp only [lists?, parts?, if_neg global, s.kind.lists?_eq]
  | [] => exact s.kind.lists?_eq _
  | _ :: _ :: _ => exact s.kind.lists?_eq _

/-! ### One value for every longhand -/

/-- The longhands that may have a series as their value, those of boxes apart. -/
def seriesLonghands : List String :=
  ["background-position", "font-size", "line-height", "font-family"]

theorem mem_seriesLonghands : ∀ s ∈ registry, ∀ i < 6,
    (s.kind = .background ∧ i = 3) ∨ (s.kind = .font ∧ 3 ≤ i) →
      ∀ p ∈ s.longhands[i]?, p ∈ seriesLonghands := by decide_cbv

/-- There is one value for every longhand, and it is a series only where a side of a box was
written as one, or for one of the longhands that may have one. -/
structure Fills (s : Shorthand) (vs : List Value) (lists : List (List Value)) : Prop where
  width : lists.length = s.longhands.length
  single : ∀ values ∈ lists, values.length = 1
  series : ∀ p separator items, (p, [.series separator items]) ∈ s.longhands.zip lists →
    (s.kind = .box ∧ .series separator items ∈ Value.flattenSpaces vs) ∨ p ∈ seriesLonghands

variable {s : Shorthand} {vs parts : List Value} {d : Declaration}

theorem flatten_singletons (vs : List Value) : (singletons vs).flatten = vs := by
  rw [singletons, ← List.flatMap_def, List.flatMap_singleton']

/-- Parts that are as many as the longhands fill them, if each is a series only where one may
be. -/
theorem Fills.of_width (width : parts.length = s.longhands.length)
    (places : ∀ (i : Nat) separator items, parts[i]? = some (Value.series separator items) →
      (s.kind = .box ∧ .series separator items ∈ Value.flattenSpaces vs) ∨
        ∀ p ∈ s.longhands[i]?, p ∈ seriesLonghands) :
    s.Fills vs (singletons parts) where
  width := by rw [singletons, List.length_map, width]
  single values member := by
    obtain ⟨v, -, rfl⟩ := List.mem_map.1 member
    rfl
  series p separator items member := by
    obtain ⟨i, found⟩ := List.mem_iff_getElem?.1 member
    obtain ⟨name, value⟩ := List.getElem?_zip_eq_some.1 found
    rw [singletons, List.getElem?_map, Option.map_eq_some_iff] at value
    obtain ⟨v, value, same⟩ := value
    obtain rfl := List.singleton_inj.1 same
    exact (places i separator items value).imp id fun allowed => allowed p name

theorem Fills.of_expand? (hs : s ∈ registry) (h : s.kind.expand? vs = some parts) :
    s.Fills vs (singletons parts) := by
  have width : parts.length = s.longhands.length := by
    rw [length_longhands s hs, Kind.length_of_expand? h]
  refine .of_width width fun i separator items found => ?_
  have bound : i < 6 :=
    calc i
      _ < parts.length := (List.getElem?_eq_some_iff.1 found).1
      _ ≤ 6 := by
        rw [Kind.length_of_expand? h]
        cases s.kind <;> decide
  exact (Kind.series_of_expand? h found).imp id (mem_seriesLonghands s hs i bound)

theorem Fills.of_parts? (hs : s ∈ registry) (h : s.parts? vs = some parts) :
    s.Fills vs (singletons parts) := by
  rcases parts?_eq_some h with ⟨v, global, rfl⟩ | expanded
  · refine .of_width (List.length_map _) fun i separator items found => ?_
    obtain ⟨-, -, rfl⟩ := List.mem_map.1 (List.mem_of_getElem? found)
    rw [isGlobal_series] at global
    cases global
  · exact .of_expand? hs expanded

theorem longhandsOf_eq_zipWith (s : Shorthand) (d : Declaration) (parts : List Value) :
    s.longhandsOf d parts =
      List.zipWith (fun p values => ⟨p, values, d.important⟩) s.longhands (singletons parts) := by
  rw [longhandsOf, singletons, List.zipWith_map_right]

theorem values_longhandsOf (width : parts.length = s.longhands.length) :
    (s.longhandsOf d parts).map (·.values) = singletons parts := by
  have width : (singletons parts).length ≤ s.longhands.length := by
    rw [singletons, List.length_map, width]
  conv_rhs => rw [← List.map_snd_zip width, List.zip, List.map_zipWith]
  rw [longhandsOf_eq_zipWith, List.map_zipWith]

/-- The expanders of all shorthands fill every longhand with one value: there are as many
values as longhands, so none is left out where the two are put together, and every declaration
that a shorthand gives way to has the one value of its longhand. -/
theorem every_longhand_filled (hs : s ∈ registry) :
    (∀ vs, s.kind.expand? vs = (s.kind.lists? vs).map List.flatten ∧
      s.parts? vs = (s.lists? vs).map List.flatten) ∧
    (∀ vs lists, s.kind.lists? vs = some lists → s.Fills vs lists) ∧
    ∀ d : Declaration, d.property = s.name → ∀ lists, s.lists? d.values = some lists →
      s.Fills d.values lists ∧
      s.rewrite d = List.zipWith (fun p values => ⟨p, values, d.important⟩) s.longhands lists ∧
      (s.rewrite d).map (·.property) = s.longhands ∧ (s.rewrite d).map (·.values) = lists ∧
      ∀ e ∈ s.rewrite d, ∃ v, e.values = [v] ∧ e.value? = some v := by
  refine ⟨fun vs => ?_, fun vs lists accepted => ?_, fun d named lists accepted => ?_⟩
  · simp only [Kind.lists?_eq, lists?_eq, Option.map_map, Function.comp_def, flatten_singletons,
      Option.map_id', and_self]
  · rw [Kind.lists?_eq, Option.map_eq_some_iff] at accepted
    obtain ⟨parts, expanded, rfl⟩ := accepted
    exact .of_expand? hs expanded
  · rw [lists?_eq, Option.map_eq_some_iff] at accepted
    obtain ⟨parts, expanded, rfl⟩ := accepted
    have width := length_of_parts? hs expanded
    have filling : s.Fills d.values (singletons parts) := .of_parts? hs expanded
    rw [rewrite_of_parts named expanded]
    refine ⟨filling, longhandsOf_eq_zipWith s d parts, property_longhandsOf width,
      values_longhandsOf width, fun e he => ?_⟩
    have member : e.values ∈ singletons parts := by
      rw [← values_longhandsOf (d := d) width]
      exact List.mem_map_of_mem he
    obtain ⟨v, only⟩ := List.length_eq_one_iff.1 (filling.single _ member)
    exact ⟨v, only, by rw [Declaration.value?, only]; rfl⟩

/-- A size with a line height, and a family of two words. -/
theorem font_is_filled :
    let size : Value := .size (.ofNumber 12 (some "px"))
    let height : Value := .size (.ofNumber 1.5 none)
    let words : List Value := [.keyword "noto", .keyword "serif"]
    let d : Declaration := ⟨"font", .series .slash [size, height] :: words, true⟩
    let lists := [[Font.normal], [Font.normal], [Font.normal], [size], [height],
      [.series .space words]]
    font ∈ registry ∧ font.kind.lists? d.values = some lists ∧ d.property = font.name ∧
      font.lists? d.values = some lists ∧ font.Fills d.values lists ∧
      (font.rewrite d).map (·.property) = font.longhands ∧
      (font.rewrite d).map (·.values) = lists := by
  intro size height words d lists
  have registered : font ∈ registry := by decide
  have known : font.kind.lists? d.values = some lists := rfl
  have accepted : font.lists? d.values = some lists := rfl
  obtain ⟨-, filling, rewritten⟩ := every_longhand_filled registered
  obtain ⟨-, -, properties, values, -⟩ := rewritten d rfl lists accepted
  exact ⟨registered, known, rfl, accepted, filling _ _ known, properties, values⟩

end Stylesheet.Shorthand
