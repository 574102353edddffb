import Mathlib
import Stylesheet.Proofs.Shorthand.Background
import Stylesheet.Proofs.Shorthand.Border
import Stylesheet.Proofs.Shorthand.ListStyle
import Stylesheet.Proofs.Shorthand.Slots

/-!
# The order in which a shorthand is written

The tokens of a border, a list style and a background are sorted by part, so it does not
matter where each of them stands. Only the tokens of a position make one value together,
and keep their order in it. A list is taken apart exactly if every token is known and no
part that has one value is given two, where a `none` in a list style needs a type or an
image that is still open. So nothing that was written is lost.
-/

namespace Stylesheet.Shorthand

section Parts

variable {κ : Type} {part? : Value → Option κ} {vs ws : List Value}

theorem allKnown_perm (perm : vs.Perm ws) : allKnown part? vs = allKnown part? ws :=
  perm.all_eq

theorem single?_perm (initial : Value) (perm : vs.Perm ws) :
    single? initial vs = single? initial ws := by
  match vs with
  | [] => rw [perm.nil_eq]
  | [v] => rw [perm.singleton_eq]
  | v :: w :: vs =>
      match ws, perm.length_eq with
      | _ :: _ :: _, _ => rfl

theorem single?_eq_some_iff {initial v : Value} :
    single? initial vs = some v ↔ vs.length ≤ 1 ∧ vs.headD initial = v := by
  match vs with
  | [] => simp
  | [w] => simp
  | _ :: _ :: _ => simp [single?]

/-- What is given for the part is found in what it is read as. -/
theorem sublist_of_single? {initial v : Value} (h : single? initial vs = some v)
    (flat : ∀ w ∈ vs, ∀ items, w ≠ .series .space items) :
    vs.Sublist (Value.flattenSpaces [v]) := by
  rcases vs with _ | ⟨w, _ | ⟨u, vs⟩⟩
  · exact List.nil_sublist _
  · obtain rfl := Option.some.inj h
    rw [Value.flattenSpaces_of_forall flat]
  · cases h

theorem ne_space_of_single? {initial v : Value} (h : single? initial vs = some v)
    (start : ∀ items, initial ≠ .series .space items)
    (flat : ∀ w ∈ vs, ∀ items, w ≠ .series .space items) : ∀ items, v ≠ .series .space items := by
  rcases eq_initial_or_mem_of_single? h with rfl | member
  · exact start
  · exact flat v member

variable [DecidableEq κ]

theorem valuesOf_perm (perm : vs.Perm ws) (k : κ) :
    (valuesOf part? k vs).Perm (valuesOf part? k ws) :=
  perm.filter _

end Parts

/-- How a shorthand is read whose tokens are sorted by part. All that matters of their
order is the order of those that are `ordered` among themselves. The reader succeeds on what
is `admitted`, and what it gives then holds every token, in its spelling. -/
structure SortsTokens (expand? : List Value → Option (List Value)) (ordered : Value → Bool)
    (admitted : List Value → Prop) (spelling : Value → Value) : Prop where
  rearranged : ∀ vs ws, (Value.flattenSpaces vs).Perm (Value.flattenSpaces ws) →
    (Value.flattenSpaces vs).filter ordered = (Value.flattenSpaces ws).filter ordered →
    expand? vs = expand? ws
  accepted : ∀ vs, (∃ parts, expand? vs = some parts) ↔ admitted (Value.flattenSpaces vs)
  kept : ∀ vs parts, expand? vs = some parts →
    ((Value.flattenSpaces vs).map spelling).Subperm (Value.flattenSpaces parts)

namespace Border

/-- A border is read by going through its tokens one after the other, with a slot for each
part. -/
theorem expand?_eq_placeAll? (vs : List Value) :
    expand? vs = (placeAll? part? (fun _ => false) (Value.flattenSpaces vs)).map fun slots =>
      [(slots .width).headD (.keyword "medium"), (slots .style).headD (.keyword "none"),
        (slots .color).headD (.keyword "currentcolor")] := by
  apply Option.ext
  intro parts
  simp only [expand?_eq_some, Option.map_eq_some_iff, placeAll?_eq_some, single?_eq_some_iff]
  constructor
  · rintro ⟨known, width, style, color, ⟨hw, rfl⟩, ⟨hs, rfl⟩, ⟨hc, rfl⟩, rfl⟩
    have once (k : Part) : (valuesOf part? k (Value.flattenSpaces vs)).length ≤ 1 := by
      cases k <;> assumption
    exact ⟨_, ⟨⟨allKnown_iff.1 known, fun k _ => once k⟩, rfl⟩, rfl⟩
  · rintro ⟨slots, ⟨admitted, rfl⟩, rfl⟩
    exact ⟨allKnown_iff.2 admitted.known, _, _, _, ⟨admitted.once .width rfl, rfl⟩,
      ⟨admitted.once .style rfl, rfl⟩, ⟨admitted.once .color rfl, rfl⟩, rfl⟩

theorem subperm_of_expand? {vs parts : List Value} (h : expand? vs = some parts) :
    (Value.flattenSpaces vs).Subperm (Value.flattenSpaces parts) := by
  obtain ⟨known, width, style, color, hw, hs, hc, rfl⟩ := expand?_eq_some.1 h
  have sorted : (Value.flattenSpaces vs).Perm
      ([.width, .style, .color].flatMap fun k => valuesOf part? k (Value.flattenSpaces vs)) := by
    apply perm_of_allKnown (by decide) _ known
    intro k
    cases k <;> simp
  have flat (k : Part) : ∀ v ∈ valuesOf part? k (Value.flattenSpaces vs), ∀ items,
      v ≠ .series .space items :=
    fun v hv => ne_series_of_part? (mem_valuesOf.1 hv).2 .space
  refine sorted.subperm.trans (List.Sublist.subperm ?_)
  rw [Value.flattenSpaces_cons width, Value.flattenSpaces_cons style]
  simp only [List.flatMap_cons, List.flatMap_nil, List.append_nil]
  exact (sublist_of_single? hw (flat _)).append
    ((sublist_of_single? hs (flat _)).append (sublist_of_single? hc (flat _)))

/-- A border is read by its tokens, in any order. -/
theorem sortsTokens :
    SortsTokens expand? (fun _ => false) (Admits part? fun _ => false) id where
  rearranged vs ws perm _ := by
    simp only [expand?, allKnown_perm perm, single?_perm _ (valuesOf_perm perm _)]
  accepted vs := by
    rw [← exists_placeAll?_iff, expand?_eq_placeAll?]
    simp only [← Option.isSome_iff_exists, Option.isSome_map]
  kept vs parts h := by
    rw [List.map_id]
    exact subperm_of_expand? h

end Border

namespace Background

/-- A background is read by going through its tokens one after the other, with a slot for
each part, of which only that of the position takes several. -/
theorem expand?_eq_placeAll? (vs : List Value) :
    expand? vs =
      (placeAll? part? (fun k => k = .position) (Value.flattenSpaces vs)).map fun slots =>
        [(slots .color).headD (.keyword "transparent"), (slots .image).headD (.keyword "none"),
          (slots .repetition).headD (.keyword "repeat"), position (slots .position),
          (slots .attachment).headD (.keyword "scroll")] := by
  apply Option.ext
  intro parts
  simp only [expand?_eq_some, Option.map_eq_some_iff, placeAll?_eq_some, single?_eq_some_iff]
  constructor
  · rintro ⟨known, color, image, repetition, attachment, ⟨hc, rfl⟩, ⟨hi, rfl⟩, ⟨hr, rfl⟩, ⟨ha, rfl⟩,
      rfl⟩
    have once (k : Part) (single : k ≠ .position) :
        (valuesOf part? k (Value.flattenSpaces vs)).length ≤ 1 := by
      cases k <;> first | assumption | exact absurd rfl single
    exact ⟨_, ⟨⟨allKnown_iff.1 known, fun k h => once k (by simpa using h)⟩, rfl⟩, rfl⟩
  · rintro ⟨slots, ⟨admitted, rfl⟩, rfl⟩
    exact ⟨allKnown_iff.2 admitted.known, _, _, _, _, ⟨admitted.once .color rfl, rfl⟩,
      ⟨admitted.once .image rfl, rfl⟩, ⟨admitted.once .repetition rfl, rfl⟩,
      ⟨admitted.once .attachment rfl, rfl⟩, rfl⟩

theorem part?_eq_position {v : Value} :
    part? v = some .position ↔ (v.isSize || v.isOneOf positionWords) = true := by
  unfold part?
  split
  · next position => simp [position]
  · next other =>
      refine iff_of_false ?_ other
      split_ifs <;> simp

/-- The tokens of the position are found in it in their order. -/
theorem sublist_position {vs : List Value} (flat : ∀ v ∈ vs, ∀ items, v ≠ .series .space items) :
    vs.Sublist (Value.flattenSpaces [position vs]) := by
  by_cases empty : vs = []
  · rw [empty]
    exact List.nil_sublist _
  · rw [position, if_neg (by simpa using empty), Value.flattenSpaces_joinSpaces flat]

theorem subperm_of_expand? {vs parts : List Value} (h : expand? vs = some parts) :
    (Value.flattenSpaces vs).Subperm (Value.flattenSpaces parts) := by
  obtain ⟨known, color, image, repetition, attachment, hc, hi, hr, ha, rfl⟩ := expand?_eq_some.1 h
  have sorted : (Value.flattenSpaces vs).Perm
      ([.color, .image, .repetition, .position, .attachment].flatMap fun k =>
        valuesOf part? k (Value.flattenSpaces vs)) := by
    apply perm_of_allKnown (by decide) _ known
    intro k
    cases k <;> simp
  have flat (k : Part) : ∀ v ∈ valuesOf part? k (Value.flattenSpaces vs), ∀ items,
      v ≠ .series .space items :=
    fun v hv => ne_space_of_part? (mem_valuesOf.1 hv).2
  refine sorted.subperm.trans (List.Sublist.subperm ?_)
  rw [Value.flattenSpaces_cons color, Value.flattenSpaces_cons image,
    Value.flattenSpaces_cons repetition, Value.flattenSpaces_cons (position _)]
  simp only [List.flatMap_cons, List.flatMap_nil, List.append_nil]
  exact (sublist_of_single? hc (flat _)).append <| (sublist_of_single? hi (flat _)).append <|
    (sublist_of_single? hr (flat _)).append <| (sublist_position (flat _)).append
      (sublist_of_single? ha (flat _))

/-- A background is read by its tokens, in any order that keeps those of its position. -/
theorem sortsTokens :
    SortsTokens expand? (fun v => v.isSize || v.isOneOf positionWords)
      (Admits part? fun k => k = .position) id where
  rearranged vs ws perm same := by
    have position : valuesOf part? .position (Value.flattenSpaces vs) =
        valuesOf part? .position (Value.flattenSpaces ws) := by
      simpa only [valuesOf, part?_eq_position, Bool.decide_eq_true] using same
    simp only [expand?, allKnown_perm perm, single?_perm _ (valuesOf_perm perm _), position]
  accepted vs := by
    rw [← exists_placeAll?_iff, expand?_eq_placeAll?]
    simp only [← Option.isSome_iff_exists, Option.isSome_map]
  kept vs parts h := by
    rw [List.map_id]
    exact subperm_of_expand? h

end Background

namespace ListStyle

/-- The tokens of which a list style is made: a `none` needs a type or an image that no other
token gives. -/
structure Admitted (tokens : List Value) : Prop
    extends Admits part? (fun k => k = .absent) tokens where
  few : (valuesOf part? .absent tokens).length + (valuesOf part? .type tokens).length +
    (valuesOf part? .image tokens).length ≤ 2

theorem toList_head? {vs : List Value} (few : vs.length ≤ 1) : vs.head?.toList = vs := by
  match vs with
  | [] => rfl
  | [_] => rfl

/-- Let each `none` stand for the type, or else for the image. -/
def fill? : Nat → Option Value → Option Value → Option (Option Value × Option Value)
  | 0, type, image => some (type, image)
  | nones + 1, none, image => fill? nones (some (.keyword "none")) image
  | nones + 1, some type, none => fill? nones (some type) (some (.keyword "none"))
  | _ + 1, some _, some _ => none

theorem map_fill? (nones : Nat) (type image : Option Value) (position : Value) :
    ((fill? nones type image).map fun filled =>
        [filled.1.getD (.keyword "disc"), position, filled.2.getD (.keyword "none")]) =
      if nones + type.toList.length + image.toList.length ≤ 2 then
        some [type.getD (.keyword (if nones = 0 then "disc" else "none")), position,
          image.getD (.keyword "none")]
      else none := by
  rcases nones with _ | _ | _ | nones <;> cases type <;> cases image <;> rfl

/-- A list style is read by going through its tokens one after the other, with a slot for each
part. Only that of `none` takes several, which are settled in the end. -/
theorem expand?_eq_placeAll? (vs : List Value) :
    expand? vs =
      (placeAll? part? (fun k => k = .absent) (Value.flattenSpaces vs)).bind fun slots =>
        (fill? (slots .absent).length (slots .type).head? (slots .image).head?).map fun filled =>
          [filled.1.getD (.keyword "disc"), (slots .position).headD (.keyword "outside"),
            filled.2.getD (.keyword "none")] := by
  apply Option.ext
  intro parts
  simp only [expand?_eq_some, Option.bind_eq_some_iff, placeAll?_eq_some, single?_eq_some_iff,
    map_fill?, Option.ite_none_right_eq_some, Option.some.injEq, ← List.headD_eq_head?_getD]
  constructor
  · rintro ⟨known, few, type, position, image, ⟨ht, rfl⟩, ⟨hp, rfl⟩, ⟨hi, rfl⟩, rfl⟩
    have once (k : Part) (single : k ≠ .absent) :
        (valuesOf part? k (Value.flattenSpaces vs)).length ≤ 1 := by
      cases k <;> first | assumption | exact absurd rfl single
    refine ⟨_, ⟨⟨allKnown_iff.1 known, fun k h => once k (by simpa using h)⟩, rfl⟩, ?_, rfl⟩
    rwa [toList_head? ht, toList_head? hi]
  · rintro ⟨slots, ⟨admitted, rfl⟩, few, rfl⟩
    have ht := admitted.once .type rfl
    have hi := admitted.once .image rfl
    rw [toList_head? ht, toList_head? hi] at few
    exact ⟨allKnown_iff.2 admitted.known, few, _, _, _, ⟨ht, rfl⟩,
      ⟨admitted.once .position rfl, rfl⟩, ⟨hi, rfl⟩, rfl⟩

theorem exists_expand?_iff {vs : List Value} :
    (∃ parts, expand? vs = some parts) ↔ Admitted (Value.flattenSpaces vs) := by
  simp only [expand?_eq_placeAll?, Option.bind_eq_some_iff, placeAll?_eq_some, map_fill?,
    Option.ite_none_right_eq_some]
  constructor
  · rintro ⟨-, slots, ⟨admitted, rfl⟩, few, -⟩
    rw [toList_head? (admitted.once .type rfl), toList_head? (admitted.once .image rfl)] at few
    exact ⟨admitted, few⟩
  · intro admitted
    refine ⟨_, _, ⟨admitted.toAdmits, rfl⟩, ?_, rfl⟩
    rw [toList_head? (admitted.once .type rfl), toList_head? (admitted.once .image rfl)]
    exact admitted.few

/-- The type, the image and every `none` are found in what the type and the image are read
as. -/
theorem subperm_type_image {types images : List Value} {nones : Nat} {type image : Value}
    (few : nones + types.length + images.length ≤ 2)
    (ht : single? (.keyword (if nones = 0 then "disc" else "none")) types = some type)
    (hi : single? (.keyword "none") images = some image) :
    (types ++ (images ++ List.replicate nones (.keyword "none" : Value))).Subperm
      [type, image] := by
  rcases types with _ | ⟨t, _ | ⟨t', types⟩⟩ <;> rcases images with _ | ⟨i, _ | ⟨i', images⟩⟩ <;>
    cases ht <;> cases hi
  case nil.nil =>
    have small : nones ≤ 2 := by simpa using few
    interval_cases nones
    · exact List.nil_subperm
    · exact List.Sublist.subperm (by simp)
    · exact List.Subperm.refl _
  case nil.cons.nil =>
    have small : nones ≤ 1 := by simpa using few
    interval_cases nones
    · exact (List.sublist_cons_self _ _).subperm
    · exact (List.Perm.swap _ _ _).subperm
  case cons.nil.nil =>
    have small : nones ≤ 1 := by simpa using few
    interval_cases nones
    · exact List.Sublist.subperm (by simp)
    · exact List.Subperm.refl _
  case cons.nil.cons.nil =>
    have small : nones = 0 := by simpa using few
    rw [small]
    exact List.Subperm.refl _

theorem map_respelled_valuesOf {k : Part} (other : k ≠ .absent) (vs : List Value) :
    (valuesOf part? k vs).map (·.respelled "none") = valuesOf part? k vs := by
  refine Eq.trans (List.map_congr_left ?_) (List.map_id _)
  intro v hv
  apply Value.respelled_of_not_isKeyword
  rw [isKeyword_none, (mem_valuesOf.1 hv).2]
  simpa using other

theorem map_respelled_absent (vs : List Value) :
    (valuesOf part? .absent vs).map (·.respelled "none") =
      List.replicate (valuesOf part? .absent vs).length (.keyword "none") := by
  rw [List.map_eq_replicate_iff]
  intro v hv
  apply Value.respelled_of_isKeyword
  rw [isKeyword_none, (mem_valuesOf.1 hv).2, decide_eq_true rfl]

theorem subperm_of_expand? {vs parts : List Value} (h : expand? vs = some parts) :
    ((Value.flattenSpaces vs).map (·.respelled "none")).Subperm (Value.flattenSpaces parts) := by
  obtain ⟨known, few, type, position, image, ht, hp, hi, rfl⟩ := expand?_eq_some.1 h
  generalize Value.flattenSpaces vs = tokens at *
  have flat (k : Part) : ∀ v ∈ valuesOf part? k tokens, ∀ items, v ≠ .series .space items :=
    fun v hv => ne_space_of_part? (mem_valuesOf.1 hv).2
  have whole : Value.flattenSpaces [type, position, image] = [type, position, image] := by
    apply Value.flattenSpaces_of_forall
    simp only [List.forall_mem_cons, List.not_mem_nil, false_implies, implies_true, and_true]
    exact ⟨ne_space_of_single? ht (by simp) (flat _), ne_space_of_single? hp (by simp) (flat _),
      ne_space_of_single? hi (by simp) (flat _)⟩
  have sorted : tokens.Perm
      ([.position, .type, .image, .absent].flatMap fun k => valuesOf part? k tokens) := by
    apply perm_of_allKnown (by decide) _ known
    intro k
    cases k <;> simp
  have spelled := sorted.map (·.respelled "none")
  simp only [List.flatMap_cons, List.flatMap_nil, List.append_nil, List.map_append] at spelled
  rw [map_respelled_valuesOf (by decide), map_respelled_valuesOf (by decide),
    map_respelled_valuesOf (by decide), map_respelled_absent] at spelled
  rw [whole]
  have places : (valuesOf part? .position tokens).Subperm [position] := by
    have found := sublist_of_single? hp (flat _)
    rw [Value.flattenSpaces_singleton (ne_space_of_single? hp (by simp) (flat _))] at found
    exact found.subperm
  have found := places.append (subperm_type_image few ht hi)
  exact spelled.subperm.trans (found.trans (List.Perm.swap _ _ _).subperm)

/-- A list style is read by its tokens, in any order. -/
theorem sortsTokens : SortsTokens expand? (fun _ => false) Admitted (·.respelled "none") where
  rearranged vs ws perm _ := by
    simp only [expand?, allKnown_perm perm, single?_perm _ (valuesOf_perm perm _),
      (valuesOf_perm perm _).length_eq]
  accepted _ := exists_expand?_iff
  kept _ _ h := subperm_of_expand? h

end ListStyle

/-- A border, a list style and a background are taken apart in the same way however their
tokens are arranged, the tokens of a position among themselves apart. They are taken apart
exactly if every token is known and no part is given twice, and then no token is lost. -/
theorem arrangement_irrelevant :
    SortsTokens Border.expand? (fun _ => false) (Admits Border.part? fun _ => false) id ∧
      SortsTokens ListStyle.expand? (fun _ => false) ListStyle.Admitted (·.respelled "none") ∧
      SortsTokens Background.expand? (fun v => v.isSize || v.isOneOf positionWords)
        (Admits Background.part? fun k => k = .position) id :=
  ⟨Border.sortsTokens, ListStyle.sortsTokens, Background.sortsTokens⟩

/-- An image may stand behind the position as well as in front of it. -/
theorem image_may_stand_last :
    let image := Value.url "a.png"
    let others := [.keyword "left", .keyword "transparent", .keyword "top"]
    let vs := image :: others
    let ws := others ++ [image]
    Background.expand? vs = Background.expand? ws ∧
      ∃ parts, Background.expand? vs = some parts ∧ vs.Subperm (Value.flattenSpaces parts) := by
  intro image others vs ws
  obtain ⟨-, -, background⟩ := arrangement_irrelevant
  have perm : (Value.flattenSpaces vs).Perm (Value.flattenSpaces ws) :=
    (List.perm_append_singleton image others).symm
  refine ⟨background.rearranged vs ws perm rfl, ?_⟩
  obtain ⟨parts, read⟩ : ∃ parts, Background.expand? vs = some parts := ⟨_, rfl⟩
  exact ⟨parts, read, background.kept vs parts read⟩

end Stylesheet.Shorthand
