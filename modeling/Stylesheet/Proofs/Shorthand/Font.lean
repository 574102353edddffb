import Stylesheet.Proofs.Shorthand.Part
import Stylesheet.Proofs.Shorthand.Words
import Stylesheet.Shorthand.Font

/-!
# Which fonts are read back

A font is read from the front: values that say something about the style, the variant
or the weight are taken one by one, the first other value is the size, and the rest is
the family. The leading values of a font that was put together are read back if they
are of their own kinds. The size has to stop the reader, which a size joined with a line
height always does, and a size alone only if it is no weight. And the rest is the family
again unless that is a series of spaces with fewer than two members.
-/

namespace Stylesheet.Shorthand.Font

/-! ### The reader -/

/-- Whether a value may stand in front of the size. -/
def leads (v : Value) : Bool :=
  v.isKeyword "normal" || v.isOneOf fontStyleWords || v.isKeyword "small-caps" || isFontWeight v

/-- Take a value in front of the size. -/
def Lead.take (lead : Lead) (v : Value) : Lead :=
  if v.isKeyword "normal" then lead
  else if v.isOneOf fontStyleWords then { lead with style := some v }
  else if v.isKeyword "small-caps" then { lead with variant := some v }
  else { lead with weight := some v }

variable {lead : Lead} {v w : Value} {vs : List Value}

theorem read?_of_leads (h : leads v = true) : read? lead (v :: vs) = read? (lead.take v) vs := by
  simp only [leads, Bool.or_eq_true] at h
  rw [read?, Lead.take]
  split
  · rfl
  · split
    · rfl
    · split
      · rfl
      · next normal style variant =>
          rw [if_pos (by tauto)]

theorem read?_of_not_leads (h : leads v = false) :
    read? lead (v :: vs) =
      (size? v).map fun (size, lineHeight) => ⟨lead, size, lineHeight, vs⟩ := by
  simp only [leads, Bool.or_eq_false_iff] at h
  simp [read?, h]

/-- The reader takes leading values as long as there are any, and then the size. -/
theorem read?_eq_some {parts : Parts} :
    read? lead vs = some parts ↔ ∃ before v, vs = before ++ v :: parts.family ∧
      (∀ w ∈ before, leads w = true) ∧ leads v = false ∧
      before.foldl Lead.take lead = parts.lead ∧
      size? v = some (parts.size, parts.lineHeight) := by
  induction vs generalizing lead with
  | nil => simp [read?]
  | cons w vs ih =>
      cases h : leads w with
      | true =>
          rw [read?_of_leads h, ih]
          constructor
          · rintro ⟨before, v, rfl, all, stops, taken, size⟩
            exact ⟨w :: before, v, rfl, by simpa [h] using all, stops, taken, size⟩
          · rintro ⟨before, v, split, all, stops, taken, size⟩
            cases before with
            | nil =>
                obtain ⟨rfl, -⟩ := List.cons.inj split
                rw [h] at stops
                cases stops
            | cons u before =>
                obtain ⟨rfl, rfl⟩ := List.cons.inj split
                exact ⟨before, v, rfl, fun x hx => all x (List.mem_cons_of_mem _ hx), stops,
                  taken, size⟩
      | false =>
          rw [read?_of_not_leads h, Option.map_eq_some_iff]
          constructor
          · rintro ⟨⟨size, lineHeight⟩, found, rfl⟩
            exact ⟨[], w, rfl, by simp, h, rfl, found⟩
          · rintro ⟨before, v, split, all, stops, taken, size⟩
            cases before with
            | nil =>
                obtain ⟨rfl, rfl⟩ := List.cons.inj split
                obtain rfl : lead = parts.lead := taken
                exact ⟨_, size, rfl⟩
            | cons u before =>
                obtain ⟨rfl, -⟩ := List.cons.inj split
                rw [all w List.mem_cons_self] at h
                cases h

theorem read?_append (h : ∀ v ∈ vs, leads v = true) (ws : List Value) :
    read? lead (vs ++ ws) = read? (vs.foldl Lead.take lead) ws := by
  induction vs generalizing lead with
  | nil => rfl
  | cons v vs ih =>
      rw [List.cons_append, read?_of_leads (h v List.mem_cons_self),
        ih fun w hw => h w (List.mem_cons_of_mem _ hw), List.foldl_cons]

/-- What is known of the values that were taken. -/
structure Lead.Sorted (lead : Lead) : Prop where
  style : ∀ v ∈ lead.style, v.isOneOf fontStyleWords = true
  variant : ∀ v ∈ lead.variant, v.isKeyword "small-caps" = true
  weight : ∀ v ∈ lead.weight, isFontWeight v = true

theorem Lead.Sorted.take (sorted : lead.Sorted) (h : leads v = true) : (lead.take v).Sorted := by
  simp only [leads, Bool.or_eq_true] at h
  unfold Lead.take
  split
  · exact sorted
  · split
    · next style =>
        exact ⟨by rintro w ⟨⟩; exact style, sorted.variant, sorted.weight⟩
    · split
      · next variant =>
          exact ⟨sorted.style, by rintro w ⟨⟩; exact variant, sorted.weight⟩
      · exact ⟨sorted.style, sorted.variant, by rintro w ⟨⟩; tauto⟩

theorem Lead.Sorted.foldl (sorted : lead.Sorted) (h : ∀ v ∈ vs, leads v = true) :
    (vs.foldl Lead.take lead).Sorted := by
  induction vs generalizing lead with
  | nil => exact sorted
  | cons v vs ih =>
      exact ih (sorted.take (h v List.mem_cons_self)) fun w hw => h w (List.mem_cons_of_mem _ hw)

/-- A size is the value it comes from, or it comes from in front of a slash. -/
theorem size?_eq_some {size : Value} {lineHeight : Option Value} :
    size? v = some (size, lineHeight) ↔
      (∃ height, v = .series .slash [size, height] ∧ lineHeight = some height) ∨
        v = size ∧ lineHeight = none ∧ (size.isSize || size.isOneOf fontSizeWords) = true := by
  unfold size?
  split
  · next first height =>
      constructor
      · rintro ⟨⟩
        exact Or.inl ⟨height, rfl, rfl⟩
      · rintro (⟨height, equal, rfl⟩ | ⟨rfl, rfl, kind⟩)
        · cases equal
          rfl
        · rw [Value.isOneOf_series] at kind
          cases kind
  · next s items other =>
      constructor
      · rintro ⟨⟩
      · rintro (⟨height, equal, rfl⟩ | ⟨rfl, rfl, kind⟩)
        · cases equal
          exact absurd rfl (other _ _ rfl)
        · rw [Value.isOneOf_series] at kind
          cases kind
  · next no_slash no_series =>
      split
      · next kind =>
          constructor
          · rintro ⟨⟩
            exact Or.inr ⟨rfl, rfl, kind⟩
          · rintro (⟨height, rfl, rfl⟩ | ⟨rfl, rfl, -⟩)
            · exact absurd rfl (no_slash _ _)
            · rfl
      · next kind =>
          constructor
          · rintro ⟨⟩
          · rintro (⟨height, rfl, rfl⟩ | ⟨rfl, rfl, found⟩)
            · exact absurd rfl (no_slash _ _)
            · exact absurd found kind

theorem leads_series (s : Separator) (items : List Value) : leads (.series s items) = false := by
  simp [leads, ← Value.isOneOf_singleton, Value.isOneOf_series, isFontWeight_series]

theorem tokens_of_length (several : 2 ≤ vs.length) : tokens vs = (Value.flattenSpaces vs, []) := by
  unfold tokens
  split
  · simp at several
  · simp at several
  · rfl

/-- The longhands of a font that is no single series of layers. -/
theorem expand?_eq_some {longhands : List Value} (several : 2 ≤ vs.length) :
    expand? vs = some longhands ↔ ∃ parts,
      read? ⟨none, none, none⟩ (Value.flattenSpaces vs) = some parts ∧ parts.family ≠ [] ∧
      longhands = [parts.lead.style.getD normal, parts.lead.variant.getD normal,
        parts.lead.weight.getD normal, parts.size, parts.lineHeight.getD normal,
        .joinSpaces parts.family] := by
  simp only [expand?, tokens_of_length several, Option.bind_eq_bind, Option.bind_eq_some_iff,
    Option.guard_eq_some', List.append_nil]
  constructor
  · rintro ⟨parts, found, -, some_left, rest⟩
    exact ⟨parts, found, by simpa using some_left, (Option.some.inj rest).symm⟩
  · rintro ⟨parts, found, some_left, rfl⟩
    exact ⟨parts, found, (), by simpa using some_left, rfl⟩

/-! ### What is written -/

/-- A leading value as it is written: `normal` is left out. -/
def written (held : Option Value) : Option Value := held.filter fun v => !v.isKeyword "normal"

/-- The leading values that are written, in their order. -/
def leading (style variant weight : Option Value) : List Value :=
  (written style).toList ++ ((written variant).toList ++ (written weight).toList)

variable {style variant weight lineHeight : Option Value} {size family : Value}

/-- What a font is put together to. -/
theorem compact?_eq_some {values : List Value}
    (h : compact? [style, variant, weight, some size, lineHeight, some family] = some values) :
    values = leading style variant weight ++ [sizeWithHeight size lineHeight, family] := by
  simp only [compact?] at h
  split at h
  · cases h
  · obtain rfl := Option.some.inj h
    have present : [style, variant, weight].filterMap id =
        style.toList ++ (variant.toList ++ weight.toList) := by
      cases style <;> cases variant <;> cases weight <;> rfl
    rw [present]
    simp only [leading, written, Option.toList_filter, List.filter_append]

theorem mem_written {held : Option Value} :
    v ∈ written held ↔ v ∈ held ∧ v.isKeyword "normal" = false := by
  simp [written]

/-- What is written is read as the value with `normal` in lower case. -/
theorem getD_written_eq (held : Option Value) :
    (written held).getD normal = (held.map (·.respelled "normal")).getD normal := by
  cases held with
  | none => rfl
  | some v =>
      cases said : v.isKeyword "normal" with
      | true => simp [written, Option.filter_some, said, Value.respelled_of_isKeyword said, normal]
      | false => simp [written, Option.filter_some, said, Value.respelled_of_not_isKeyword said]

theorem getD_written {held : Option Value}
    (h : ∀ v ∈ held, v.isKeyword "normal" = true → v = normal) :
    ∀ v ∈ held, ((written held).getD normal).Agrees v := by
  rintro v rfl
  rw [getD_written_eq]
  exact Value.agrees_respelled (h v rfl)

/-- The values in front of the size are of their own kinds, or `normal`. -/
structure LeadFits (style variant weight : Option Value) : Prop where
  style : ∀ v ∈ style, v.isOneOf fontStyleWords = true ∨ v = normal
  variant : ∀ v ∈ variant, v.isKeyword "small-caps" = true ∨ v = normal
  weight : ∀ v ∈ weight, isFontWeight v = true ∨ v = normal

/-- Moreover a size that is alone is no weight, and the family is not a series of spaces
with fewer than two members. -/
structure Fits (style variant weight : Option Value) (size : Value) (lineHeight : Option Value)
    (family : Value) : Prop extends LeadFits style variant weight where
  size : (∃ v ∈ lineHeight, v.isKeyword "normal" = false) ∨
    (size.isSize || size.isOneOf fontSizeWords) = true ∧ isFontWeight size = false
  lineHeight : ∀ v ∈ lineHeight, v.isKeyword "normal" = true → v = normal
  family : family.Rejoins

/-! ### Kinds of leading values -/

theorem not_normal_of_style (h : v.isOneOf fontStyleWords = true) :
    v.isKeyword "normal" = false :=
  Value.isKeyword_eq_false h (by decide_cbv)

theorem not_normal_of_variant (h : v.isKeyword "small-caps" = true) :
    v.isKeyword "normal" = false := by
  rw [← Value.isOneOf_singleton] at h
  exact Value.isKeyword_eq_false h (by decide_cbv)

theorem no_style_of_variant (h : v.isKeyword "small-caps" = true) :
    v.isOneOf fontStyleWords = false := by
  rw [← Value.isOneOf_singleton] at h
  exact Value.isOneOf_eq_false h (by decide_cbv)

theorem not_normal_of_weight (h : isFontWeight v = true) : v.isKeyword "normal" = false :=
  isKeyword_of_isFontWeight h (by decide_cbv)

theorem take_style (h : v.isOneOf fontStyleWords = true) :
    lead.take v = { lead with style := some v } := by
  simp [Lead.take, not_normal_of_style h, h]

theorem take_variant (h : v.isKeyword "small-caps" = true) :
    lead.take v = { lead with variant := some v } := by
  simp [Lead.take, not_normal_of_variant h, no_style_of_variant h, h]

theorem take_weight (h : isFontWeight v = true) :
    lead.take v = { lead with weight := some v } := by
  have no_style : v.isOneOf fontStyleWords = false := isOneOf_of_isFontWeight h (by decide_cbv)
  have no_variant : v.isKeyword "small-caps" = false := isKeyword_of_isFontWeight h (by decide_cbv)
  simp [Lead.take, not_normal_of_weight h, no_style, no_variant]

theorem normal_or_kind {held : Option Value} {kind : Value → Bool}
    (fits : ∀ v ∈ held, kind v = true ∨ v = normal) :
    ∀ v ∈ held, v.isKeyword "normal" = true ∨ kind v = true := by
  intro v hv
  rcases fits v hv with known | rfl
  · exact Or.inr known
  · exact Or.inl (Value.isKeyword_self "normal")

/-- What is written for a longhand is of its kind. -/
theorem kind_of_mem_written {held : Option Value} {kind : Value → Bool}
    (kinds : ∀ v ∈ held, v.isKeyword "normal" = true ∨ kind v = true) (h : v ∈ written held) :
    kind v = true := by
  obtain ⟨member, loud⟩ := mem_written.1 h
  rcases kinds v member with said | known
  · rw [loud] at said
    cases said
  · exact known

/-- What is left out for a longhand comes back as it was. -/
theorem getD_written_of_kind {held : Option Value} {kind : Value → Bool}
    (apart : ∀ {v : Value}, kind v = true → v.isKeyword "normal" = false)
    (fits : ∀ v ∈ held, kind v = true ∨ v = normal) :
    ∀ v ∈ held, ((written held).getD normal).Agrees v := by
  apply getD_written
  intro v member said
  rcases fits v member with known | rfl
  · rw [apart known] at said
    cases said
  · rfl

/-- The values that are written in front of the size are of their own kinds. -/
structure LeadReads (style variant weight : Option Value) : Prop where
  style : ∀ v ∈ written style, v.isOneOf fontStyleWords = true
  variant : ∀ v ∈ written variant, v.isKeyword "small-caps" = true
  weight : ∀ v ∈ written weight, isFontWeight v = true

namespace LeadReads

variable (reads : LeadReads style variant weight)

include reads

/-- The reader takes every leading value that is written. -/
theorem leads (h : v ∈ leading style variant weight) : Font.leads v = true := by
  simp only [leading, List.mem_append, Option.mem_toList] at h
  simp only [Font.leads, Bool.or_eq_true]
  rcases h with h | h | h
  · exact Or.inl (Or.inl (Or.inr (reads.style v h)))
  · exact Or.inl (Or.inr (reads.variant v h))
  · exact Or.inr (reads.weight v h)

/-- And it keeps each as what it was written for. -/
theorem foldl_take :
    (leading style variant weight).foldl Lead.take ⟨none, none, none⟩ =
      ⟨written style, written variant, written weight⟩ := by
  have first (b c : Option Value) : (written style).toList.foldl Lead.take ⟨none, b, c⟩ =
      ⟨written style, b, c⟩ := by
    cases h : written style with
    | none => rfl
    | some v => exact take_style (reads.style v h)
  have second (a c : Option Value) : (written variant).toList.foldl Lead.take ⟨a, none, c⟩ =
      ⟨a, written variant, c⟩ := by
    cases h : written variant with
    | none => rfl
    | some v => exact take_variant (reads.variant v h)
  have third (a b : Option Value) : (written weight).toList.foldl Lead.take ⟨a, b, none⟩ =
      ⟨a, b, written weight⟩ := by
    cases h : written weight with
    | none => rfl
    | some v => exact take_weight (reads.weight v h)
  rw [leading, List.foldl_append, List.foldl_append, first, second, third]

end LeadReads

namespace LeadFits

variable (fits : LeadFits style variant weight)

include fits

theorem reads : LeadReads style variant weight where
  style _ h := kind_of_mem_written (normal_or_kind fits.style) h
  variant _ h := kind_of_mem_written (normal_or_kind fits.variant) h
  weight _ h := kind_of_mem_written (normal_or_kind fits.weight) h

theorem restored_style : ∀ v ∈ style, ((written style).getD normal).Agrees v :=
  getD_written_of_kind not_normal_of_style fits.style

theorem restored_variant : ∀ v ∈ variant, ((written variant).getD normal).Agrees v :=
  getD_written_of_kind not_normal_of_variant fits.variant

theorem restored_weight : ∀ v ∈ weight, ((written weight).getD normal).Agrees v :=
  getD_written_of_kind not_normal_of_weight fits.weight

end LeadFits

/-! ### Reading back -/

theorem flattenSpaces_of_leads (h : ∀ v ∈ vs, leads v = true) : Value.flattenSpaces vs = vs := by
  apply Value.flattenSpaces_of_forall
  rintro v hv items rfl
  have led := h _ hv
  rw [leads_series] at led
  cases led

theorem sizeWithHeight_eq (size : Value) (lineHeight : Option Value) :
    sizeWithHeight size lineHeight =
      match written lineHeight with
      | some height => .series .slash [size, height]
      | none => size := by
  cases lineHeight with
  | none => rfl
  | some height =>
      cases said : height.isKeyword "normal" <;> simp [sizeWithHeight, written, Option.filter, said]

theorem not_leads_of_size (kind : (size.isSize || size.isOneOf fontSizeWords) = true)
    (no_weight : isFontWeight size = false) : leads size = false := by
  rcases Bool.or_eq_true_iff.1 kind with number | word
  · simp [leads, ← Value.isOneOf_singleton, Value.isOneOf_of_isSize number, no_weight]
  · rw [leads, no_weight, Value.isKeyword_eq_false word (by decide_cbv),
      Value.isKeyword_eq_false word (by decide_cbv),
      Value.isOneOf_eq_false word (by decide_cbv)]
    rfl

/-- Behind the leading values the size and the family are read, each from its own
pieces, if the family comes back. -/
theorem of_family_agrees {token : Value} {before rest : List Value}
    (split : Value.flattenSpaces [token] ++ Value.flattenSpaces [family] = before ++ v :: rest)
    (some_left : rest ≠ []) (back : (Value.joinSpaces rest).Agrees family) :
    ∃ after, Value.flattenSpaces [token] = before ++ v :: after ∧
      rest = after ++ Value.flattenSpaces [family] := by
  rcases List.append_eq_append_iff.1 split with ⟨between, -, split⟩ | ⟨between, split, pieces⟩
  · exact absurd back (Value.not_agrees_of_proper_suffix split some_left)
  · cases between with
    | nil =>
        have all : Value.flattenSpaces [family] = [] ++ v :: rest := pieces.symm
        exact absurd back (Value.not_agrees_of_proper_suffix all some_left)
    | cons w after =>
        obtain ⟨rfl, rest⟩ := List.cons.inj pieces
        exact ⟨after, split, rest⟩

/-- A size that comes back from its pieces was in one piece. -/
theorem flattenSpaces_of_size_agrees {found : Value} {found? : Option Value}
    (piece : v ∈ Value.flattenSpaces [size]) (read : size? v = some (found, found?))
    (back : found.Agrees size) :
    v = size ∧ Value.flattenSpaces [size] = [size] ∧ found? = none ∧
      (size.isSize || size.isOneOf fontSizeWords) = true := by
  have same := back.nodes_eq
  have whole : Value.flattenSpaces [size] = [size] := by
    rcases Value.flattenSpaces_eq_or_nodes_lt size with whole | less
    · exact whole
    · have := less v piece
      rcases size?_eq_some.1 read with ⟨height, rfl, -⟩ | ⟨rfl, -, -⟩
      · have : found.nodes < (Value.series .slash [found, height]).nodes :=
          Value.nodes_lt_of_mem List.mem_cons_self
        omega
      · omega
  rw [whole, List.mem_singleton] at piece
  subst piece
  rcases size?_eq_some.1 read with ⟨height, rfl, -⟩ | ⟨rfl, rfl, kind⟩
  · have : found.nodes < (Value.series .slash [found, height]).nodes :=
      Value.nodes_lt_of_mem List.mem_cons_self
    omega
  · exact ⟨rfl, whole, rfl, kind⟩

/-- A leading value that comes back is of the kind of its part, or `normal`. -/
theorem kind_of_getD {held : Option Value} {kind : Value → Bool}
    (congr : ∀ {v w : Value}, v.Agrees w → kind v = kind w)
    (known : ∀ w ∈ held, kind w = true) (back : (held.getD normal).Agrees v) :
    kind v = true ∨ v = normal := by
  cases held with
  | none => exact Or.inr back.symm.eq_keyword
  | some w => exact Or.inl ((congr back).symm.trans (known w rfl))

theorem flattenSpaces_written (lead : LeadReads style variant weight) (token family : Value) :
    Value.flattenSpaces (leading style variant weight ++ [token, family]) =
      leading style variant weight ++
        (Value.flattenSpaces [token] ++ Value.flattenSpaces [family]) := by
  rw [Value.flattenSpaces_append, flattenSpaces_of_leads fun v hv => lead.leads hv,
    Value.flattenSpaces_cons]

/-- The leading values that are restored were of their own kinds. -/
theorem LeadFits.of_restored {longhands : List Value} {others : List (Option Value)}
    (expanded : expand? vs = some longhands)
    (restored : Restored longhands (style :: variant :: weight :: others)) :
    LeadFits style variant weight := by
  simp only [expand?, Option.bind_eq_bind, Option.bind_eq_some_iff] at expanded
  obtain ⟨parts, found, -, -, rest⟩ := expanded
  obtain rfl := Option.some.inj rest
  have sorted : parts.lead.Sorted := by
    obtain ⟨before, v, -, all, -, taken, -⟩ := read?_eq_some.1 found
    rw [← taken]
    exact Lead.Sorted.foldl ⟨by simp, by simp, by simp⟩ all
  simp only [Restored, List.forall₂_cons] at restored
  obtain ⟨hs, hv, hw, -⟩ := restored
  exact
    { style := fun v h => kind_of_getD (·.isOneOf_eq _) sorted.style (hs v h)
      variant := fun v h => kind_of_getD (·.isKeyword_eq _) sorted.variant (hv v h)
      weight := fun v h => kind_of_getD (·.isFontWeight_eq) sorted.weight (hw v h) }

/-- What is restored was of its own kind. -/
theorem Fits.of_restored {longhands : List Value}
    (expanded : expand? (leading style variant weight ++ [sizeWithHeight size lineHeight, family]) =
      some longhands)
    (restored : Restored longhands [style, variant, weight, some size, lineHeight, some family]) :
    Fits style variant weight size lineHeight family := by
  have lead := LeadFits.of_restored expanded restored
  obtain ⟨parts, found, some_left, rfl⟩ := (expand?_eq_some (by simp)).1 expanded
  simp only [Restored, List.forall₂_cons, List.Forall₂.nil, and_true] at restored
  obtain ⟨-, -, -, sizeBack, heightBack, familyBack⟩ := restored
  rw [flattenSpaces_written lead.reads, read?_append fun v hv => lead.reads.leads hv,
    lead.reads.foldl_take] at found
  obtain ⟨before, v, split, -, stops, -, read⟩ := read?_eq_some.1 found
  obtain ⟨after, token, rest⟩ := of_family_agrees split some_left (familyBack family rfl)
  -- it suffices that the token of the size is in one piece
  have of_whole {u : Value} (whole : before ++ v :: after = [u]) : family.Rejoins := by
    have last : after = [] := by
      rcases List.append_eq_singleton_iff.1 whole with ⟨-, single⟩ | ⟨-, single⟩
      · exact (List.cons.inj single).2
      · cases single
    rw [last, List.nil_append] at rest
    have back := familyBack family rfl
    rw [rest] at back some_left
    exact Value.rejoins_of_agrees some_left back
  rw [sizeWithHeight_eq] at token
  cases said : written lineHeight with
  | some height =>
      rw [said] at token
      change Value.flattenSpaces [.series .slash [size, height]] = _ at token
      rw [Value.flattenSpaces_singleton (by rintro items ⟨⟩)] at token
      obtain ⟨member, loud⟩ := mem_written.1 said
      refine ⟨lead, Or.inl ⟨height, member, loud⟩, ?_, of_whole token.symm⟩
      intro w hw quiet
      rw [Option.mem_unique hw member, loud] at quiet
      cases quiet
  | none =>
      rw [said] at token
      have piece : v ∈ Value.flattenSpaces [size] := by simp [token]
      obtain ⟨rfl, whole, alone, kind⟩ :=
        flattenSpaces_of_size_agrees piece read (sizeBack size rfl)
      simp only [leads, Bool.or_eq_false_iff] at stops
      refine ⟨lead, Or.inr ⟨kind, stops.2⟩, ?_, of_whole (token.symm.trans whole)⟩
      intro w hw _
      have back := heightBack w hw
      rw [alone] at back
      exact back.symm.eq_keyword

/-- What is written is read again: the leading values and the line height unless they are
`normal`, and the size and the family as they are. -/
theorem expand?_written (lead : LeadReads style variant weight)
    (known : (∃ v ∈ lineHeight, v.isKeyword "normal" = false) ∨
      (size.isSize || size.isOneOf fontSizeWords) = true ∧ isFontWeight size = false)
    (whole : family.Rejoins) :
    expand? (leading style variant weight ++ [sizeWithHeight size lineHeight, family]) =
      some [(written style).getD normal, (written variant).getD normal,
        (written weight).getD normal, size, (written lineHeight).getD normal, family] := by
  -- the token of the size is in one piece, stops the reader and gives the size back
  obtain ⟨token, stops, read⟩ :
      Value.flattenSpaces [sizeWithHeight size lineHeight] = [sizeWithHeight size lineHeight] ∧
        leads (sizeWithHeight size lineHeight) = false ∧
        size? (sizeWithHeight size lineHeight) = some (size, written lineHeight) := by
    rw [sizeWithHeight_eq]
    cases said : written lineHeight with
    | some height =>
        exact ⟨Value.flattenSpaces_singleton nofun, leads_series _ _, rfl⟩
    | none =>
        rcases known with ⟨height, member, loud⟩ | ⟨kind, no_weight⟩
        · rw [mem_written.2 ⟨member, loud⟩] at said
          cases said
        · have stops := not_leads_of_size kind no_weight
          have read := size?_eq_some.2 (Or.inr ⟨rfl, rfl, kind⟩)
          refine ⟨Value.flattenSpaces_singleton ?_, stops, read⟩
          rintro items rfl
          rw [Value.isOneOf_series] at kind
          cases kind
  have found : read? ⟨none, none, none⟩ (Value.flattenSpaces
      (leading style variant weight ++ [sizeWithHeight size lineHeight, family])) =
        some ⟨⟨written style, written variant, written weight⟩, size, written lineHeight,
          Value.flattenSpaces [family]⟩ := by
    rw [flattenSpaces_written lead, token, read?_append fun v hv => lead.leads hv, lead.foldl_take,
      List.singleton_append, read?_of_not_leads stops, read]
    rfl
  refine (expand?_eq_some (by simp)).2 ⟨_, found, whole.flattenSpaces_ne_nil, ?_⟩
  rw [whole.joinSpaces_flattenSpaces]

/-- Values that fit are all restored. -/
theorem Fits.restored (fits : Fits style variant weight size lineHeight family) :
    ∃ longhands,
      expand? (leading style variant weight ++ [sizeWithHeight size lineHeight, family]) =
        some longhands ∧
      Restored longhands [style, variant, weight, some size, lineHeight, some family] := by
  have lead := fits.toLeadFits
  exact ⟨_, expand?_written lead.reads fits.size fits.family, .cons lead.restored_style
    (.cons lead.restored_variant (.cons lead.restored_weight (.cons (agrees_getD (some size) size)
      (.cons (getD_written fits.lineHeight) (.cons (agrees_getD (some family) family) .nil)))))⟩

end Stylesheet.Shorthand.Font
