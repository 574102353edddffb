import Mathlib
import Stylesheet.Proofs.Shorthand.Firing
import Stylesheet.Proofs.Shorthand.Replacement
import Stylesheet.Proofs.Shorthand.RoundTrip

/-!
# Shorthands that are taken apart and put together again

What a shorthand is taken apart to has a value for every longhand, each once and of one
importance, so it is put together again unless its kind refuses the values, or some but
not all of them are global keywords. Every kind but one takes apart only what fits it:
each value was sorted by the same test that reads it again. A font does not, for its
size is known by its place in front of a slash, and the slash is left out with a line
height that is `normal`.
-/

namespace Stylesheet.Shorthand

variable {s : Shorthand} {d : Declaration} {ds : List Declaration} {vs parts : List Value}
  {p : String}

/-! ### The declarations of all longhands -/

theorem mem_compactionOrder_of_ne_border :
    ∀ s ∈ registry, s ≠ border → s ∈ compactionOrder := by decide_cbv

theorem borderBoxes_compacted : ∀ s ∈ borderBoxes, s ∈ compactionOrder := by decide_cbv

theorem kind_ne_font : ∀ s ∈ registry, s ≠ font → s.kind ≠ .font := by decide_cbv

theorem longhands_ne_nil : ∀ s ∈ compactionOrder, s.longhands ≠ [] := by decide_cbv

section Longhands

variable (hs : s ∈ compactionOrder) (width : parts.length = s.longhands.length)

include hs width

/-- Every longhand holds the part that it is declared with. -/
theorem held_longhandsOf : s.held (s.longhandsOf d parts) = parts.map some := by
  calc s.held (s.longhandsOf d parts)
      _ = ((parts.zip s.longhands).map Prod.snd).map fun p =>
          (Declaration.last? p (s.longhandsOf d parts)).bind Declaration.value? := by
        rw [List.map_snd_zip (Nat.le_of_eq width.symm), held]
      _ = (parts.zip s.longhands).map fun slot => some slot.1 := by
        rw [List.map_map]
        apply List.map_congr_left
        rintro ⟨part, p⟩ at_part
        rw [Function.comp_apply, longhandsOf, last?_zipWith (longhands_nodup s hs) at_part]
        rfl
      _ = parts.map some := by
        conv_rhs => rw [← List.map_fst_zip (Nat.le_of_eq width), List.map_map]
        rfl

theorem longhandsOf_once (p : String) :
    ((s.longhandsOf d parts).filter (·.property = p)).length ≤ 1 := by
  have distinct := longhands_nodup s hs
  rw [← property_longhandsOf (d := d) width] at distinct
  have count := List.nodup_iff_count_le_one.1 distinct p
  rwa [List.count_eq_countP, List.countP_map, List.countP_eq_length_filter] at count

/-- All longhands together meet every condition but the last for being put together. -/
theorem fires_longhandsOf_iff :
    s.Fires (s.longhandsOf d parts) ↔
      SharesGlobal (parts.map some) ∨
        AvoidsGlobal (parts.map some) ∧ s.kind.Accepts (parts.map some) := by
  have properties := property_longhandsOf (d := d) width
  rw [← held_longhandsOf (d := d) hs width]
  refine ⟨Fires.joins, fun joins => ⟨?_, ?_, ?_, ?_, ?_, joins⟩⟩
  · intro e he
    exact ne_name_of_longhand hs (property_of_mem_zipWith he)
  · intro p _
    exact longhandsOf_once hs width p
  · obtain ⟨p, hp⟩ := List.exists_mem_of_ne_nil _ (longhands_ne_nil s hs)
    obtain ⟨e, he, rfl⟩ := List.mem_map.1 (properties.symm ▸ hp)
    exact ⟨e, he, hp⟩
  · intro e he _
    obtain ⟨p, -, v, -, rfl⟩ := exists_of_mem_zipWith he
    exact List.cons_ne_nil v []
  · intro a ha b hb _ _
    rw [important_longhandsOf ha, important_longhandsOf hb]

end Longhands

/-! ### What is taken apart fits -/

theorem kept_of_box (plain : ∀ d ∈ ds, named? d.property = none) (hs : s ∈ compactionOrder)
    (box : s.kind = .box) (hp : p ∈ s.longhands) (declared : ∃ e ∈ ds, e.property = p) :
    Kept ds p := by
  apply (kept_longhands_iff plain hs).2 (Or.inr (Or.inr ?_)) p hp declared
  rw [box]
  trivial

theorem restored_self (parts : List Value) : Restored parts (parts.map some) := by
  induction parts with
  | nil => exact .nil
  | cons v parts ih =>
      refine .cons ?_ ih
      rintro _ ⟨⟩
      exact .refl v

/-- The kinds that sort values by tests take apart only what fits them. -/
theorem Kind.fits_of_expand? {k : Kind} (other : k ≠ .font) (h : k.expand? vs = some parts) :
    k.Fits (parts.map some) := by
  have restored := restored_self parts
  cases k with
  | font => exact absurd rfl other
  | border | box => trivial
  | background =>
      obtain ⟨-, color, image, repetition, attachment, -, -, -, -, rfl⟩ :=
        Background.expand?_eq_some.1 h
      exact Background.Fits.of_restored h restored
  | listStyle =>
      obtain ⟨-, -, type, position, image, -, -, -, rfl⟩ := ListStyle.expand?_eq_some.1 h
      exact ListStyle.Fits.of_restored h restored

theorem parts?_eq_some (h : s.parts? vs = some parts) :
    (∃ v, isGlobal v = true ∧ parts = s.longhands.map fun _ => v) ∨
      s.kind.expand? vs = some parts := by
  unfold parts? at h
  split at h
  · split at h
    · next v global => exact Or.inl ⟨v, global, (Option.some.inj h).symm⟩
    · exact Or.inr h
  · exact Or.inr h

theorem not_sharesGlobal (some_part : parts ≠ []) (avoids : AvoidsGlobal (parts.map some)) :
    ¬ SharesGlobal (parts.map some) := by
  rintro ⟨w, global, all⟩
  obtain ⟨v, hv⟩ := List.exists_mem_of_ne_nil _ some_part
  have member : some v ∈ parts.map some := List.mem_map_of_mem hv
  rw [avoids _ (all _ member ▸ member)] at global
  cases global

/-- What a shorthand is taken apart to is kept if it has a global keyword, or is not
accepted by the kind of the shorthand, or fits it. -/
theorem kept_longhandsOf_iff (hs : s ∈ compactionOrder)
    (width : parts.length = s.longhands.length) :
    (∀ e ∈ s.longhandsOf d parts, Kept (s.longhandsOf d parts) e.property) ↔
      (∃ v ∈ parts, isGlobal v = true) ∨ ¬ s.kind.Accepts (parts.map some) ∨
        s.kind.Fits (parts.map some) := by
  have plain : ∀ e ∈ s.longhandsOf d parts, named? e.property = none :=
    fun e he => named?_longhand s hs _ (property_of_mem_zipWith he)
  have own : (∀ e ∈ s.longhandsOf d parts, Kept (s.longhandsOf d parts) e.property) ↔
      ∀ p ∈ s.longhands, (∃ e ∈ s.longhandsOf d parts, e.property = p) →
        Kept (s.longhandsOf d parts) p := by
    constructor
    · rintro kept p - ⟨e, he, rfl⟩
      exact kept e he
    · intro kept e he
      exact kept e.property (property_of_mem_zipWith he) ⟨e, he, rfl⟩
  rw [own, kept_longhands_iff plain hs, held_longhandsOf hs width,
    ← Option.not_isSome_iff_eq_none, isSome_combine?_iff hs, fires_longhandsOf_iff hs width]
  by_cases global : ∃ v ∈ parts, isGlobal v = true
  · simp [global]
  · have avoids : AvoidsGlobal (parts.map some) := by
      intro v hv
      rw [Bool.eq_false_iff]
      intro found
      exact global ⟨v, by simpa using hv, found⟩
    have some_part : parts ≠ [] := by
      rintro rfl
      exact longhands_ne_nil s hs (List.length_eq_zero_iff.1 width.symm)
    simp [global, avoids, not_sharesGlobal some_part avoids]

/-! ### Fonts -/

namespace Font

variable {style variant weight size lineHeight family : Value}

theorem isLayered_of_leads {v : Value} (h : leads v = true) : isLayered v = false := by
  cases v with
  | series s items =>
      rw [leads_series] at h
      cases h
  | _ => rfl

theorem leads_of_leadFits (lead : LeadFits (some style) (some variant) (some weight)) :
    ∀ v ∈ [style, variant, weight], leads v = true := by
  have started : leads normal = true := by decide_cbv
  simp only [List.forall_mem_cons, List.not_mem_nil, false_implies, implies_true, and_true]
  refine ⟨?_, ?_, ?_⟩
  · rcases lead.style style rfl with word | rfl
    · simp [leads, word]
    · exact started
  · rcases lead.variant variant rfl with word | rfl
    · simp [leads, word]
    · exact started
  · rcases lead.weight weight rfl with kind | rfl
    · simp [leads, kind]
    · exact started

/-- Only the size and the line height can keep a font that was taken apart from being
put together. -/
theorem accepts_iff (lead : LeadFits (some style) (some variant) (some weight)) :
    Kind.font.Accepts ([style, variant, weight, size, lineHeight, family].map some) ↔
      isLayered size = false ∧ isLayered lineHeight = false := by
  have flat (v : Value) (hv : v ∈ [style, variant, weight]) : isLayered v = false :=
    isLayered_of_leads (leads_of_leadFits lead v hv)
  simp only [List.forall_mem_cons, List.not_mem_nil, false_implies, implies_true, and_true] at flat
  constructor
  · rintro ⟨_, _, _, _, _, _, same, accepted⟩
    simp only [List.map_cons, List.map_nil, List.cons.injEq, Option.some.injEq, and_true] at same
    obtain ⟨rfl, rfl, rfl, rfl, rfl, rfl⟩ := same
    exact ⟨accepted size (by simp), accepted lineHeight (by simp)⟩
  · rintro ⟨hs, hl⟩
    refine ⟨_, _, _, _, _, _, rfl, ?_⟩
    intro v hv
    simp only [List.mem_cons, Option.some.injEq, List.not_mem_nil, or_false] at hv
    rcases hv with rfl | rfl | rfl | rfl | rfl
    · exact flat.1
    · exact flat.2.1
    · exact flat.2.2
    · exact hs
    · exact hl

/-- Whether a size and a line height are written so that both are read again: with the
slash, or else with a size that is known without it. -/
def Readable (size lineHeight : Value) : Prop :=
  lineHeight.isKeyword "normal" = false ∨
    lineHeight = normal ∧ (size.isSize || size.isOneOf fontSizeWords) = true ∧
      isFontWeight size = false

theorem fits_iff (lead : LeadFits (some style) (some variant) (some weight)) :
    Kind.font.Fits ([style, variant, weight, size, lineHeight, family].map some) ↔
      Readable size lineHeight ∧ family.Rejoins := by
  constructor
  · intro fits
    refine ⟨?_, fits.family⟩
    cases said : lineHeight.isKeyword "normal" with
    | false => exact Or.inl said
    | true =>
        refine Or.inr ⟨fits.lineHeight lineHeight rfl said, ?_⟩
        rcases fits.size with ⟨_, ⟨⟩, slash⟩ | known
        · rw [said] at slash
          cases slash
        · exact known
  · rintro ⟨slash | ⟨rfl, known⟩, whole⟩
    · refine
        { lead with size := Or.inl ⟨lineHeight, rfl, slash⟩, lineHeight := ?_, family := whole }
      rintro _ ⟨⟩ said
      rw [slash] at said
      cases said
    · refine { lead with size := Or.inr known, lineHeight := ?_, family := whole }
      rintro _ ⟨⟩ -
      rfl

/-- Whether the parts of a font are left as they are, or are put together so that all of
them are read again. -/
def Recovered (parts : List Value) : Prop :=
  ∃ style variant weight size lineHeight family,
    parts = [style, variant, weight, size, lineHeight, family] ∧
      ((∃ v ∈ parts, isGlobal v = true) ∨ isLayered size = true ∨ isLayered lineHeight = true ∨
        Readable size lineHeight ∧ family.Rejoins)

theorem recovered_iff :
    Recovered [style, variant, weight, size, lineHeight, family] ↔
      (∃ v ∈ [style, variant, weight, size, lineHeight, family], isGlobal v = true) ∨
        isLayered size = true ∨ isLayered lineHeight = true ∨
          Readable size lineHeight ∧ family.Rejoins := by
  constructor
  · rintro ⟨_, _, _, _, _, _, same, recovered⟩
    simp only [List.cons.injEq, and_true] at same
    obtain ⟨rfl, rfl, rfl, rfl, rfl, rfl⟩ := same
    exact recovered
  · intro recovered
    exact ⟨_, _, _, _, _, _, rfl, recovered⟩

/-- A font that was taken apart is kept if it is left as it is, or is read again. -/
theorem kept_iff_recovered (expanded : font.parts? vs = some parts) :
    (∀ e ∈ font.longhandsOf d parts, Kept (font.longhandsOf d parts) e.property) ↔
      Recovered parts := by
  have width := length_of_parts? (by decide) expanded
  rw [kept_longhandsOf_iff (by decide) width]
  match parts, width with
  | [style, variant, weight, size, lineHeight, family], _ =>
      rw [recovered_iff]
      rcases parts?_eq_some expanded with ⟨v, global, all⟩ | expanded
      · have found : ∃ v ∈ [style, variant, weight, size, lineHeight, family],
            isGlobal v = true := by
          refine ⟨v, ?_, global⟩
          rw [all]
          exact List.mem_map.2 ⟨_, List.mem_cons_self, rfl⟩
        exact iff_of_true (Or.inl found) (Or.inl found)
      · have lead := LeadFits.of_restored expanded (restored_self _)
        rw [show font.kind = .font from rfl, accepts_iff lead, fits_iff lead, not_and_or,
          Bool.not_eq_false, Bool.not_eq_false, or_assoc]

end Font

/-! ### The main result -/

theorem kept_of_border (expanded : border.parts? d.values = some parts) :
    ∀ e ∈ sidesOf d parts, Kept (sidesOf d parts) e.property := by
  obtain ⟨width, style, color, rfl, -⟩ := parts?_border expanded
  have leaf : ∀ e ∈ sidesOf d [width, style, color], e.property ∈ border.leaves := by
    intro e he
    rw [leaves_border]
    exact List.mem_map_of_mem (f := (·.property)) he
  have plain : ∀ e ∈ sidesOf d [width, style, color], named? e.property = none :=
    fun e he => named?_leaf border (by decide) _ (leaf e he)
  intro e he
  have side := leaf e he
  rw [leaves_border] at side
  obtain ⟨t, ht, hp⟩ := List.mem_flatMap.1 side
  exact kept_of_box plain (borderBoxes_compacted t ht) (borderBoxes_box t ht).2.1 hp ⟨e, he, rfl⟩

/-- What a shorthand is taken apart to is kept if its kind sorts values by tests. -/
theorem kept_of_fits (hs : s ∈ compactionOrder) (other : s.kind ≠ .font)
    (expanded : s.parts? vs = some parts) :
    ∀ e ∈ s.longhandsOf d parts, Kept (s.longhandsOf d parts) e.property := by
  have registered := mem_registry_of_compactionOrder s hs
  rw [kept_longhandsOf_iff hs (length_of_parts? registered expanded)]
  rcases parts?_eq_some expanded with ⟨v, global, rfl⟩ | expanded
  · obtain ⟨p, hp⟩ := List.exists_mem_of_ne_nil _ (longhands_ne_nil s hs)
    exact Or.inl ⟨v, List.mem_map.2 ⟨p, hp, rfl⟩, global⟩
  · exact Or.inr (Or.inr (Kind.fits_of_expand? other expanded))

/-- Whatever a shorthand is taken apart to comes back with its importance and its value
after it was put together and taken apart again, except for a font that is put together
without the line height by which its size was known, with another spelling of `normal`,
or with a family of spaces that has fewer than two members. -/
theorem expansion_is_recovered_iff (named : named? d.property = some s)
    (expanded : s.parts? d.values = some parts) :
    (∀ e ∈ expand [d], Kept (expand [d]) e.property) ↔ s ≠ font ∨ Font.Recovered parts := by
  obtain ⟨hs, -⟩ := named?_eq_some_iff.1 named
  rw [expand_singleton, replacement_of_parts named expanded]
  by_cases first : s = border
  · subst first
    rw [if_pos rfl]
    exact iff_of_true (kept_of_border expanded) (Or.inl (by decide))
  · rw [if_neg first]
    by_cases isFont : s = font
    · subst isFont
      rw [Font.kept_iff_recovered expanded]
      exact (or_iff_right fun other => other rfl).symm
    · refine iff_of_true (kept_of_fits ?_ ?_ expanded) (Or.inl isFont)
      · exact mem_compactionOrder_of_ne_border s hs first
      · exact kind_ne_font s hs isFont

/-- A size that is a variable comes back with its line height, since the slash is written
again. -/
theorem size_in_front_of_height_is_kept :
    let size : Value := .call "var" .comma [.keyword "--size"]
    let height : Value := .call "var" .comma [.keyword "--height"]
    let r : Declaration :=
      ⟨"font", [.keyword "bold", .series .slash [size, height], .keyword "serif"], true⟩
    named? r.property = some font ∧
      font.parts? r.values = some
        [.keyword "normal", .keyword "normal", .keyword "bold", size, height, .keyword "serif"] ∧
      ∀ e ∈ expand [r], Kept (expand [r]) e.property := by
  intro size height r
  have named : named? r.property = some font := by decide_cbv
  have expanded : font.parts? r.values = some [.keyword "normal", .keyword "normal",
      .keyword "bold", size, height, .keyword "serif"] := rfl
  refine ⟨named, expanded, (expansion_is_recovered_iff named expanded).2 (Or.inr ?_)⟩
  refine ⟨_, _, _, _, _, _, rfl, Or.inr (Or.inr (Or.inr ⟨Or.inl rfl, ?_⟩))⟩
  rintro items ⟨⟩

/-- A size that is known only by the line height `normal` is lost: the font is put
together without it, and then not taken apart. -/
theorem size_in_front_of_normal_is_lost :
    let r : Declaration := ⟨"font",
      [.series .slash [.call "var" .comma [.keyword "--size"], .keyword "normal"],
        .keyword "serif"], false⟩
    named? r.property = some font ∧ (font.parts? r.values).isSome = true ∧
      (Declaration.last? "font-size" (expand [r])).isSome = true ∧
      (Declaration.last? "font-size" (expand (compact (expand [r])))).isNone = true ∧
      ¬ ∀ e ∈ expand [r], Kept (expand [r]) e.property := by
  intro r
  have before : (Declaration.last? "font-size" (expand [r])).isSome = true := by decide +kernel
  have gone : (Declaration.last? "font-size" (expand (compact (expand [r])))).isNone = true := by
    decide +kernel
  refine ⟨by decide_cbv, by decide +kernel, before, gone, ?_⟩
  intro kept
  obtain ⟨e, last⟩ := Option.isSome_iff_exists.1 before
  obtain ⟨-, after, -, found, -⟩ := kept e (Declaration.mem_of_last? last)
  rw [Declaration.property_of_last? last] at found
  rw [found] at gone
  cases gone

end Stylesheet.Shorthand
