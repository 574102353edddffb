import Mathlib
import Stylesheet.Proofs.Shorthand.Fitting

/-!
# When a shorthand is put together, and to what

Putting a shorthand together gives up as soon as one condition fails, each at its own
place in the program. Here the conditions are those on the declarations: the shorthand
is not declared and its longhands are declared at most once each, with a value and one
importance, and their values either are one global keyword or none of them is global
and the kind of the shorthand accepts them. Where all of them hold the shorthand is
created, and its declaration is told from the same declarations. So compaction is
known from the declarations it starts from.
-/

namespace Stylesheet.Shorthand

variable {s : Shorthand} {ds : List Declaration} {d e : Declaration} {p : String}
  {vs : List (Option Value)} {values : List Value}

/-- Whether a kind of shorthand is put together from these values of its longhands, none
of them a global keyword. A box needs all its sides, none of them a series; a font needs
a size and a family, and only the family may have layers. -/
def Kind.Accepts : Kind → List (Option Value) → Prop
  | .border, _ => False
  | .box, sides => ∀ side ∈ sides, ∃ v, side = some v ∧ v.series? = none
  | .font, vs => ∃ style variant weight size lineHeight family,
    vs = [style, variant, weight, some size, lineHeight, some family] ∧
      ∀ v, some v ∈ [style, variant, weight, some size, lineHeight] → isLayered v = false
  | .background, vs => ∀ v, some v ∈ vs → isLayered v = false
  | .listStyle, vs => ∀ v, some v ∈ vs → isLayered v = false

/-- The values that are written for accepted values of the longhands. -/
def Kind.written : Kind → List (Option Value) → List Value
  | .box, [some top, some right, some bottom, some left] => Box.shortest top right bottom left
  | .font, [style, variant, weight, some size, lineHeight, some family] =>
    Font.leading style variant weight ++ [Font.sizeWithHeight size lineHeight, family]
  | _, vs => vs.filterMap id

/-- Whether all longhands hold one global keyword. -/
def SharesGlobal (vs : List (Option Value)) : Prop :=
  ∃ w, isGlobal (.keyword w) = true ∧ ∀ held ∈ vs, held = some (.keyword w)

/-- Whether no longhand holds a global keyword. -/
def AvoidsGlobal (vs : List (Option Value)) : Prop := ∀ v, some v ∈ vs → isGlobal v = false

/-- The conditions under which a shorthand is put together. -/
structure Fires (s : Shorthand) (ds : List Declaration) : Prop where
  undeclared : ∀ d ∈ ds, d.property ≠ s.name
  once : ∀ p ∈ s.longhands, (ds.filter (·.property = p)).length ≤ 1
  declared : ∃ d ∈ ds, d.property ∈ s.longhands
  valued : ∀ d ∈ ds, d.property ∈ s.longhands → d.values ≠ []
  uniform : ∀ d ∈ ds, ∀ e ∈ ds, d.property ∈ s.longhands → e.property ∈ s.longhands →
    d.important = e.important
  joins : SharesGlobal (s.held ds) ∨ AvoidsGlobal (s.held ds) ∧ s.kind.Accepts (s.held ds)

/-- The values of the created shorthand: the global keyword, if there is one. -/
def writtenValues (s : Shorthand) (vs : List (Option Value)) : List Value :=
  match (vs.filterMap id).find? isGlobal with
  | some v => [v]
  | none => s.kind.written vs

/-- The declaration of the created shorthand. -/
def created (s : Shorthand) (ds : List Declaration) : Declaration where
  property := s.name
  values := s.writtenValues (s.held ds)
  important := ds.any fun d => d.property ∈ s.longhands && d.important

/-- Whether a property is a longhand of a shorthand that is put together. -/
def Absorbed (ds : List Declaration) (p : String) : Prop :=
  ∃ s ∈ compactionOrder, s.Fires ds ∧ p ∈ s.longhands

/-! ### The values of a created shorthand -/

theorem Box.compact?_eq_some_iff :
    Box.compact? vs = some values ↔
      vs.length = 4 ∧ Kind.box.Accepts vs ∧ values = Kind.box.written vs := by
  unfold Box.compact?
  split
  · next top right bottom left =>
      have flat : ([top, right, bottom, left].any fun v => v.series?.isSome) = false ↔
          Kind.box.Accepts [some top, some right, some bottom, some left] := by
        simp [Kind.Accepts]
      cases series : [top, right, bottom, left].any fun v => v.series?.isSome with
      | true => simp [← flat, series]
      | false => simp [← flat, series, Kind.written, eq_comm]
  · next other =>
      constructor
      · intro h
        cases h
      · rintro ⟨four, accepted, -⟩
        match vs, four with
        | [top, right, bottom, left], _ =>
            simp only [Kind.Accepts, List.forall_mem_cons] at accepted
            obtain ⟨⟨a, rfl, -⟩, ⟨b, rfl, -⟩, ⟨c, rfl, -⟩, ⟨d, rfl, -⟩, -⟩ := accepted
            exact absurd rfl (other a b c d)

theorem any_present_eq_false {test : Value → Bool} :
    (vs.filterMap id).any test = false ↔ ∀ v, some v ∈ vs → test v = false := by
  simp only [List.any_eq_false, List.mem_filterMap, id_eq, exists_eq_right, Bool.not_eq_true]

theorem Font.layered_eq_false {style variant weight lineHeight : Option Value} {size : Value} :
    ([style, variant, weight, lineHeight, some size].filterMap id).any isLayered = false ↔
      ∀ v, some v ∈ [style, variant, weight, some size, lineHeight] → isLayered v = false := by
  have reordered : List.Perm [style, variant, weight, lineHeight, some size]
      [style, variant, weight, some size, lineHeight] :=
    (List.Perm.swap (some size) lineHeight []).append_left [style, variant, weight]
  rw [any_present_eq_false]
  simp only [reordered.mem_iff]

theorem Font.compact?_eq_some_iff :
    Font.compact? vs = some values ↔ Kind.font.Accepts vs ∧ values = Kind.font.written vs := by
  constructor
  · intro h
    obtain ⟨style, variant, weight, size, lineHeight, family, rfl, rfl⟩ :=
      Font.exists_of_compact? h
    refine ⟨⟨_, _, _, _, _, _, rfl, Font.layered_eq_false.1 ?_⟩, rfl⟩
    simp only [Font.compact?] at h
    split at h
    · cases h
    · next flat => exact Bool.eq_false_iff.2 flat
  · rintro ⟨⟨style, variant, weight, size, lineHeight, family, rfl, flat⟩, rfl⟩
    obtain ⟨values, h⟩ : ∃ values, Font.compact?
        [style, variant, weight, some size, lineHeight, some family] = some values := by
      rw [Font.compact?, if_neg (Bool.eq_false_iff.1 (Font.layered_eq_false.2 flat))]
      exact ⟨_, rfl⟩
    rw [h, Font.compact?_eq_some h]
    rfl

theorem compactPresent?_eq_some_iff (present : ∃ v, some v ∈ vs) :
    compactPresent? vs = some values ↔
      (∀ v, some v ∈ vs → isLayered v = false) ∧ values = vs.filterMap id := by
  have some_present : (vs.filterMap id).isEmpty = false := by
    obtain ⟨v, hv⟩ := present
    have member : v ∈ vs.filterMap id := by simpa using hv
    rw [List.isEmpty_eq_false_iff]
    exact List.ne_nil_of_mem member
  rw [compactPresent?, some_present, Bool.false_or, ← any_present_eq_false]
  cases (vs.filterMap id).any isLayered <;> simp [eq_comm]

theorem Kind.compact?_eq_some_iff {k : Kind} (width : vs.length = k.width)
    (present : ∃ v, some v ∈ vs) :
    k.compact? vs = some values ↔ k.Accepts vs ∧ values = k.written vs := by
  cases k with
  | border => simp [compact?, Accepts]
  | box =>
      rw [compact?, Box.compact?_eq_some_iff]
      exact and_iff_right width
  | font => exact Font.compact?_eq_some_iff
  | background => exact compactPresent?_eq_some_iff present
  | listStyle => exact compactPresent?_eq_some_iff present

theorem eq_map_some_of_length {α : Type} {xs : List (Option α)}
    (h : (xs.filterMap id).length = xs.length) : xs = (xs.filterMap id).map some := by
  induction xs with
  | nil => rfl
  | cons x xs ih =>
      cases x with
      | none =>
          have fewer := List.length_filterMap_le id xs
          rw [List.filterMap_cons_none rfl, List.length_cons] at h
          omega
      | some x =>
          exact congrArg (some x :: ·) (ih (Nat.succ.inj h))

/-- The counting of the global values says that all longhands hold one of them. -/
theorem sharesGlobal_iff {first : Value} {others : List Value}
    (globals : (vs.filterMap id).filter isGlobal = first :: others) :
    SharesGlobal vs ↔ others.length + 1 = vs.length ∧ ∀ v ∈ others, (v == first) = true := by
  constructor
  · rintro ⟨w, global, all⟩
    have same : vs = List.replicate vs.length (some (.keyword w)) :=
      List.eq_replicate_iff.2 ⟨rfl, all⟩
    rw [same, List.filterMap_replicate_of_some (f := id) rfl,
      List.filter_replicate_of_pos global] at globals
    refine ⟨by simpa using (congrArg List.length globals).symm, ?_⟩
    have each (v : Value) (hv : v ∈ first :: others) : v = .keyword w :=
      List.eq_of_mem_replicate (globals ▸ hv)
    intro v hv
    rw [each v (List.mem_cons_of_mem _ hv), each first List.mem_cons_self]
    exact beq_self_eq_true w
  · rintro ⟨count, equal⟩
    have everything := present_eq_globals globals count
    have member : first ∈ (vs.filterMap id).filter isGlobal := globals ▸ List.mem_cons_self
    have global : isGlobal first = true := (List.mem_filter.1 member).2
    obtain ⟨w, rfl, -⟩ := Value.isOneOf_iff.1 global
    refine ⟨w, global, ?_⟩
    have whole : vs = (vs.filterMap id).map some :=
      eq_map_some_of_length (by rw [everything, List.length_cons, count])
    intro held hheld
    rw [whole, everything, List.map_cons, List.mem_cons, List.mem_map] at hheld
    rcases hheld with rfl | ⟨v, hv, rfl⟩
    · rfl
    · rw [Value.Agrees.eq_keyword (Or.inr (equal v hv))]

theorem join?_eq_some_iff (width : vs.length = s.kind.width) (present : ∃ v, some v ∈ vs) :
    s.join? vs = some values ↔
      (SharesGlobal vs ∨ AvoidsGlobal vs ∧ s.kind.Accepts vs) ∧ values = s.writtenValues vs := by
  have head : (vs.filterMap id).find? isGlobal = ((vs.filterMap id).filter isGlobal).head? :=
    (List.head?_filter ..).symm
  unfold join?
  split
  · next none_global =>
      have avoids : AvoidsGlobal vs := by
        intro v hv
        have member : v ∈ vs.filterMap id := by simpa using hv
        exact Bool.eq_false_iff.2 (List.filter_eq_nil_iff.1 none_global v member)
      have unshared : ¬ SharesGlobal vs := by
        rintro ⟨w, global, all⟩
        obtain ⟨v, hv⟩ := present
        obtain rfl := Option.some.inj (all _ hv)
        rw [avoids _ hv] at global
        cases global
      rw [Kind.compact?_eq_some_iff width present, writtenValues, head, none_global, List.head?_nil]
      simp only [unshared, avoids, true_and, false_or]
  · next first others globals =>
      have member : first ∈ (vs.filterMap id).filter isGlobal := globals ▸ List.mem_cons_self
      obtain ⟨held, global⟩ := List.mem_filter.1 member
      have unavoided : ¬ AvoidsGlobal vs := by
        intro avoids
        rw [avoids first (by simpa using held)] at global
        cases global
      rw [writtenValues, head, globals, List.head?_cons, sharesGlobal_iff globals]
      simp only [unavoided, false_and, or_false]
      split
      · next all =>
          rw [Bool.and_eq_true, decide_eq_true_eq, List.all_eq_true] at all
          rw [and_iff_right all, Option.some.injEq, eq_comm]
      · next fails =>
          rw [Bool.and_eq_true, decide_eq_true_eq, List.all_eq_true] at fails
          simp [fails]

theorem writtenValues_of_avoidsGlobal (avoids : AvoidsGlobal vs) :
    s.writtenValues vs = s.kind.written vs := by
  have none_global : (vs.filterMap id).find? isGlobal = none := by
    rw [List.find?_eq_none]
    intro v hv
    rw [avoids v (by simpa using hv)]
    exact Bool.false_ne_true
  rw [writtenValues, none_global]

/-! ### The declarations of the longhands -/

theorem exists_longhand?_iff :
    (∃ found, longhand? ds p = some found) ↔
      (ds.filter (·.property = p)).length ≤ 1 ∧ ∀ d ∈ ds, d.property = p → d.values ≠ [] := by
  have members (d : Declaration) : d ∈ ds.filter (·.property = p) ↔ d ∈ ds ∧ d.property = p := by
    simp
  have valued : (∀ d ∈ ds, d.property = p → d.values ≠ []) ↔
      ∀ d ∈ ds.filter (·.property = p), d.value? ≠ none := by
    simp only [members, and_imp, ne_eq, Declaration.value?_eq_none_iff]
  rw [valued]
  unfold longhand?
  split
  · next none_left => simp [none_left]
  · next d only => simp [only, Option.ne_none_iff_exists']
  · next empty several =>
      simp only [reduceCtorEq, exists_false, false_iff, not_and]
      intro once
      cases found : ds.filter (·.property = p) with
      | nil => exact absurd found empty
      | cons d others =>
          rw [found, List.length_cons] at once
          obtain rfl : others = [] := List.length_eq_zero_iff.1 (by omega)
          exact absurd found (several d)

section Declared

variable (once : ∀ p ∈ s.longhands, (ds.filter (·.property = p)).length ≤ 1)

include once

theorem mem_flags_iff {flag : Bool} :
    flag ∈ s.flags ds ↔ ∃ d ∈ ds, d.property ∈ s.longhands ∧ d.important = flag := by
  simp only [flags, List.mem_filterMap, Option.map_eq_some_iff]
  constructor
  · rintro ⟨p, hp, d, last, rfl⟩
    obtain rfl := Declaration.property_of_last? last
    exact ⟨d, Declaration.mem_of_last? last, hp, rfl⟩
  · rintro ⟨d, hd, hp, rfl⟩
    exact ⟨d.property, hp, d, Declaration.last?_of_once (once _ hp) hd rfl, rfl⟩

theorem exists_held (declared : ∃ d ∈ ds, d.property ∈ s.longhands)
    (valued : ∀ d ∈ ds, d.property ∈ s.longhands → d.values ≠ []) : ∃ v, some v ∈ s.held ds := by
  obtain ⟨d, hd, hp⟩ := declared
  obtain ⟨v, hv⟩ := Option.ne_none_iff_exists'.1
    (mt Declaration.value?_eq_none_iff.1 (valued d hd hp))
  refine ⟨v, List.mem_map.2 ⟨d.property, hp, ?_⟩⟩
  rw [Declaration.last?_of_once (once _ hp) hd rfl, Option.bind_some, hv]

end Declared

theorem created_important (uniform : ∀ d ∈ ds, ∀ e ∈ ds, d.property ∈ s.longhands →
      e.property ∈ s.longhands → d.important = e.important)
    (he : e ∈ ds) (hp : e.property ∈ s.longhands) : (s.created ds).important = e.important := by
  rw [Bool.eq_iff_iff, created, List.any_eq_true]
  constructor
  · rintro ⟨d, hd, both⟩
    rw [Bool.and_eq_true, decide_eq_true_eq] at both
    rw [← uniform d hd e he both.1 hp]
    exact both.2
  · intro important
    exact ⟨e, he, by simp [hp, important]⟩

/-- A shorthand is put together exactly where the conditions hold, and to what the
declarations of its longhands say. -/
theorem combine?_eq_some_iff_fires (hs : s ∈ compactionOrder) :
    s.combine? ds = some d ↔ s.Fires ds ∧ d = s.created ds := by
  have width : (s.held ds).length = s.kind.width := by
    rw [held, List.length_map, length_longhands s (mem_registry_of_compactionOrder s hs)]
  rw [combine?_eq_some_iff]
  constructor
  · rintro ⟨⟨-, undeclared⟩, sound, common, joined, name⟩
    have once (p : String) (hp : p ∈ s.longhands) := (exists_longhand?_iff.1 (sound p hp)).1
    have valued (e : Declaration) (he : e ∈ ds) (hp : e.property ∈ s.longhands) : e.values ≠ [] :=
      (exists_longhand?_iff.1 (sound _ hp)).2 e he rfl
    obtain ⟨some_flag, same⟩ := commonImportance?_eq_some_iff.1 common
    have flag (e : Declaration) (he : e ∈ ds) (hp : e.property ∈ s.longhands) :
        e.important = d.important := same _ ((mem_flags_iff once).2 ⟨e, he, hp, rfl⟩)
    have uniform (a : Declaration) (ha : a ∈ ds) (b : Declaration) (hb : b ∈ ds)
        (hpa : a.property ∈ s.longhands) (hpb : b.property ∈ s.longhands) :
        a.important = b.important := (flag a ha hpa).trans (flag b hb hpb).symm
    obtain ⟨_, member⟩ := List.exists_mem_of_ne_nil _ some_flag
    obtain ⟨e, he, hp, -⟩ := (mem_flags_iff once).1 member
    have present := exists_held once ⟨e, he, hp⟩ valued
    obtain ⟨joins, values⟩ := (join?_eq_some_iff width present).1 joined
    refine ⟨⟨undeclared, once, ⟨e, he, hp⟩, valued, uniform, joins⟩, ?_⟩
    have important := (created_important uniform he hp).trans (flag e he hp)
    calc d
        _ = ⟨d.property, d.values, d.important⟩ := rfl
        _ = s.created ds := by rw [name, values, ← important]; rfl
  · rintro ⟨fires, rfl⟩
    have present := exists_held fires.once fires.declared fires.valued
    refine ⟨⟨compactable_of_compactionOrder s hs, fires.undeclared⟩, ?_, ?_,
      (join?_eq_some_iff width present).2 ⟨fires.joins, rfl⟩, rfl⟩
    · intro p hp
      exact exists_longhand?_iff.2
        ⟨fires.once p hp, fun e he same => fires.valued e he (same ▸ hp)⟩
    · rw [commonImportance?_eq_some_iff]
      constructor
      · obtain ⟨e, he, hp⟩ := fires.declared
        exact List.ne_nil_of_mem ((mem_flags_iff fires.once).2 ⟨e, he, hp, rfl⟩)
      · intro flag member
        obtain ⟨e, he, hp, rfl⟩ := (mem_flags_iff fires.once).1 member
        exact (created_important fires.uniform he hp).symm

theorem isSome_combine?_iff (hs : s ∈ compactionOrder) :
    (s.combine? ds).isSome = true ↔ s.Fires ds := by
  rw [Option.isSome_iff_exists]
  constructor
  · rintro ⟨d, h⟩
    exact ((combine?_eq_some_iff_fires hs).1 h).1
  · intro fires
    exact ⟨_, (combine?_eq_some_iff_fires hs).2 ⟨fires, rfl⟩⟩

theorem not_any_absorbs_iff :
    (!compactionOrder.any (absorbs ds p)) = true ↔ ¬ Absorbed ds p := by
  rw [Bool.not_eq_true', List.any_eq_false, Absorbed, not_exists]
  refine forall_congr' fun s => ?_
  rw [not_and]
  refine forall_congr' fun hs => not_congr ?_
  rw [absorbs, Bool.and_eq_true, decide_eq_true_eq, isSome_combine?_iff hs]

open Classical in
theorem combine?_eq_ite (hs : s ∈ compactionOrder) :
    s.combine? ds = if s.Fires ds then some (s.created ds) else none := by
  split
  · next fires => exact (combine?_eq_some_iff_fires hs).2 ⟨fires, rfl⟩
  · next fails =>
      rw [← isSome_combine?_iff hs, Option.not_isSome_iff_eq_none] at fails
      exact fails

open Classical in
/-- The effect of compaction, told by the table of its shorthands. -/
theorem compact_eq_unabsorbed_append (ds : List Declaration) :
    compact ds = ds.filter (fun d => ¬ Absorbed ds d.property) ++
      (compactionOrder.filter fun s => s.Fires ds).map fun s => s.created ds := by
  have rest : ds.filter (fun d => !compactionOrder.any (absorbs ds d.property)) =
      ds.filter fun d => ¬ Absorbed ds d.property := by
    apply List.filter_congr
    intro d _
    rw [Bool.eq_iff_iff, not_any_absorbs_iff, decide_eq_true_eq]
  have created : compactionOrder.filterMap (·.combine? ds) =
      (compactionOrder.filter fun s => s.Fires ds).map fun s => s.created ds := by
    rw [← List.filterMap_eq_map, List.filterMap_filter]
    apply List.filterMap_congr
    intro s hs
    simp only [combine?_eq_ite hs, decide_eq_true_eq, Function.comp_apply]
  rw [compact_eq, rest, created]

/-! ### What is asked of a value -/

theorem isGlobal_iff {v : Value} : isGlobal v = true ↔
    ∃ w, v = .keyword w ∧ Text.lower w ∈ ["inherit", "initial", "unset"] := by
  have words : globalWords.map Text.lower = ["inherit", "initial", "unset"] := by decide_cbv
  rw [isGlobal, Value.isOneOf_iff, words]

theorem isLayered_iff {v : Value} : isLayered v = true ↔ ∃ items, v = .series .comma items := by
  cases v <;> simp [isLayered, Value.isSeriesBy]

theorem series?_eq_none_iff {v : Value} :
    v.series? = none ↔ ∀ separator items, v ≠ .series separator items := by
  cases v <;> simp [Value.series?]

/-! ### The main result -/

open Classical in
/-- Compaction leaves every declaration in its place that is no longhand of a shorthand
that fires, and then lists what the shorthands that fire are put together to, in a fixed order
of eight shorthands. What they ask of the values of their longhands is told by the form of a
value: whether it is a global keyword, a series of layers, or any series. -/
theorem compact_eq_rest_append_created (ds : List Declaration) :
    let shorthands : List Shorthand := [
      ⟨"background", ["background-color", "background-image", "background-repeat",
        "background-position", "background-attachment"], .background⟩,
      ⟨"margin", ["margin-top", "margin-right", "margin-bottom", "margin-left"], .box⟩,
      ⟨"padding", ["padding-top", "padding-right", "padding-bottom", "padding-left"], .box⟩,
      ⟨"border-width", ["border-top-width", "border-right-width", "border-bottom-width",
        "border-left-width"], .box⟩,
      ⟨"border-style", ["border-top-style", "border-right-style", "border-bottom-style",
        "border-left-style"], .box⟩,
      ⟨"border-color", ["border-top-color", "border-right-color", "border-bottom-color",
        "border-left-color"], .box⟩,
      ⟨"list-style", ["list-style-type", "list-style-position", "list-style-image"], .listStyle⟩,
      ⟨"font", ["font-style", "font-variant", "font-weight", "font-size", "line-height",
        "font-family"], .font⟩]
    compact ds =
        ds.filter (fun d => ¬ ∃ s ∈ shorthands, s.Fires ds ∧ d.property ∈ s.longhands) ++
          (shorthands.filter fun s => s.Fires ds).map (fun s => s.created ds) ∧
      (∀ v, isGlobal v = true ↔
        ∃ w, v = .keyword w ∧ Text.lower w ∈ ["inherit", "initial", "unset"]) ∧
      (∀ v, isLayered v = true ↔ ∃ items, v = .series .comma items) ∧
      ∀ v : Value, v.series? = none ↔ ∀ separator items, v ≠ .series separator items := by
  intro shorthands
  have listed : compactionOrder = shorthands := rfl
  refine ⟨?_, fun v => isGlobal_iff, fun v => isLayered_iff, fun v => series?_eq_none_iff⟩
  rw [compact_eq_unabsorbed_append, ← listed]
  congr 1
  exact List.filter_congr fun d _ => decide_eq_decide.2 Iff.rfl

end Stylesheet.Shorthand
