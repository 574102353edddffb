import Mathlib
import Stylesheet.Proofs.Shorthand.Border
import Stylesheet.Proofs.Shorthand.Expansion
import Stylesheet.Proofs.Shorthand.Fitting

/-!
# Expansion as a replacement of single declarations

Expansion goes over all declarations once for every shorthand, and what the pass of
`border` leaves is changed again by the passes of its boxes. The outcome is that every
declaration is replaced by itself, in its own place: by its longhands if its values
are accepted, where a border has the twelve sides of its boxes. What takes its place
declares shorthands only if it is the declaration itself, refused.
-/

namespace Stylesheet.Shorthand

variable {s : Shorthand} {d e : Declaration} {parts : List Value}

/-- The twelve sides of a border, first the widths, then the styles, then the colors. -/
def sidesOf (d : Declaration) (parts : List Value) : List Declaration :=
  (List.zipWith (fun s v => s.longhands.map fun p => ⟨p, [v], d.important⟩) borderBoxes
    parts).flatten

/-- What takes the place of a declaration, told from that declaration alone. -/
def replacement (d : Declaration) : List Declaration :=
  match named? d.property with
  | none => [d]
  | some s =>
    match s.parts? d.values with
    | none => [d]
    | some parts => if s = border then sidesOf d parts else s.longhandsOf d parts

theorem replacement_of_unnamed (h : named? d.property = none) : replacement d = [d] := by
  rw [replacement, h]

theorem replacement_of_refused (named : named? d.property = some s)
    (refused : s.parts? d.values = none) : replacement d = [d] := by
  simp only [replacement, named, refused]

theorem replacement_of_parts (named : named? d.property = some s)
    (accepted : s.parts? d.values = some parts) :
    replacement d = if s = border then sidesOf d parts else s.longhandsOf d parts := by
  simp only [replacement, named, accepted]

/-! ### Borders -/

/-- A border is taken apart to three values, none of which is a series. -/
theorem parts?_border {vs : List Value} (h : border.parts? vs = some parts) :
    ∃ width style color, parts = [width, style, color] ∧
      ∀ v ∈ parts, ∀ items, v ≠ .series .space items := by
  have expanded (h : Border.expand? vs = some parts) : ∃ width style color,
      parts = [width, style, color] ∧ ∀ v ∈ parts, ∀ items, v ≠ .series .space items := by
    obtain ⟨width, style, color, shape, -⟩ := Border.part?_of_expand? h
    exact ⟨width, style, color, shape, fun v hv => Border.ne_series_of_expand? h hv .space⟩
  unfold parts? at h
  split at h
  · next v =>
      split at h
      · next global =>
          obtain rfl := Option.some.inj h
          refine ⟨v, v, v, rfl, ?_⟩
          obtain ⟨w, rfl, -⟩ := Value.isOneOf_iff.1 global
          simp [border]
      · exact expanded h
  · exact expanded h

/-- A box that is given by one value has it on every side. -/
theorem parts?_single {v : Value} (box : s.kind = .box) (four : s.longhands.length = 4)
    (whole : ∀ items, v ≠ .series .space items) :
    s.parts? [v] = some (s.longhands.map fun _ => v) := by
  have expanded : s.kind.expand? [v] = some (s.longhands.map fun _ => v) := by
    rw [List.map_const', four, box]
    simp [Kind.expand?, Box.expand?, Value.flattenSpaces_singleton whole, List.replicate]
  rw [parts?, expanded, ite_self]

theorem expand_side (hs : s ∈ borderBoxes) (important : Bool) {v : Value}
    (whole : ∀ items, v ≠ .series .space items) :
    expand [⟨s.name, [v], important⟩] = s.longhands.map fun p => ⟨p, [v], important⟩ := by
  obtain ⟨registered, box, four, simple⟩ := borderBoxes_box s hs
  rw [expand_of_simple registered simple rfl, rewrite_of_parts rfl (parts?_single box four whole),
    longhandsOf, List.zipWith_map_right, List.zipWith_self]

theorem expand_eq_tail (ds : List Declaration) :
    expand ds = registry.tail.foldl (fun ds s => s.expandOne ds) (border.expandOne ds) := by
  rw [expand, registry, List.foldl_cons, List.tail_cons]

/-- The pass of `border` comes first, and its longhands are none of its business. -/
theorem expand_border_of_parts (named : d.property = border.name)
    (accepted : border.parts? d.values = some parts) :
    expand [d] = expand (border.longhandsOf d parts) := by
  have own : border.expandOne [d] = border.longhandsOf d parts := by
    rw [expandOne, List.flatMap_singleton, rewrite_of_parts named accepted]
  have finished : border.expandOne (border.longhandsOf d parts) = border.longhandsOf d parts := by
    apply expandOne_of_ne
    intro e he same
    have longhand := property_of_mem_zipWith he
    rw [same] at longhand
    exact absurd longhand (by decide)
  rw [expand_eq_tail, expand_eq_tail, own, finished]

theorem expand_border_of_refused (named : d.property = border.name)
    (refused : border.parts? d.values = none) : expand [d] = [d] := by
  have own : border.expandOne [d] = [d] := by
    rw [expandOne, List.flatMap_singleton, rewrite_of_refused named refused]
  rw [expand_eq_tail, own]
  apply foldl_expandOne_of_ne
  simp only [List.mem_singleton, forall_eq, named]
  decide_cbv

theorem expand_border (named : d.property = border.name)
    (accepted : border.parts? d.values = some parts) : expand [d] = sidesOf d parts := by
  obtain ⟨width, style, color, rfl, whole⟩ := parts?_border accepted
  rw [expand_border_of_parts named accepted]
  simp only [List.forall_mem_cons] at whole
  obtain ⟨hw, hs, hc, -⟩ := whole
  have sides : border.longhandsOf d [width, style, color] =
      [⟨borderWidth.name, [width], d.important⟩] ++ ([⟨borderStyle.name, [style], d.important⟩] ++
        [⟨borderColor.name, [color], d.important⟩]) := rfl
  rw [sides, expand_append, expand_append,
    expand_side (by decide) _ hw, expand_side (by decide) _ hs, expand_side (by decide) _ hc]
  rfl

/-! ### All shorthands -/

theorem expand_singleton (d : Declaration) : expand [d] = replacement d := by
  cases named : named? d.property with
  | none => rw [expand_of_unnamed named, replacement_of_unnamed named]
  | some s =>
      obtain ⟨hs, name⟩ := named?_eq_some_iff.1 named
      by_cases first : s = border
      · subst first
        cases accepted : border.parts? d.values with
        | none => rw [expand_border_of_refused name accepted, replacement_of_refused named accepted]
        | some parts =>
            rw [expand_border name accepted, replacement_of_parts named accepted, if_pos rfl]
      · rw [expand_of_simple hs (named?_longhand_of_ne_border s hs first) name]
        cases accepted : s.parts? d.values with
        | none => rw [rewrite_of_refused name accepted, replacement_of_refused named accepted]
        | some parts =>
            rw [rewrite_of_parts name accepted, replacement_of_parts named accepted, if_neg first]

theorem expand_eq_flatMap_replacement (ds : List Declaration) :
    expand ds = ds.flatMap replacement := by
  rw [expand_eq_flatMap]
  exact List.flatMap_congr fun d _ => expand_singleton d

/-! ### What takes the place of a shorthand -/

theorem property_longhandsOf (width : parts.length = s.longhands.length) :
    (s.longhandsOf d parts).map (·.property) = s.longhands := by
  conv_rhs => rw [← List.map_fst_zip (Nat.le_of_eq width.symm), List.zip, List.map_zipWith]
  rw [longhandsOf, List.map_zipWith]

/-- An accepted declaration gives way to one declaration for every leaf. -/
theorem property_replacement (named : named? d.property = some s)
    (accepted : s.parts? d.values = some parts) :
    (replacement d).map (·.property) = s.leaves := by
  obtain ⟨hs, -⟩ := named?_eq_some_iff.1 named
  rw [replacement_of_parts named accepted]
  by_cases first : s = border
  · subst first
    obtain ⟨width, style, color, rfl, -⟩ := parts?_border accepted
    rw [if_pos rfl, leaves_border]
    rfl
  · rw [if_neg first, leaves_of_simple (named?_longhand_of_ne_border s hs first),
      property_longhandsOf (length_of_parts? hs accepted)]

/-- What takes the place of a declaration has its property, or is a leaf of its shorthand. -/
theorem property_of_mem_replacement (h : e ∈ replacement d) :
    e.property = d.property ∨ ∃ s, named? d.property = some s ∧ e.property ∈ s.leaves := by
  cases named : named? d.property with
  | none =>
      rw [replacement_of_unnamed named, List.mem_singleton] at h
      exact Or.inl (congrArg Declaration.property h)
  | some s =>
      cases accepted : s.parts? d.values with
      | none =>
          rw [replacement_of_refused named accepted, List.mem_singleton] at h
          exact Or.inl (congrArg Declaration.property h)
      | some parts =>
          have leaf := List.mem_map_of_mem (f := (·.property)) h
          rw [property_replacement named accepted] at leaf
          exact Or.inr ⟨s, rfl, leaf⟩

theorem important_longhandsOf (h : e ∈ s.longhandsOf d parts) : e.important = d.important := by
  obtain ⟨p, -, v, -, rfl⟩ := exists_of_mem_zipWith h
  rfl

theorem important_sidesOf (h : e ∈ sidesOf d parts) : e.important = d.important := by
  obtain ⟨sides, member, he⟩ := List.mem_flatten.1 h
  obtain ⟨s, -, v, -, rfl⟩ := exists_of_mem_zipWith member
  obtain ⟨p, -, rfl⟩ := List.mem_map.1 he
  rfl

theorem important_replacement (h : e ∈ replacement d) : e.important = d.important := by
  unfold replacement at h
  split at h
  · rw [List.mem_singleton.1 h]
  · split at h
    · rw [List.mem_singleton.1 h]
    · split at h
      · exact important_sidesOf h
      · exact important_longhandsOf h

/-- A global keyword goes to every leaf. -/
theorem replacement_of_global {v : Value} (named : named? d.property = some s)
    (values : d.values = [v]) (global : isGlobal v = true) :
    replacement d = s.leaves.map fun p => ⟨p, [v], d.important⟩ := by
  have spread : s.parts? d.values = some (s.longhands.map fun _ => v) := by
    rw [values]
    exact if_pos global
  rw [replacement_of_parts named spread]
  by_cases first : s = border
  · subst first
    rw [if_pos rfl, leaves_border]
    rfl
  · obtain ⟨hs, -⟩ := named?_eq_some_iff.1 named
    rw [if_neg first, leaves_of_simple (named?_longhand_of_ne_border s hs first), longhandsOf,
      List.zipWith_map_right, List.zipWith_self]

theorem parts?_eq_none_iff {vs : List Value} :
    s.parts? vs = none ↔ (∀ v, vs = [v] → isGlobal v = false) ∧ s.kind.expand? vs = none := by
  unfold parts?
  split
  · next v => cases global : isGlobal v <;> simp [global]
  · next other =>
      refine ⟨fun refused => ⟨fun v single => absurd single (other v), refused⟩, And.right⟩

/-- What takes the place of a declaration is itself left alone. -/
theorem unnamed_or_refused (h : e ∈ replacement d) :
    named? e.property = none ∨
      e = d ∧ ∃ s, named? d.property = some s ∧ s.parts? d.values = none := by
  cases named : named? d.property with
  | none =>
      rw [replacement_of_unnamed named] at h
      rw [List.mem_singleton.1 h]
      exact Or.inl named
  | some s =>
      obtain ⟨hs, -⟩ := named?_eq_some_iff.1 named
      cases accepted : s.parts? d.values with
      | none =>
          rw [replacement_of_refused named accepted] at h
          exact Or.inr ⟨List.mem_singleton.1 h, s, rfl, accepted⟩
      | some parts =>
          have leaf := List.mem_map_of_mem (f := (·.property)) h
          rw [property_replacement named accepted] at leaf
          exact Or.inl (named?_leaf s hs _ leaf)

theorem replacement_of_mem (h : e ∈ replacement d) : replacement e = [e] := by
  rcases unnamed_or_refused h with unnamed | ⟨rfl, s, named, refused⟩
  · exact replacement_of_unnamed unnamed
  · exact replacement_of_refused named refused

/-- Only a refused declaration is still one of a shorthand. -/
theorem refused_of_mem_replacement (h : e ∈ replacement d) (hs : s ∈ registry)
    (name : e.property = s.name) : e = d ∧ s.parts? e.values = none := by
  have named : named? e.property = some s := named?_eq_some_iff.2 ⟨hs, name⟩
  rcases unnamed_or_refused h with unnamed | ⟨rfl, t, ht, refused⟩
  · rw [unnamed] at named
    cases named
  · obtain rfl := Option.some.inj (named.symm.trans ht)
    exact ⟨rfl, refused⟩

theorem flatMap_replacement_replacement (ds : List Declaration) :
    (ds.flatMap replacement).flatMap replacement = ds.flatMap replacement := by
  rw [List.flatMap_assoc]
  apply List.flatMap_congr
  intro d _
  calc (replacement d).flatMap replacement
      _ = (replacement d).flatMap fun e => [e] :=
        List.flatMap_congr fun e he => replacement_of_mem he
      _ = replacement d := List.flatMap_singleton' _

theorem expand_expand (ds : List Declaration) : expand (expand ds) = expand ds := by
  simp only [expand_eq_flatMap_replacement, flatMap_replacement_replacement]

/-! ### The main results -/

/-- Expansion replaces every declaration in its own place by what is told from it alone:
by itself, or by a declaration for every leaf of its shorthand, of its importance. A single
global keyword goes to every leaf, whatever the kind of the shorthand. -/
theorem expand_declaration_by_declaration (ds es : List Declaration) :
    expand ds = ds.flatMap replacement ∧
      (∀ d s, named? d.property = some s →
        (∀ parts, s.parts? d.values = some parts →
          (replacement d).map (·.property) = s.leaves ∧
            ∀ e ∈ replacement d, e.important = d.important) ∧
          ∀ v, d.values = [v] → isGlobal v = true →
            replacement d = s.leaves.map fun p => ⟨p, [v], d.important⟩) ∧
      expand (ds ++ es) = expand ds ++ expand es := by
  refine ⟨expand_eq_flatMap_replacement ds, fun d s named => ⟨?_, ?_⟩, expand_append ds es⟩
  · intro parts accepted
    exact ⟨property_replacement named accepted, fun e he => important_replacement he⟩
  · intro v values global
    exact replacement_of_global named values global

/-- A second expansion changes nothing. A shorthand that is left over was there before,
and it is neither a global keyword nor accepted by its kind; so a border leaves none of
its boxes. -/
theorem expand_reaches_fixpoint (ds : List Declaration) :
    expand (expand ds) = expand ds ∧
      (∀ e ∈ expand ds, ∀ s ∈ registry, e.property = s.name →
        e ∈ ds ∧ (∀ v, e.values = [v] → isGlobal v = false) ∧ s.kind.expand? e.values = none) ∧
      ∀ d ∈ ds, d.property = border.name →
        ∀ e ∈ expand [d], ∀ s ∈ borderBoxes, e.property ≠ s.name := by
  refine ⟨?_, ?_, ?_⟩
  · simp only [expand_eq_flatMap_replacement, flatMap_replacement_replacement]
  · intro e he s hs name
    rw [expand_eq_flatMap_replacement] at he
    obtain ⟨d, hd, member⟩ := List.mem_flatMap.1 he
    obtain ⟨rfl, refused⟩ := refused_of_mem_replacement member hs name
    exact ⟨hd, parts?_eq_none_iff.1 refused⟩
  · intro d _ name e he s hs same
    rw [expand_singleton] at he
    obtain ⟨rfl, -⟩ := refused_of_mem_replacement he (borderBoxes_box s hs).1 same
    exact borderBoxes_ne_border s hs (name.symm.trans same)

end Stylesheet.Shorthand
