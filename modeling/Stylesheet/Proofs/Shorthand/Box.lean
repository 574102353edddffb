import Mathlib
import Stylesheet.Proofs.Shorthand.Recovery

/-!
# The shortest form of a box

Four sides that are declared once each, with one value that is no series and with one
importance, are put together to a single declaration of their box, next to all that
compaction makes of the other declarations. Its values are the fewest that give these
sides: a value is left out exactly where it is equal to the one it follows, and every form
that leaves it out makes these two sides equal.

How many values there are is counted after series of spaces have been taken apart, as the
expansion does. In a series of spaces the four values are one.
-/

namespace Stylesheet.Shorthand

variable {s : Shorthand} {ds : List Declaration} {sides vs ws parts : List Value}
  {important : Bool}

/-! ### Values of a box -/

namespace Box

variable {top right bottom left : Value}

/-- Values that one value is equal to are equal to each other. -/
theorem beq_of_beq {v w x : Value} (hv : (x == v) = true) (hw : (x == w) = true) :
    (v == w) = true :=
  BEq.trans (BEq.symm hv) hw

theorem length_shortest_le_four : (shortest top right bottom left).length ≤ 4 := by
  unfold shortest
  split_ifs <;> simp

theorem length_shortest_le_three (sides : (right == left) = true) :
    (shortest top right bottom left).length ≤ 3 := by
  rw [shortest, bne, sides]
  simp only [Bool.not_true, Bool.false_eq_true, if_false]
  split_ifs <;> simp

theorem length_shortest_le_two (sides : (right == left) = true) (ends : (top == bottom) = true) :
    (shortest top right bottom left).length ≤ 2 := by
  simp only [shortest, bne, sides, ends, Bool.not_true, Bool.false_eq_true, if_false]
  split_ifs <;> simp

theorem shortest_eq_singleton (sides : (right == left) = true) (ends : (top == bottom) = true)
    (all : (top == right) = true) : shortest top right bottom left = [top] := by
  simp only [shortest, bne, sides, ends, all, Bool.not_true, Bool.false_eq_true, if_false]

/-- No values that are fewer give sides that are equal to these. -/
theorem length_shortest_le (expanded : expand? ws = some parts)
    (equal : List.Forall₂ (fun v w => (v == w) = true) parts [top, right, bottom, left]) :
    (shortest top right bottom left).length ≤ (Value.flattenSpaces ws).length := by
  unfold expand? at expanded
  split at expanded
  · next a flat =>
      obtain rfl := Option.some.inj expanded
      simp only [List.forall₂_cons, List.forall₂_nil_left_iff, and_true] at equal
      obtain ⟨ht, hr, hb, hl⟩ := equal
      rw [flat, shortest_eq_singleton (beq_of_beq hr hl) (beq_of_beq ht hb) (beq_of_beq ht hr)]
      exact Nat.le_refl _
  · next a b flat =>
      obtain rfl := Option.some.inj expanded
      simp only [List.forall₂_cons, List.forall₂_nil_left_iff, and_true] at equal
      obtain ⟨ht, hr, hb, hl⟩ := equal
      rw [flat]
      exact length_shortest_le_two (beq_of_beq hr hl) (beq_of_beq ht hb)
  · next a b c flat =>
      obtain rfl := Option.some.inj expanded
      simp only [List.forall₂_cons, List.forall₂_nil_left_iff, and_true] at equal
      obtain ⟨-, hr, -, hl⟩ := equal
      rw [flat]
      exact length_shortest_le_three (beq_of_beq hr hl)
  · next a b c d flat =>
      rw [flat]
      exact length_shortest_le_four
  · cases expanded

end Box

section Registered

variable (hs : s ∈ registry) (box : s.kind = .box)

include hs box

theorem length_longhands_of_box : s.longhands.length = 4 := by
  rw [length_longhands s hs, box, Kind.width]

theorem mem_compactionOrder_of_box : s ∈ compactionOrder := by
  apply mem_compactionOrder_of_ne_border s hs
  rintro rfl
  cases box

/-- A global keyword goes to the four sides of a box as any other single value does. -/
theorem parts?_of_box (vs : List Value) : s.parts? vs = Box.expand? vs := by
  have expanded : s.kind.expand? = Box.expand? := by rw [box, Kind.expand?]
  unfold parts?
  split
  · next v =>
      split
      · next global =>
          obtain ⟨w, rfl, -⟩ := Value.isOneOf_iff.1 global
          rw [List.map_const', length_longhands_of_box hs box]
          rfl
      · rw [expanded]
  · rw [expanded]

/-- What a box is taken apart to is known from the declarations of its sides. -/
theorem expand_eq_longhandsOf_iff (four : parts.length = 4) :
    expand [⟨s.name, vs, important⟩] = s.longhandsOf ⟨s.name, vs, important⟩ parts ↔
      Box.expand? vs = some parts := by
  have order := mem_compactionOrder_of_box hs box
  have width := length_longhands_of_box hs box
  rw [expand_of_simple hs (named?_longhand s order) rfl, ← parts?_of_box hs box]
  cases accepted : s.parts? vs with
  | none =>
      rw [rewrite_of_refused rfl accepted]
      refine iff_of_false ?_ (fun h => by cases h)
      intro same
      have lengths := congrArg List.length same
      rw [longhandsOf, List.length_zipWith, width, four] at lengths
      cases lengths
  | some found =>
      rw [rewrite_of_parts rfl accepted, Option.some.injEq]
      refine ⟨fun same => ?_, fun same => by rw [same]⟩
      have held := congrArg s.held same
      rw [held_longhandsOf order (length_of_parts? hs accepted),
        held_longhandsOf order (four.trans width.symm)] at held
      exact List.map_injective_iff.2 (Option.some_injective Value) held

end Registered

/-! ### The declarations of the sides -/

/-- Whether the sides of a box are declared once each with these values and with this
importance, in a list that may be compacted: none of the values is a series, the box is not
declared itself, and the sides have one global keyword or none. -/
structure SidesDeclared (s : Shorthand) (ds : List Declaration) (sides : List Value)
    (important : Bool) : Prop where
  once : List.Forall₂ (fun p v => ds.filter (·.property = p) = [⟨p, [v], important⟩]) s.longhands
    sides
  flat : ∀ v ∈ sides, v.series? = none
  undeclared : ∀ d ∈ ds, d.property ≠ s.name
  globals : (∀ v ∈ sides, isGlobal v = false) ∨
    ∃ w, isGlobal (.keyword w) = true ∧ ∀ v ∈ sides, v = .keyword w

namespace SidesDeclared

variable {d : Declaration} (declared : SidesDeclared s ds sides important)

include declared

theorem declaration_eq (hd : d ∈ ds) (hp : d.property ∈ s.longhands) :
    ∃ v, d = ⟨d.property, [v], important⟩ := by
  obtain ⟨v, -, only⟩ := exists_of_forall₂ declared.once hp
  have member : d ∈ ds.filter (·.property = d.property) := by simp [hd]
  rw [only, List.mem_singleton] at member
  exact ⟨v, member⟩

theorem held_eq : s.held ds = sides.map some := by
  rw [held, ← List.forall₂_eq_eq_eq, List.forall₂_map_left_iff, List.forall₂_map_right_iff]
  apply declared.once.imp
  intro p v only
  rw [Declaration.last?_eq_getLast?, only]
  rfl

theorem fires (hs : s ∈ registry) (box : s.kind = .box) : s.Fires ds where
  undeclared := declared.undeclared
  once p hp := by
    obtain ⟨v, -, only⟩ := exists_of_forall₂ declared.once hp
    rw [only, List.length_singleton]
  declared := by
    obtain ⟨p, hp⟩ := List.exists_mem_of_ne_nil _
      (longhands_ne_nil s (mem_compactionOrder_of_box hs box))
    obtain ⟨v, -, only⟩ := exists_of_forall₂ declared.once hp
    have member : ⟨p, [v], important⟩ ∈ ds.filter (·.property = p) :=
      only ▸ List.mem_singleton_self _
    exact ⟨_, (List.mem_filter.1 member).1, hp⟩
  valued d hd hp := by
    obtain ⟨v, hv⟩ := declared.declaration_eq hd hp
    rw [hv]
    exact List.cons_ne_nil v []
  uniform d hd e he hdp hep := by
    obtain ⟨v, hv⟩ := declared.declaration_eq hd hdp
    obtain ⟨w, hw⟩ := declared.declaration_eq he hep
    rw [hv, hw]
  joins := by
    rw [declared.held_eq, box]
    rcases declared.globals with none_global | ⟨w, global, all⟩
    · refine Or.inr ⟨?_, ?_⟩
      · intro v hv
        exact none_global v (by simpa using hv)
      · intro side hside
        obtain ⟨v, hv, rfl⟩ := List.mem_map.1 hside
        exact ⟨v, rfl, declared.flat v hv⟩
    · refine Or.inl ⟨w, global, ?_⟩
      intro side hside
      obtain ⟨v, hv, rfl⟩ := List.mem_map.1 hside
      rw [all v hv]

theorem created_eq (hs : s ∈ registry) (box : s.kind = .box) :
    ∃ top right bottom left, sides = [top, right, bottom, left] ∧
      s.created ds = ⟨s.name, Box.shortest top right bottom left, important⟩ := by
  have four : sides.length = 4 := by
    rw [← declared.once.length_eq, length_longhands_of_box hs box]
  match sides, four with
  | [top, right, bottom, left], _ =>
      have fires := declared.fires hs box
      have flag : (s.created ds).important = important := by
        obtain ⟨e, he, hp⟩ := fires.declared
        obtain ⟨v, hv⟩ := declared.declaration_eq he hp
        rw [created_important fires.uniform he hp, hv]
      have written : s.writtenValues ([top, right, bottom, left].map some) =
          Box.shortest top right bottom left := by
        have present : ([top, right, bottom, left].map some).filterMap id =
            [top, right, bottom, left] := rfl
        rw [writtenValues, present, box]
        rcases declared.globals with none_global | ⟨w, global, all⟩
        · rw [List.find?_eq_none.2 fun v hv => Bool.eq_false_iff.1 (none_global v hv)]
          rfl
        · simp only [List.forall_mem_cons, List.not_mem_nil, false_implies, implies_true,
            and_true] at all
          obtain ⟨rfl, rfl, rfl, rfl⟩ := all
          have same : (Value.keyword w == .keyword w) = true := beq_self_eq_true w
          rw [Box.shortest_eq_singleton same same same, List.find?_cons_of_pos global]
      refine ⟨top, right, bottom, left, rfl, ?_⟩
      calc s.created ds
          _ = ⟨s.name, s.writtenValues (s.held ds), (s.created ds).important⟩ := rfl
          _ = ⟨s.name, Box.shortest top right bottom left, important⟩ := by
            rw [flag, declared.held_eq, written]

end SidesDeclared

/-! ### The main result -/

/-- Whether values of a box give these sides, and no other values that do are fewer. -/
structure ShortestForm (s : Shorthand) (sides vs : List Value) (important : Bool) : Prop where
  given : ∃ parts, expand [⟨s.name, vs, important⟩] =
      s.longhandsOf ⟨s.name, vs, important⟩ parts ∧ List.Forall₂ Value.Agrees parts sides
  plain : Value.flattenSpaces vs = vs
  least : ∀ ws parts, expand [⟨s.name, ws, important⟩] =
      s.longhandsOf ⟨s.name, ws, important⟩ parts →
    List.Forall₂ (fun v w => (v == w) = true) parts sides →
      vs.length ≤ (Value.flattenSpaces ws).length

theorem SidesDeclared.shortestForm {top right bottom left : Value}
    (declared : SidesDeclared s ds [top, right, bottom, left] important)
    (hs : s ∈ registry) (box : s.kind = .box) :
    ShortestForm s [top, right, bottom, left] (Box.shortest top right bottom left) important where
  given := by
    have compacted : Box.compact? ([top, right, bottom, left].map some) =
        some (Box.shortest top right bottom left) := by
      rw [Box.compact?_eq_some_iff]
      refine ⟨rfl, ?_, rfl⟩
      intro side hside
      obtain ⟨v, hv, rfl⟩ := List.mem_map.1 hside
      exact ⟨v, rfl, declared.flat v hv⟩
    obtain ⟨parts, expanded, restored⟩ := Box.restored compacted
    refine ⟨parts, (expand_eq_longhandsOf_iff hs box restored.length_eq).2 expanded, ?_⟩
    rw [Restored, List.forall₂_map_right_iff] at restored
    exact restored.imp fun v w agrees => agrees w rfl
  plain := by
    apply Value.flattenSpaces_of_forall
    rintro v hv items rfl
    cases declared.flat _ (Box.shortest_subset _ _ _ _ hv)
  least ws parts expanded equal :=
    Box.length_shortest_le ((expand_eq_longhandsOf_iff hs box equal.length_eq).1 expanded) equal

/-- Four sides are put together to one declaration of their box, with their importance, in
the midst of what becomes of the other declarations. It is taken apart to the same sides,
and values that are taken apart to equal sides are no fewer, series of spaces taken
apart. -/
theorem compact_box_shortest (hs : s ∈ registry) (box : s.kind = .box)
    (declared : SidesDeclared s ds sides important) :
    ∃ vs before after,
      compact ds = before ++ ⟨s.name, vs, important⟩ :: after ∧
      compact (ds.filter fun e => e.property ∉ s.longhands) = before ++ after ∧
      (∀ e ∈ before ++ after, e.property ∉ s.name :: s.longhands) ∧
      ShortestForm s sides vs important := by
  obtain ⟨top, right, bottom, left, rfl, created⟩ := declared.created_eq hs box
  have order := mem_compactionOrder_of_box hs box
  have combined := (combine?_eq_some_iff_fires order).2 ⟨declared.fires hs box, rfl⟩
  rw [created] at combined
  obtain ⟨before, after, whole, others, apart⟩ := compact_eq_insert order combined
  exact ⟨_, before, after, whole, others, apart, declared.shortestForm hs box⟩

/-- An important margin with equal ends and equal sides, and a declaration among them, has
its shortest form behind that declaration. -/
theorem margin_is_shortened :
    let one : Value := .size (.ofNumber 1 (some "px"))
    let two : Value := .size (.ofNumber 2 (some "px"))
    let color : Declaration := ⟨"color", [.keyword "red"], false⟩
    let ds : List Declaration :=
      [⟨"margin-top", [one], true⟩, ⟨"margin-right", [two], true⟩, color,
        ⟨"margin-bottom", [one], true⟩, ⟨"margin-left", [two], true⟩]
    SidesDeclared margin ds [one, two, one, two] true ∧
      ∃ vs before after, compact ds = before ++ ⟨"margin", vs, true⟩ :: after ∧
        compact [color] = before ++ after ∧ ShortestForm margin [one, two, one, two] vs true := by
  intro one two color ds
  have declared : SidesDeclared margin ds [one, two, one, two] true := by
    refine ⟨?_, ?_, ?_, ?_⟩
    · exact .cons rfl (.cons rfl (.cons rfl (.cons rfl .nil)))
    · simp [one, two, Value.series?]
    · decide_cbv
    · exact Or.inl (by decide_cbv)
  obtain ⟨vs, before, after, whole, others, -, shortest⟩ :=
    compact_box_shortest (by decide) rfl declared
  exact ⟨declared, vs, before, after, whole, others, shortest⟩

/-- Four different sides are put together to four values, and a single series of these
values is taken apart to the very same declarations. -/
theorem series_is_shorter :
    let sides : List Value :=
      [.keyword "dotted", .keyword "dashed", .keyword "solid", .keyword "double"]
    let ws : List Value := [.series .space sides]
    let ds := borderStyle.longhandsOf ⟨"border-style", ws, false⟩ sides
    SidesDeclared borderStyle ds sides false ∧
      compact ds = [⟨"border-style", sides, false⟩] ∧
      expand [⟨"border-style", ws, false⟩] = ds ∧
      List.Forall₂ (fun v w => (v == w) = true) sides sides ∧ ws.length < sides.length := by
  intro sides ws ds
  have declared : SidesDeclared borderStyle ds sides false := by
    refine ⟨?_, ?_, ?_, ?_⟩
    · exact .cons rfl (.cons rfl (.cons rfl (.cons rfl .nil)))
    · simp [sides, Value.series?]
    · decide_cbv
    · exact Or.inl (by decide_cbv)
  have combined : borderStyle.combine? ds = some ⟨"border-style", sides, false⟩ := rfl
  obtain ⟨before, after, whole, others, -⟩ := compact_eq_insert (by decide) combined
  have alone : ds.filter (fun e => e.property ∉ borderStyle.longhands) = [] := rfl
  have nothing : compact [] = [] := rfl
  rw [alone, nothing, List.nil_eq, List.append_eq_nil_iff] at others
  rw [others.1, others.2] at whole
  refine ⟨declared, whole, ?_, ?_, by decide⟩
  · have accepted : Box.expand? ws = some sides := rfl
    exact (expand_eq_longhandsOf_iff (s := borderStyle) (by decide) rfl rfl).2 accepted
  · exact .cons rfl (.cons rfl (.cons rfl (.cons rfl .nil)))

end Stylesheet.Shorthand
