import Stylesheet.Proofs.Shorthand.Expansion
import Stylesheet.Proofs.Shorthand.Fitting

/-!
# What compaction followed by expansion keeps

Expanding compacted declarations gives the untouched ones back, and what the created
shorthands are taken apart to. A property that no created shorthand has absorbed has
its declarations as before. An absorbed one has the declaration that its own shorthand
is taken apart to, and no other. So nothing is lost exactly if every created shorthand
restores the values it was put together from.
-/

namespace Stylesheet.Shorthand

variable {ds : List Declaration} {p : String} {s : Shorthand} {d : Declaration}

/-- Whether the last declaration of a property is still there after compaction and
expansion, with its importance and its value. -/
def Kept (ds : List Declaration) (p : String) : Prop :=
  ∃ before after, Declaration.last? p ds = some before ∧
    Declaration.last? p (expand (compact ds)) = some after ∧
    after.important = before.important ∧ Option.Rel Value.Agrees after.value? before.value?

/-! ### Declarations after the round trip -/

theorem expand_of_forall_unnamed (plain : ∀ d ∈ ds, named? d.property = none) : expand ds = ds := by
  induction ds with
  | nil => exact expand_nil
  | cons d ds ih =>
      rw [expand_cons, expand_of_unnamed (plain d List.mem_cons_self),
        ih fun e he => plain e (List.mem_cons_of_mem _ he), List.singleton_append]

/-- A created shorthand is rewritten to declarations of its own properties. -/
theorem expand_created (hs : s ∈ compactionOrder) (created : s.combine? ds = some d) :
    expand [d] = s.rewrite d :=
  expand_of_simple (mem_registry_of_compactionOrder s hs) (named?_longhand s hs)
    (combine?_eq_some created).1

theorem filter_expand_created (hs : s ∈ compactionOrder) (created : s.combine? ds = some d)
    (other : p ∉ s.name :: s.longhands) : (expand [d]).filter (·.property = p) = [] := by
  rw [expand_created hs created, List.filter_eq_nil_iff]
  intro e he
  rw [decide_eq_true_eq]
  rintro rfl
  apply other
  rcases property_of_mem_rewrite he with same | longhand
  · rw [same, (combine?_eq_some created).1]
    exact List.mem_cons_self
  · exact List.mem_cons_of_mem _ longhand

/-- The declarations that a shorthand contributes to a property by the round trip. -/
def contribution (ds : List Declaration) (p : String) (s : Shorthand) : List Declaration :=
  match s.combine? ds with
  | some d => (expand [d]).filter (·.property = p)
  | none => []

theorem contribution_of_none (h : s.combine? ds = none) : contribution ds p s = [] := by
  rw [contribution, h]

theorem contribution_of_some (h : s.combine? ds = some d) :
    contribution ds p s = (expand [d]).filter (·.property = p) := by
  rw [contribution, h]

theorem filter_expand_compact (plain : ∀ d ∈ ds, named? d.property = none) :
    (expand (compact ds)).filter (·.property = p) =
      (ds.filter fun d => !compactionOrder.any (absorbs ds d.property)).filter (·.property = p) ++
        compactionOrder.flatMap (contribution ds p) := by
  have untouched : ∀ d ∈ ds.filter (fun d => !compactionOrder.any (absorbs ds d.property)),
      named? d.property = none := by
    intro d hd
    exact plain d (List.mem_filter.1 hd).1
  have created (ss : List Shorthand) :
      (expand (ss.filterMap (·.combine? ds))).filter (·.property = p) =
        ss.flatMap (contribution ds p) := by
    induction ss with
    | nil => rw [List.filterMap_nil, expand_nil, List.filter_nil, List.flatMap_nil]
    | cons s ss ih =>
        rw [List.flatMap_cons, ← ih]
        cases made : s.combine? ds with
        | none => simp only [List.filterMap_cons, made, contribution_of_none made, List.nil_append]
        | some d =>
            simp only [List.filterMap_cons, made, contribution_of_some made]
            rw [expand_cons, List.filter_append]
  rw [compact_eq, expand_append, expand_of_forall_unnamed untouched, List.filter_append, created]

/-- A property that is not absorbed has its declarations as before. -/
theorem last?_of_not_absorbed (plain : ∀ d ∈ ds, named? d.property = none)
    (unnamed : named? p = none) (alone : ∀ s ∈ compactionOrder, absorbs ds p s = false) :
    Declaration.last? p (expand (compact ds)) = Declaration.last? p ds := by
  apply Declaration.last?_congr
  have none_created : compactionOrder.flatMap (contribution ds p) = [] := by
    rw [List.flatMap_eq_nil_iff]
    intro s hs
    cases created : s.combine? ds with
    | none => exact contribution_of_none created
    | some d =>
        rw [contribution_of_some created]
        apply filter_expand_created hs created
        rw [List.mem_cons, not_or]
        refine ⟨named?_eq_none_iff.1 unnamed s (mem_registry_of_compactionOrder s hs), ?_⟩
        have free := alone s hs
        simpa [absorbs, created] using free
  rw [filter_expand_compact plain, none_created, List.append_nil]
  apply Declaration.filter_filter_of_passed
  intro d _ same
  rw [same, Bool.not_eq_true', List.any_eq_false]
  intro s hs
  rw [alone s hs]
  exact Bool.false_ne_true

/-- An absorbed property is declared by what its shorthand is rewritten to. -/
theorem last?_of_absorbed (plain : ∀ d ∈ ds, named? d.property = none)
    (hs : s ∈ compactionOrder) (created : s.combine? ds = some d) (hp : p ∈ s.longhands) :
    Declaration.last? p (expand (compact ds)) = Declaration.last? p (s.rewrite d) := by
  apply Declaration.last?_congr
  have others : ∀ t ∈ compactionOrder, t ≠ s → contribution ds p t = [] := by
    intro t ht other
    cases made : t.combine? ds with
    | none => exact contribution_of_none made
    | some e =>
        rw [contribution_of_some made]
        apply filter_expand_created ht made
        exact apart_of_ne s hs t ht other.symm p (List.mem_cons_of_mem _ hp)
  have taken : compactionOrder.any (absorbs ds p) = true := by
    rw [List.any_eq_true]
    exact ⟨s, hs, by simp [absorbs, created, hp]⟩
  have none_left :
      (ds.filter fun d => !compactionOrder.any (absorbs ds d.property)).filter (·.property = p) =
        [] := by
    apply Declaration.filter_filter_of_failed
    intro d _ same
    rw [same, taken, Bool.not_true]
  rw [filter_expand_compact plain, none_left, List.nil_append,
    flatMap_of_unique compactionOrder_nodup hs others, contribution_of_some created,
    expand_created hs created]

/-! ### What is lost -/

/-- A longhand is declared with the part that goes with it. -/
theorem last?_zipWith {ps : List String} {parts : List Value} {part : Value} {important : Bool}
    (distinct : ps.Nodup) (h : (part, p) ∈ parts.zip ps) :
    Declaration.last? p (List.zipWith (fun property v => ⟨property, [v], important⟩) ps parts) =
      some ⟨p, [part], important⟩ := by
  induction ps generalizing parts with
  | nil => simp at h
  | cons q ps ih =>
      cases parts with
      | nil => simp at h
      | cons first parts =>
          obtain ⟨fresh, distinct⟩ := List.nodup_cons.1 distinct
          rw [List.zipWith_cons_cons, ← List.singleton_append, Declaration.last?_append]
          rw [List.zip_cons_cons, List.mem_cons] at h
          rcases h with same | h
          · obtain ⟨rfl, rfl⟩ := Prod.mk.inj same
            have later : Declaration.last? p
                (List.zipWith (fun property v => ⟨property, [v], important⟩) ps parts) = none := by
              rw [Declaration.last?_eq_none_iff]
              rintro e he rfl
              exact fresh (property_of_mem_zipWith he)
            rw [later, Option.none_or, Declaration.last?_eq_getLast?]
            simp
          · rw [ih distinct h, Option.some_or]

section Created

variable (plain : ∀ d ∈ ds, named? d.property = none) (hs : s ∈ compactionOrder)
  (created : s.combine? ds = some d)

include plain hs created

/-- An absorbed longhand is kept if its part is the value that it had. -/
theorem kept_longhand_iff {e : Declaration} {v part : Value} {parts : List Value}
    (expanded : s.parts? d.values = some parts) (at_part : (part, p) ∈ parts.zip s.longhands)
    (declared : Declaration.last? p ds = some e) (value : e.value? = some v) :
    Kept ds p ↔ part.Agrees v := by
  have hp : p ∈ s.longhands := (List.of_mem_zip at_part).2
  obtain ⟨name, -, longhands⟩ := combine?_eq_some created
  have last := last?_of_absorbed plain hs created hp
  rw [rewrite_of_parts name expanded, longhandsOf, last?_zipWith (longhands_nodup s hs) at_part] at last
  constructor
  · rintro ⟨before, after, hbefore, hafter, -, same⟩
    obtain rfl := Option.some.inj (declared.symm.trans hbefore)
    obtain rfl := Option.some.inj (last.symm.trans hafter)
    rw [value] at same
    cases same with
    | some agrees => exact agrees
  · intro agrees
    refine ⟨e, _, declared, last, (longhands p hp e declared).1.symm, ?_⟩
    rw [value]
    exact .some agrees

/-- A created shorthand keeps its longhands exactly if it restores their values. -/
theorem kept_iff_restored :
    (∀ p ∈ s.longhands, (∃ e ∈ ds, e.property = p) → Kept ds p) ↔
      ∃ parts, s.parts? d.values = some parts ∧ Restored parts (s.held ds) := by
  obtain ⟨name, -, longhands⟩ := combine?_eq_some created
  cases expanded : s.parts? d.values with
  | none =>
      constructor
      · intro kept
        exfalso
        obtain ⟨p, hp, e, he⟩ := exists_longhand_of_combine? created
        obtain ⟨-, after, -, hafter, -⟩ := kept p hp (Declaration.exists_last?_iff.1 ⟨e, he⟩)
        rw [last?_of_absorbed plain hs created hp, rewrite_of_refused name expanded] at hafter
        have property := Declaration.property_of_last? hafter
        rw [List.mem_singleton.1 (Declaration.mem_of_last? hafter), name] at property
        exact ne_name_of_longhand hs hp property.symm
      · rintro ⟨parts, h, -⟩
        cases h
  | some parts =>
      have width := length_of_parts? (mem_registry_of_compactionOrder s hs) expanded
      have each : Restored parts (s.held ds) ↔ ∀ part p, (part, p) ∈ parts.zip s.longhands →
          ∀ v ∈ (Declaration.last? p ds).bind Declaration.value?, part.Agrees v := by
        rw [Restored, held, List.forall₂_map_right_iff, List.forall₂_iff_zip]
        exact ⟨fun h part p => h.2, fun h => ⟨width, fun {part p} => h part p⟩⟩
      simp only [Option.some.injEq, exists_eq_left', each]
      constructor
      · intro kept part p at_part v hv
        obtain ⟨e, declared, value⟩ := Option.bind_eq_some_iff.1 hv
        exact (kept_longhand_iff plain hs created expanded at_part declared value).1
          (kept p (List.of_mem_zip at_part).2 (Declaration.exists_last?_iff.1 ⟨e, declared⟩))
      · intro restored p hp member
        obtain ⟨e, declared⟩ := Declaration.exists_last?_iff.2 member
        obtain ⟨-, v, value⟩ := longhands p hp e declared
        obtain ⟨part, at_part⟩ := exists_mem_zip width hp
        apply (kept_longhand_iff plain hs created expanded at_part declared value).2
        exact restored part p at_part v (by rw [declared]; exact value)

end Created

theorem kept_of_not_absorbed (plain : ∀ d ∈ ds, named? d.property = none)
    (declared : ∃ e ∈ ds, e.property = p)
    (alone : ∀ s ∈ compactionOrder, absorbs ds p s = false) : Kept ds p := by
  obtain ⟨e, last⟩ := Declaration.exists_last?_iff.2 declared
  have unnamed : named? p = none :=
    Declaration.property_of_last? last ▸ plain e (Declaration.mem_of_last? last)
  refine ⟨e, e, last, (last?_of_not_absorbed plain unnamed alone).trans last, rfl, ?_⟩
  cases e.value? with
  | none => exact .none
  | some v => exact .some (.refl v)

/-- The longhands of a shorthand are kept exactly if it is not created, or they have a
global keyword, or their values fit. -/
theorem kept_longhands_iff (plain : ∀ d ∈ ds, named? d.property = none)
    (hs : s ∈ compactionOrder) :
    (∀ p ∈ s.longhands, (∃ e ∈ ds, e.property = p) → Kept ds p) ↔
      s.combine? ds = none ∨ (∃ v, some v ∈ s.held ds ∧ isGlobal v = true) ∨
        s.kind.Fits (s.held ds) := by
  cases created : s.combine? ds with
  | none =>
      refine ⟨fun _ => Or.inl rfl, ?_⟩
      intro _ p hp declared
      apply kept_of_not_absorbed plain declared
      intro t ht
      by_cases same : s = t
      · subst same
        simp [absorbs, created]
      · have apart := apart_of_ne s hs t ht same p (List.mem_cons_of_mem _ hp)
        have other : p ∉ t.longhands := fun h => apart (List.mem_cons_of_mem _ h)
        simp [absorbs, other]
  | some d =>
      obtain ⟨-, joined, -⟩ := combine?_eq_some created
      rw [kept_iff_restored plain hs created,
        restored_iff (mem_registry_of_compactionOrder s hs) (by simp [held]) joined]
      simp

/-- Compaction followed by expansion loses nothing but longhands of backgrounds, list
styles and fonts, and those exactly where the shorthand is created from values that
neither fit it nor are global keywords. -/
theorem compaction_keeps_iff (plain : ∀ d ∈ ds, named? d.property = none) :
    (∀ p, (∃ e ∈ ds, e.property = p) →
      (∀ s ∈ [background, listStyle, font], p ∉ s.longhands) → Kept ds p) ∧
    ∀ s ∈ compactionOrder,
      ((∀ p ∈ s.longhands, (∃ e ∈ ds, e.property = p) → Kept ds p) ↔
        s.combine? ds = none ∨ (∃ v, some v ∈ s.held ds ∧ isGlobal v = true) ∨
          s.kind.Fits (s.held ds)) := by
  refine ⟨?_, fun s hs => kept_longhands_iff plain hs⟩
  intro p declared outside
  by_cases taken : ∃ s ∈ compactionOrder, p ∈ s.longhands
  · obtain ⟨s, hs, hp⟩ := taken
    apply (kept_longhands_iff plain hs).2 (Or.inr (Or.inr ?_)) p hp declared
    rcases box_of_compactionOrder s hs with other | box
    · exact absurd hp (outside s other)
    · rw [box]
      trivial
  · apply kept_of_not_absorbed plain declared
    intro s hs
    have other : p ∉ s.longhands := fun h => taken ⟨s, hs, h⟩
    simp [absorbs, other]

/-- An important list style comes back, and the declaration among its longhands stays. -/
theorem list_style_is_kept :
    let ds : List Declaration :=
      [⟨"list-style-type", [.keyword "square"], true⟩, ⟨"color", [.keyword "red"], false⟩,
        ⟨"list-style-image", [.keyword "none"], true⟩]
    (∀ d ∈ ds, named? d.property = none) ∧ (listStyle.combine? ds).isSome = true ∧
      Kept ds "color" ∧ Kept ds "list-style-type" ∧ Kept ds "list-style-image" := by
  intro ds
  have plain : ∀ d ∈ ds, named? d.property = none := by decide_cbv
  have kept := (compaction_keeps_iff plain).2 listStyle (by decide_cbv)
  have held : listStyle.held ds = [some (.keyword "square"), none, some (.keyword "none")] := rfl
  have fits : listStyle.kind.Fits (listStyle.held ds) := by
    rw [held]
    refine ⟨?_, by simp, ?_⟩
    · rintro _ ⟨⟩
      exact Or.inl (by decide +kernel)
    · rintro _ ⟨⟩
      exact Or.inr rfl
  have all := kept.2 (Or.inr (Or.inr fits))
  refine ⟨plain, by decide_cbv, ?_, ?_, ?_⟩
  · exact (compaction_keeps_iff plain).1 "color" (by simp [ds]) (by decide_cbv)
  · exact all "list-style-type" (by decide_cbv) (by simp [ds])
  · exact all "list-style-image" (by decide_cbv) (by simp [ds])

/-- A color that is known only by its use of a variable is lost: the created background
cannot be taken apart. -/
theorem variable_color_is_lost :
    let ds : List Declaration :=
      [⟨"background-color", [.call "var" .comma [.keyword "--accent"]], false⟩]
    (∀ d ∈ ds, named? d.property = none) ∧
      (Declaration.last? "background-color" (expand (compact ds))).isNone = true ∧
      ¬ Kept ds "background-color" := by
  intro ds
  have gone : (Declaration.last? "background-color" (expand (compact ds))).isNone = true := by
    decide +kernel
  refine ⟨by decide_cbv, gone, ?_⟩
  rintro ⟨-, after, -, found, -⟩
  rw [found] at gone
  cases gone

end Stylesheet.Shorthand
