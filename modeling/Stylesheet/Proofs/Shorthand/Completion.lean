import Mathlib
import Stylesheet.Proofs.Shorthand.Recovery

/-!
# The longhands after compaction and expansion

Some longhands of a shorthand are declared, once each and with one importance. Where the
shorthand is put together from them, it is taken apart to all its longhands: those that
were declared have what is read of the values that were written for them, and the others
have their initial values. No other declaration becomes one of these longhands, because
the shorthand is in no other one, so this is all that is left of them.
-/

namespace Stylesheet.Shorthand

variable {s : Shorthand} {ds : List Declaration} {d : Declaration} {parts : List Value}
  {important : Bool} {p : String}

/-- Whether the longhands of a shorthand are declared once each, with these values and this
importance. -/
def Declares (s : Shorthand) (ds : List Declaration) (values : List Value) (important : Bool) :
    Prop :=
  List.Forall₂ (fun p v => ds.filter (·.property = p) = [⟨p, [v], important⟩]) s.longhands values

/-- Whether some longhands of a shorthand are declared, each at most once, with a value and
with this importance, and the shorthand itself is not. -/
structure PartlyDeclared (s : Shorthand) (ds : List Declaration) (important : Bool) : Prop where
  undeclared : ∀ d ∈ ds, d.property ≠ s.name
  once : ∀ p ∈ s.longhands, (ds.filter (·.property = p)).length ≤ 1
  declared : ∃ d ∈ ds, d.property ∈ s.longhands
  valued : ∀ d ∈ ds, d.property ∈ s.longhands → d.values ≠ []
  uniform : ∀ d ∈ ds, d.property ∈ s.longhands → d.important = important

/-- Whether the longhands of a shorthand are leaves of no other one. -/
def IsTopmost (s : Shorthand) : Prop := ∀ t ∈ registry, ∀ p ∈ s.longhands, p ∈ t.leaves → t = s

theorem isTopmost : ∀ s ∈ [background, listStyle, font], s.IsTopmost := by
  unfold IsTopmost
  decide_cbv

/-- The values with which the longhands are declared are known from the declarations. -/
theorem Declares.unique {vs ws : List Value} (h : s.Declares ds vs important)
    (k : s.Declares ds ws important) : vs = ws := by
  refine List.right_unique_forall₂' ?_ h k
  intro p v w first second
  rw [first, List.singleton_inj, Declaration.mk.injEq, List.singleton_inj] at second
  exact second.2.1

/-! ### The declarations of a created shorthand -/

theorem filter_longhandsOf (hs : s ∈ compactionOrder) (width : parts.length = s.longhands.length)
    {v : Value} (at_part : (p, v) ∈ s.longhands.zip parts) :
    (s.longhandsOf d parts).filter (·.property = p) = [⟨p, [v], d.important⟩] := by
  refine Declaration.filter_eq_singleton_of_once (longhandsOf_once hs width p) ?_ rfl
  rw [longhandsOf, ← List.map_uncurry_zip_eq_zipWith]
  exact List.mem_map_of_mem at_part

/-- Declarations that are neither of the shorthand nor of its longhands do not become
declarations of its longhands. -/
theorem filter_expand_of_outside (top : s.IsTopmost)
    (outside : ∀ d ∈ ds, d.property ∉ s.name :: s.longhands) (hp : p ∈ s.longhands) :
    (expand ds).filter (·.property = p) = [] := by
  rw [expand_eq_flatMap_replacement, List.filter_eq_nil_iff]
  intro e he
  rw [decide_eq_true_eq]
  rintro rfl
  obtain ⟨d, hd, he⟩ := List.mem_flatMap.1 he
  apply outside d hd
  rcases property_of_mem_replacement he with same | ⟨t, named, leaf⟩
  · exact List.mem_cons_of_mem _ (same ▸ hp)
  · obtain ⟨ht, name⟩ := named?_eq_some_iff.1 named
    rw [name, top t ht _ hp leaf]
    exact List.mem_cons_self

/-- Of the longhands of a created shorthand, nothing is left but what it is taken apart to. -/
theorem declares_of_created (hs : s ∈ compactionOrder) (top : s.IsTopmost)
    (created : s.combine? ds = some d) (expanded : s.parts? d.values = some parts) :
    s.Declares (expand (compact ds)) parts d.important := by
  have width := length_of_parts? (mem_registry_of_compactionOrder s hs) expanded
  have own : expand [d] = s.longhandsOf d parts := by
    rw [expand_created hs created, rewrite_of_parts (combine?_eq_some created).1 expanded]
  obtain ⟨before, after, whole, -, outside⟩ := compact_eq_insert hs created
  rw [List.forall_mem_append] at outside
  rw [Declares, List.forall₂_iff_zip]
  refine ⟨width.symm, ?_⟩
  intro p v at_part
  have hp : p ∈ s.longhands := (List.of_mem_zip at_part).1
  rw [whole, expand_append, expand_cons, own, List.filter_append, List.filter_append,
    filter_expand_of_outside top outside.1 hp, filter_expand_of_outside top outside.2 hp,
    filter_longhandsOf hs width at_part, List.append_nil, List.nil_append]

/-! ### Longhands of which some are declared -/

namespace PartlyDeclared

variable (declared : s.PartlyDeclared ds important)

include declared

theorem fires (avoids : AvoidsGlobal (s.held ds)) (accepts : s.kind.Accepts (s.held ds)) :
    s.Fires ds where
  undeclared := declared.undeclared
  once := declared.once
  declared := declared.declared
  valued := declared.valued
  uniform d hd e he hdp hep := (declared.uniform d hd hdp).trans (declared.uniform e he hep).symm
  joins := Or.inr ⟨avoids, accepts⟩

/-- The shorthand is put together where its kind accepts the values, none of them a global
keyword, and then the longhands are as the kind reads what it has written. -/
theorem declares (hs : s ∈ compactionOrder) (top : s.IsTopmost)
    (avoids : AvoidsGlobal (s.held ds)) (accepts : s.kind.Accepts (s.held ds))
    (expanded : s.kind.expand? (s.kind.written (s.held ds)) = some parts) :
    s.Declares (expand (compact ds)) parts important := by
  have fires := declared.fires avoids accepts
  have width : (s.held ds).length = s.kind.width := by
    rw [held, List.length_map, length_longhands s (mem_registry_of_compactionOrder s hs)]
  have present := exists_held declared.once declared.declared declared.valued
  have joined := (Kind.compact?_eq_some_iff width present).2 ⟨accepts, rfl⟩
  have values : (s.created ds).values = s.kind.written (s.held ds) :=
    writtenValues_of_avoidsGlobal avoids
  have flag : (s.created ds).important = important := by
    obtain ⟨e, he, hp⟩ := declared.declared
    rw [created_important fires.uniform he hp, declared.uniform e he hp]
  rw [← flag]
  apply declares_of_created hs top ((combine?_eq_some_iff_fires hs).2 ⟨fires, rfl⟩)
  rw [values, parts?_of_compact? avoids joined, expanded]

end PartlyDeclared

end Stylesheet.Shorthand
