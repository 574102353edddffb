import Stylesheet.Proofs.Shorthand.Registry
import Stylesheet.Shorthand.Expansion

/-!
# Expansion, one declaration at a time

Every pass of an expansion rewrites each declaration on its own, so the passes
together do too: expansion distributes over joined lists. A shorthand none of whose
longhands is itself a shorthand is rewritten by its own pass and left alone by the
others, and so is a declaration that is no shorthand at all.
-/

namespace Stylesheet.Shorthand

theorem expandOne_append (s : Shorthand) (ds es : List Declaration) :
    s.expandOne (ds ++ es) = s.expandOne ds ++ s.expandOne es :=
  List.flatMap_append ..

theorem foldl_expandOne_append (ss : List Shorthand) (ds es : List Declaration) :
    ss.foldl (fun ds s => s.expandOne ds) (ds ++ es) =
      ss.foldl (fun ds s => s.expandOne ds) ds ++ ss.foldl (fun ds s => s.expandOne ds) es := by
  induction ss generalizing ds es with
  | nil => rfl
  | cons s ss ih => simp only [List.foldl_cons, expandOne_append, ih]

theorem expand_append (ds es : List Declaration) : expand (ds ++ es) = expand ds ++ expand es :=
  foldl_expandOne_append registry ds es

theorem expand_eq_flatMap (ds : List Declaration) : expand ds = ds.flatMap fun d => expand [d] := by
  induction ds with
  | nil => rfl
  | cons d ds ih =>
      rw [List.flatMap_cons, ← ih, ← expand_append, List.singleton_append]

theorem expand_nil : expand [] = [] := by rw [expand_eq_flatMap, List.flatMap_nil]

theorem expand_cons (d : Declaration) (ds : List Declaration) :
    expand (d :: ds) = expand [d] ++ expand ds :=
  expand_append [d] ds

theorem expandOne_of_ne {s : Shorthand} {ds : List Declaration}
    (h : ∀ d ∈ ds, d.property ≠ s.name) : s.expandOne ds = ds := by
  induction ds with
  | nil => rfl
  | cons d ds ih =>
      rw [expandOne, List.flatMap_cons, rewrite, if_neg (h d List.mem_cons_self)]
      exact congrArg (d :: ·) (ih fun e he => h e (List.mem_cons_of_mem _ he))

theorem foldl_expandOne_of_ne {ss : List Shorthand} {ds : List Declaration}
    (h : ∀ s ∈ ss, ∀ d ∈ ds, d.property ≠ s.name) :
    ss.foldl (fun ds s => s.expandOne ds) ds = ds := by
  induction ss with
  | nil => rfl
  | cons s ss ih =>
      rw [List.foldl_cons, expandOne_of_ne (h s List.mem_cons_self)]
      exact ih fun t ht => h t (List.mem_cons_of_mem _ ht)

/-- A declaration of no shorthand is left alone. -/
theorem expand_of_unnamed {d : Declaration} (h : named? d.property = none) : expand [d] = [d] := by
  apply foldl_expandOne_of_ne
  intro s hs e he
  rw [List.mem_singleton.1 he]
  exact named?_eq_none_iff.1 h s hs

theorem property_of_mem_zipWith {ps : List String} {parts : List Value} {important : Bool}
    {e : Declaration}
    (h : e ∈ List.zipWith (fun property v => ⟨property, [v], important⟩) ps parts) :
    e.property ∈ ps := by
  obtain ⟨i, hi⟩ := List.mem_iff_getElem?.1 h
  rw [List.getElem?_zipWith_eq_some] at hi
  obtain ⟨property, v, hp, -, rfl⟩ := hi
  exact List.mem_of_getElem? hp

theorem rewrite_of_parts {s : Shorthand} {d : Declaration} {parts : List Value}
    (named : d.property = s.name) (accepted : s.parts? d.values = some parts) :
    s.rewrite d = s.longhandsOf d parts := by
  rw [rewrite, if_pos named, accepted]

theorem rewrite_of_refused {s : Shorthand} {d : Declaration} (named : d.property = s.name)
    (refused : s.parts? d.values = none) : s.rewrite d = [d] := by
  rw [rewrite, if_pos named, refused]

/-- What a declaration is rewritten to is the declaration itself, or it declares
longhands. -/
theorem property_of_mem_rewrite {s : Shorthand} {d e : Declaration} (h : e ∈ s.rewrite d) :
    e.property = d.property ∨ e.property ∈ s.longhands := by
  unfold rewrite at h
  split at h
  · split at h
    · exact Or.inr (property_of_mem_zipWith h)
    · exact Or.inl (congrArg Declaration.property (List.mem_singleton.1 h))
  · exact Or.inl (congrArg Declaration.property (List.mem_singleton.1 h))

/-- A shorthand whose longhands are no shorthands is rewritten once. -/
theorem expand_of_simple {s : Shorthand} {d : Declaration} (hs : s ∈ registry)
    (simple : ∀ p ∈ s.longhands, named? p = none) (named : d.property = s.name) :
    expand [d] = s.rewrite d := by
  obtain ⟨before, after, split⟩ := List.append_of_mem hs
  have names := registry_names_nodup
  rw [split, List.map_append, List.map_cons, List.nodup_append, List.nodup_cons] at names
  have single : s.expandOne [d] = s.rewrite d := by simp [expandOne]
  rw [expand, split, List.foldl_append, List.foldl_cons]
  have untouched : ∀ t ∈ before, ∀ e ∈ [d], e.property ≠ t.name := by
    intro t ht e he
    rw [List.mem_singleton.1 he, named]
    intro equal
    exact names.2.2 _ (List.mem_map_of_mem ht) _ List.mem_cons_self equal.symm
  have finished : ∀ t ∈ after, ∀ e ∈ s.rewrite d, e.property ≠ t.name := by
    intro t ht e he
    rcases property_of_mem_rewrite he with same | longhand
    · rw [same, named]
      intro equal
      exact names.2.1.1 (equal ▸ List.mem_map_of_mem ht)
    · have registered : t ∈ registry := by simp [split, ht]
      exact named?_eq_none_iff.1 (simple _ longhand) t registered
  rw [foldl_expandOne_of_ne untouched, single, foldl_expandOne_of_ne finished]

end Stylesheet.Shorthand
