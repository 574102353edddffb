import Stylesheet.Proofs.Value.Equality

/-!
# Taking series apart and joining them

Flattening takes the space-separated series in a list apart, each on its own, and
joining makes one value of the members again. What joining cannot restore is a series
of fewer than two members. A member of a series has fewer nodes than the series, and so
has the joined rest of its members when one is left out: neither is ever equal to it.
-/

namespace Stylesheet.Value

theorem flattenSpaces_append (vs ws : List Value) :
    flattenSpaces (vs ++ ws) = flattenSpaces vs ++ flattenSpaces ws :=
  List.flatMap_append ..

theorem flattenSpaces_cons (v : Value) (vs : List Value) :
    flattenSpaces (v :: vs) = flattenSpaces [v] ++ flattenSpaces vs :=
  flattenSpaces_append [v] vs

@[simp] theorem flattenSpaces_nil : flattenSpaces [] = [] := rfl

@[simp] theorem flattenSpaces_space (items : List Value) :
    flattenSpaces [.series .space items] = items :=
  List.append_nil items

theorem flattenSpaces_singleton {v : Value} (h : ∀ items, v ≠ .series .space items) :
    flattenSpaces [v] = [v] := by
  unfold flattenSpaces
  rw [List.flatMap_cons, List.flatMap_nil, List.append_nil]
  split
  · exact absurd rfl (h _)
  · rfl

theorem flattenSpaces_of_forall {vs : List Value}
    (h : ∀ v ∈ vs, ∀ items, v ≠ .series .space items) : flattenSpaces vs = vs := by
  induction vs with
  | nil => rfl
  | cons v vs ih =>
      rw [flattenSpaces_cons, flattenSpaces_singleton (h v List.mem_cons_self),
        ih fun w hw => h w (List.mem_cons_of_mem _ hw), List.singleton_append]

/-- A value in pieces is still whole, or each piece is smaller than it. -/
theorem flattenSpaces_eq_or_nodes_lt (v : Value) :
    flattenSpaces [v] = [v] ∨ ∀ w ∈ flattenSpaces [v], w.nodes < v.nodes := by
  by_cases space : ∃ items, v = .series .space items
  · obtain ⟨items, rfl⟩ := space
    rw [flattenSpaces_space]
    exact Or.inr fun w hw => nodes_lt_of_mem hw
  · exact Or.inl (flattenSpaces_singleton (not_exists.1 space))

theorem nodes_pos (v : Value) : 0 < v.nodes := by
  cases v with
  | series s items | call n s items => exact Nat.lt_of_lt_of_le Nat.one_pos (Nat.le_add_right 1 _)
  | _ => exact Nat.one_pos

theorem allNodes_append (vs ws : List Value) :
    allNodes (vs ++ ws) = allNodes vs + allNodes ws := by
  induction vs with
  | nil => simp [allNodes]
  | cons v vs ih =>
      rw [List.cons_append, allNodes, allNodes, ih]
      omega

theorem joinSpaces_of_length_ne_one {vs : List Value} (h : vs.length ≠ 1) :
    joinSpaces vs = .series .space vs := by
  unfold joinSpaces
  split
  · exact absurd rfl h
  · rfl

theorem nodes_joinSpaces_le (vs : List Value) : (joinSpaces vs).nodes ≤ 1 + allNodes vs := by
  by_cases single : vs.length = 1
  · obtain ⟨v, rfl⟩ := List.length_eq_one_iff.1 single
    simp only [joinSpaces, allNodes]
    omega
  · exact Nat.le_of_eq (by rw [joinSpaces_of_length_ne_one single, nodes])

/-- Whether a value is no series of spaces, or one of at least two members. -/
def Rejoins (v : Value) : Prop := ∀ items, v = .series .space items → 2 ≤ items.length

/-- Such a value is restored from its pieces. -/
theorem Rejoins.joinSpaces_flattenSpaces {v : Value} (h : v.Rejoins) :
    joinSpaces (flattenSpaces [v]) = v := by
  by_cases space : ∃ items, v = .series .space items
  · obtain ⟨items, rfl⟩ := space
    have several := h items rfl
    rw [flattenSpaces_space, joinSpaces_of_length_ne_one (by omega)]
  · rw [flattenSpaces_singleton (not_exists.1 space), joinSpaces]

theorem Rejoins.flattenSpaces_ne_nil {v : Value} (h : v.Rejoins) : flattenSpaces [v] ≠ [] := by
  intro empty
  have whole := h.joinSpaces_flattenSpaces
  rw [empty] at whole
  exact absurd (h [] whole.symm) (by decide)

theorem Agrees.rejoins {v w : Value} (h : v.Agrees w) (rejoins : w.Rejoins) : v.Rejoins := by
  rintro items rfl
  obtain ⟨others, rfl, members⟩ := h.symm.exists_series
  rw [← members.length_eq]
  exact rejoins others rfl

/-- A value is restored from its pieces, if there are any, only if it is such a value. -/
theorem rejoins_of_agrees {v : Value} (some_left : flattenSpaces [v] ≠ [])
    (h : (joinSpaces (flattenSpaces [v])).Agrees v) : v.Rejoins := by
  rintro items rfl
  rw [flattenSpaces_space] at h some_left
  match items with
  | [] => exact absurd rfl some_left
  | [w] =>
      have same : w.nodes = (series .space [w]).nodes := h.nodes_eq
      have less : w.nodes < (series .space [w]).nodes :=
        nodes_lt_of_mem (List.mem_singleton_self w)
      omega
  | _ :: _ :: _ => simp

theorem Agrees.forall₂_flattenSpaces {v w : Value} (h : v.Agrees w) :
    List.Forall₂ Agrees (flattenSpaces [v]) (flattenSpaces [w]) := by
  by_cases space : ∃ items, w = .series .space items
  · obtain ⟨items, rfl⟩ := space
    obtain ⟨others, rfl, members⟩ := h.exists_series
    rwa [flattenSpaces_space, flattenSpaces_space]
  · have whole : ∀ items, v ≠ .series .space items := by
      rintro items rfl
      obtain ⟨others, rfl, -⟩ := h.symm.exists_series
      exact space ⟨others, rfl⟩
    rw [flattenSpaces_singleton whole, flattenSpaces_singleton (not_exists.1 space)]
    exact .cons h .nil

section Flat

variable {vs : List Value} (flat : ∀ v ∈ vs, ∀ items, v ≠ .series .space items)

include flat

theorem flattenSpaces_joinSpaces : flattenSpaces [joinSpaces vs] = vs := by
  by_cases single : vs.length = 1
  · obtain ⟨v, rfl⟩ := List.length_eq_one_iff.1 single
    exact flattenSpaces_of_forall flat
  · rw [joinSpaces_of_length_ne_one single, flattenSpaces_space]

theorem rejoins_joinSpaces (some_left : vs ≠ []) : (joinSpaces vs).Rejoins := by
  by_cases single : vs.length = 1
  · obtain ⟨v, rfl⟩ := List.length_eq_one_iff.1 single
    intro items equal
    exact absurd equal (flat v (List.mem_singleton_self v) items)
  · rw [joinSpaces_of_length_ne_one single]
    have positive := List.length_pos_iff.2 some_left
    rintro items ⟨⟩
    omega

end Flat

/-- The rest of the pieces of a value, when one of them is missing, does not restore
it. -/
theorem not_agrees_of_proper_suffix {v w : Value} {before rest : List Value}
    (pieces : flattenSpaces [v] = before ++ w :: rest) (some_left : rest ≠ []) :
    ¬ (joinSpaces rest).Agrees v := by
  intro same
  by_cases space : ∃ items, v = .series .space items
  · obtain ⟨items, rfl⟩ := space
    rw [flattenSpaces_space] at pieces
    have size : (joinSpaces rest).nodes = (series .space items).nodes := same.nodes_eq
    have less := nodes_joinSpaces_le rest
    have positive := w.nodes_pos
    rw [nodes, pieces, allNodes_append, allNodes] at size
    omega
  · rw [flattenSpaces_singleton (not_exists.1 space)] at pieces
    have lengths := congrArg List.length pieces
    have left := List.length_pos_iff.2 some_left
    simp only [List.length_cons, List.length_append, List.length_nil] at lengths
    omega

end Stylesheet.Value
