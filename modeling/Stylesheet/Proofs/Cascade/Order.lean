import Mathlib
import Stylesheet.Proofs.Cascade.Winner
import Stylesheet.Proofs.Shorthand.Compaction
import Stylesheet.Proofs.Shorthand.Replacement

/-!
# Blocks in any order

Where nothing is important the winner of a property is the last of the heaviest of its
declarations. If no two blocks weigh the same, the heaviest come from a single block, so
they are the same ones in the same order whatever the order of the blocks. Then the same
declarations are kept, one for each property, and their order is all that the order of
the blocks decides. What shorthands are created from them does not depend on it either.
-/

namespace Stylesheet.Cascade

variable {options : MergeOptions} {bs cs : List Block} {w : UInt32}

/-! ### Competitors of one weight -/

theorem filter_candidates_weight (b : Block) (w : UInt32) :
    (candidates b).filter (·.weight = w) = if b.weight = w then candidates b else [] := by
  by_cases same : b.weight = w <;> simp [candidates, same]

/-- The competitors of one weight come from the blocks of that weight. -/
theorem filter_competitors_weight (options : MergeOptions) (bs : List Block) (w : UInt32) :
    (competitors options bs).filter (·.weight = w) =
      (bs.filter (·.weight = w)).flatMap fun b => candidates (prepare options b) := by
  induction bs with
  | nil => rfl
  | cons b bs ih =>
      rw [competitors_eq] at ih ⊢
      rw [List.flatMap_cons, List.filter_append, ih, filter_candidates_weight, weight_prepare]
      by_cases same : b.weight = w <;> simp [same]

theorem filter_competitors_congr (perm : bs.Perm cs) (distinct : (bs.map Block.weight).Nodup)
    (w : UInt32) :
    (competitors options bs).filter (·.weight = w) =
      (competitors options cs).filter (·.weight = w) := by
  rw [filter_competitors_weight, filter_competitors_weight,
    filter_key_eq_of_perm perm distinct w]

theorem plain_competitors (plain : ∀ b ∈ bs, ∀ d ∈ b.declarations, d.important = false) :
    ∀ c ∈ competitors options bs, c.declaration.important = false := by
  intro c hc
  obtain ⟨b, hb, hc⟩ := List.mem_flatMap.1 hc
  obtain ⟨d, hd, rfl⟩ := List.mem_map.1 hc
  split at hd
  · rw [Shorthand.expand_eq_flatMap_replacement] at hd
    obtain ⟨e, he, hd⟩ := List.mem_flatMap.1 hd
    exact (Shorthand.important_replacement hd).trans (plain b hb e he)
  · exact plain b hb d hd

/-! ### Winners among the same competitors -/

namespace Wins

variable {c d : Candidate} {rs ts : List Candidate}

theorem mem (h : Wins c rs) : c ∈ rs := by
  cases h with
  | important place => simp [place]
  | heaviest place => simp [place]

/-- The winner is the last one of its weight where nothing is important. -/
theorem getLast?_weight (h : Wins c rs) (plain : ∀ x ∈ rs, x.declaration.important = false) :
    (rs.filter (·.weight = c.weight)).getLast? = some c := by
  cases h with
  | important place flagged =>
      rw [plain c (by simp [place])] at flagged
      cases flagged
  | @heaviest before after place _ _ later =>
      have lighter : after.filter (·.weight = c.weight) = [] := by
        rw [List.filter_eq_nil_iff]
        intro x hx
        simpa using UInt32.ne_of_lt (later x hx)
      simp [place, lighter]

/-- Competitors that are the same weight by weight have the same winner. -/
theorem eq_of_perm (hc : Wins c rs) (hd : Wins d ts)
    (plain : ∀ x ∈ rs, x.declaration.important = false) (perm : rs.Perm ts)
    (same : ∀ w, rs.filter (·.weight = w) = ts.filter (·.weight = w)) : c = d := by
  have plain' : ∀ x ∈ ts, x.declaration.important = false :=
    fun x hx => plain x (perm.mem_iff.2 hx)
  have weights : c.weight = d.weight := by
    apply UInt32.le_antisymm
    · exact hd.weight_le (plain' d hd.mem) (perm.mem_iff.1 hc.mem)
    · exact hc.weight_le (plain c hc.mem) (perm.mem_iff.2 hd.mem)
  have last := hd.getLast?_weight plain'
  rw [← weights, ← same, hc.getLast?_weight plain] at last
  exact Option.some.inj last

end Wins

theorem filter_rivals_congr (perm : bs.Perm cs) (distinct : (bs.map Block.weight).Nodup)
    (property : String) (w : UInt32) :
    (rivals property (competitors options bs)).filter (·.weight = w) =
      (rivals property (competitors options cs)).filter (·.weight = w) := by
  rw [rivals, rivals, List.filter_comm, filter_competitors_congr perm distinct, List.filter_comm]

theorem survivors_subset (perm : bs.Perm cs) (distinct : (bs.map Block.weight).Nodup)
    (plain : ∀ b ∈ bs, ∀ d ∈ b.declarations, d.important = false) :
    survivors options bs ⊆ survivors options cs := by
  intro c hc
  have first := holds_survivors options bs
  have second := holds_survivors options cs
  have all : (competitors options bs).Perm (competitors options cs) := perm.flatMap_right _
  have declared := first.property_mem_iff.1 (List.mem_map_of_mem hc)
  obtain ⟨d, hd, same⟩ := List.mem_map.1
    (second.property_mem_iff.2 ((all.map _).mem_iff.1 declared))
  have wins := second.wins d hd
  rw [same] at wins
  have equal : c = d := by
    apply (first.wins c hc).eq_of_perm wins ?_ (all.filter _) (filter_rivals_congr perm distinct _)
    intro x hx
    exact plain_competitors plain x (List.mem_filter.1 hx).1
  exact equal ▸ hd

theorem nodup_survivors (options : MergeOptions) (bs : List Block) : (survivors options bs).Nodup :=
  (holds_survivors options bs).nodup.of_map

/-- The same candidates are kept whatever the order of the blocks. -/
theorem survivors_perm (perm : bs.Perm cs) (distinct : (bs.map Block.weight).Nodup)
    (plain : ∀ b ∈ bs, ∀ d ∈ b.declarations, d.important = false) :
    (survivors options bs).Perm (survivors options cs) := by
  rw [List.perm_ext_iff_of_nodup (nodup_survivors options bs) (nodup_survivors options cs)]
  have distinct' : (cs.map Block.weight).Nodup := (perm.map _).nodup_iff.1 distinct
  have plain' : ∀ b ∈ cs, ∀ d ∈ b.declarations, d.important = false :=
    fun b hb => plain b (perm.mem_iff.2 hb)
  intro c
  exact ⟨fun h => survivors_subset perm distinct plain h,
    fun h => survivors_subset perm.symm distinct' plain' h⟩

theorem nodup_property_winners (options : MergeOptions) (bs : List Block) :
    ((winners (bs.map (prepare options))).map (·.property)).Nodup := by
  rw [winners, List.map_map]
  exact (holds_survivors options bs).nodup

/-- Blocks that differ in weight and declare nothing important are merged to the same
declarations in any order, those of created shorthands included. -/
theorem merge_perm (options : MergeOptions) (perm : bs.Perm cs)
    (distinct : (bs.map Block.weight).Nodup)
    (plain : ∀ b ∈ bs, ∀ d ∈ b.declarations, d.important = false) :
    (merge options bs).selectors = (merge options cs).selectors ∧
      (merge options bs).declarations.Perm (merge options cs).declarations := by
  have kept : (winners (bs.map (prepare options))).Perm (winners (cs.map (prepare options))) :=
    (survivors_perm perm distinct plain).map _
  refine ⟨rfl, ?_⟩
  simp only [merge]
  split
  · exact Shorthand.compact_perm kept (nodup_property_winners options bs)
  · exact kept

/-- The sides of two blocks are put together in either order of the blocks. -/
theorem merge_swapped :
    let light : Block := ⟨[], [⟨"margin", [.keyword "auto"], false⟩,
      ⟨"color", [.keyword "red"], false⟩, ⟨"color", [.keyword "blue"], false⟩]⟩
    let heavy : Block := ⟨[⟨".x", ⟨0, 1, 0⟩⟩], [⟨"margin-left", [.keyword "inside"], false⟩]⟩
    [light, heavy].Perm [heavy, light] ∧ ([light, heavy].map Block.weight).Nodup ∧
      (∀ b ∈ [light, heavy], ∀ d ∈ b.declarations, d.important = false) ∧
      (merge .standard [light, heavy]).declarations.Perm
        (merge .standard [heavy, light]).declarations := by
  intro light heavy
  have swapped : [light, heavy].Perm [heavy, light] := .swap heavy light []
  have distinct : ([light, heavy].map Block.weight).Nodup := by decide
  have plain : ∀ b ∈ [light, heavy], ∀ d ∈ b.declarations, d.important = false := by
    simp [light, heavy]
  exact ⟨swapped, distinct, plain, (merge_perm .standard swapped distinct plain).2⟩

end Stylesheet.Cascade
