import Stylesheet.Cascade.Merge

/-!
# Who wins a property

Merging is one fold over the declarations of all blocks, each with the weight of its
block. After any number of them the kept candidates stand in the order in which
their properties were first declared, and each of them is the winner among the
declarations of its property so far: the last important one, and without an
important one the last of the heaviest.

`Holds` states this for a part of the fold. `Holds.offer` is its step, and
`holds_survivors` its run over whole blocks.
-/

namespace Stylesheet.Cascade

/-- Everything that is declared, in cascade order and with the weight of its block. The
declarations are expanded if the options ask for that. -/
def competitors (options : MergeOptions) (bs : List Block) : List Candidate :=
  bs.flatMap fun b =>
    (if options.expandShorthands then Shorthand.expand b.declarations else b.declarations).map
      fun d => ⟨d, b.weight⟩

/-- The candidates that declare one property, in their order. -/
def rivals (property : String) (cs : List Candidate) : List Candidate :=
  cs.filter (·.declaration.property = property)

/-- The candidates that are kept after all blocks have competed. -/
def survivors (options : MergeOptions) (bs : List Block) : List Candidate :=
  (bs.map (prepare options)).foldl addBlock []

/-- The winner of one property among everything declared for it, told by its place:
it is the last important declaration, or nothing is important and it is the last of
those that weigh most. -/
inductive Wins (c : Candidate) (cs : List Candidate) : Prop where
  | important {before after : List Candidate} (place : cs = before ++ c :: after)
      (flagged : c.declaration.important = true)
      (last : ∀ x ∈ after, x.declaration.important = false)
  | heaviest {before after : List Candidate} (place : cs = before ++ c :: after)
      (plain : ∀ x ∈ cs, x.declaration.important = false)
      (earlier : ∀ x ∈ before, x.weight ≤ c.weight)
      (later : ∀ x ∈ after, x.weight < c.weight)

namespace Wins

theorem alone (c : Candidate) : Wins c [c] := by
  cases flag : c.declaration.important with
  | true => exact .important (show [c] = [] ++ c :: [] from rfl) flag (by simp)
  | false =>
      exact .heaviest (show [c] = [] ++ c :: [] from rfl) (by simp [flag]) (by simp) (by simp)

/-- A winner stays the winner against a later candidate to which it does not yield. -/
theorem append_of_not_yieldsTo {kept later : Candidate} {cs : List Candidate}
    (h : Wins kept cs) (stays : kept.yieldsTo later = false) : Wins kept (cs ++ [later]) := by
  simp only [Candidate.yieldsTo, Bool.or_eq_false_iff, Bool.and_eq_false_iff,
    Bool.not_eq_false', decide_eq_false_iff_not, UInt32.not_le] at stays
  obtain ⟨weaker, plainLater⟩ := stays
  cases h with
  | @important before after place flagged last =>
      have place' : cs ++ [later] = before ++ kept :: (after ++ [later]) := by simp [place]
      refine .important place' flagged ?_
      rw [List.forall_mem_append, List.forall_mem_singleton]
      exact ⟨last, plainLater⟩
  | @heaviest before after place plain earlier later' =>
      have lighter : later.weight < kept.weight := by
        rcases weaker with lighter | flagged
        · exact lighter
        · rw [plain kept (by simp [place])] at flagged
          cases flagged
      have place' : cs ++ [later] = before ++ kept :: (after ++ [later]) := by simp [place]
      refine .heaviest place' ?_ earlier ?_
      · rw [List.forall_mem_append, List.forall_mem_singleton]
        exact ⟨plain, plainLater⟩
      · rw [List.forall_mem_append, List.forall_mem_singleton]
        exact ⟨later', lighter⟩

/-- No rival weighs more than a winner that is not important. -/
theorem weight_le {c x : Candidate} {cs : List Candidate} (h : Wins c cs)
    (plain : c.declaration.important = false) (hx : x ∈ cs) : x.weight ≤ c.weight := by
  cases h with
  | important _ flagged => simp [plain] at flagged
  | heaviest place _ earlier later =>
      rw [place, List.mem_append, List.mem_cons] at hx
      rcases hx with hx | rfl | hx
      · exact earlier x hx
      · exact UInt32.le_refl _
      · exact UInt32.le_of_lt (later x hx)

/-- Nothing is important where a declaration wins that is not. -/
theorem plain_of_plain {c x : Candidate} {cs : List Candidate} (h : Wins c cs)
    (plain : c.declaration.important = false) (hx : x ∈ cs) :
    x.declaration.important = false := by
  cases h with
  | important _ flagged => simp [plain] at flagged
  | heaviest _ others => exact others x hx

/-- A candidate to which the winner yields is the winner from then on. -/
theorem append_of_yieldsTo {kept later : Candidate} {cs : List Candidate}
    (h : Wins kept cs) (yields : kept.yieldsTo later = true) : Wins later (cs ++ [later]) := by
  cases flag : later.declaration.important with
  | true => exact .important (show cs ++ [later] = cs ++ later :: [] from rfl) flag (by simp)
  | false =>
      simp only [Candidate.yieldsTo, flag, Bool.or_false, Bool.and_eq_true, decide_eq_true_eq,
        Bool.not_eq_true'] at yields
      obtain ⟨heavier, plain⟩ := yields
      refine .heaviest (show cs ++ [later] = cs ++ later :: [] from rfl) ?_ ?_ (by simp)
      · rw [List.forall_mem_append, List.forall_mem_singleton]
        exact ⟨fun x hx => h.plain_of_plain plain hx, flag⟩
      · intro x hx
        exact UInt32.le_trans (h.weight_le plain hx) heavier

end Wins

/-- What the kept candidates are after `cs` has competed. -/
structure Holds (kept cs : List Candidate) : Prop where
  /-- The properties stand in the order of their first declarations. -/
  order : kept.map (·.declaration.property) = (cs.map (·.declaration.property)).eraseDups
  /-- Every kept candidate is the winner of its property. -/
  wins : ∀ c ∈ kept, Wins c (rivals c.declaration.property cs)

theorem nodup_eraseDups {α : Type} [DecidableEq α] (xs : List α) : xs.eraseDups.Nodup := by
  match xs with
  | [] => simp
  | x :: xs =>
      rw [List.eraseDups_cons, List.nodup_cons]
      refine ⟨by simp [List.mem_eraseDups], ?_⟩
      exact nodup_eraseDups (xs.filter fun y => !y == x)
termination_by xs.length
decreasing_by
  have := List.length_filter_le (fun y => !y == x) xs
  simp only [List.length_cons]
  omega

theorem eraseDups_concat {α : Type} [DecidableEq α] (xs : List α) (x : α) :
    (xs ++ [x]).eraseDups = if x ∈ xs then xs.eraseDups else xs.eraseDups ++ [x] := by
  by_cases seen : x ∈ xs
  · simp [List.eraseDups_append, List.removeAll, seen]
  · simp [List.eraseDups_append, List.removeAll, List.eraseDups_cons, seen]

/-- A candidate for a property that is not kept yet joins at the end. -/
theorem offer_of_not_mem {later : Candidate} {kept : List Candidate}
    (fresh : later.declaration.property ∉ kept.map (·.declaration.property)) :
    offer later kept = kept ++ [later] := by
  induction kept with
  | nil => rfl
  | cons k others ih =>
      simp only [List.map_cons, List.mem_cons, not_or] at fresh
      rw [offer, if_neg (Ne.symm fresh.1), ih fresh.2, List.cons_append]

/-- A candidate for a kept property competes with the first one that is kept for it,
and leaves all others. -/
theorem offer_of_eq {later k : Candidate} {before after : List Candidate}
    (same : k.declaration.property = later.declaration.property)
    (first : later.declaration.property ∉ before.map (·.declaration.property)) :
    offer later (before ++ k :: after) =
      before ++ (if k.yieldsTo later then later else k) :: after := by
  induction before with
  | nil => rw [List.nil_append, offer, if_pos same, List.nil_append]
  | cons b before ih =>
      simp only [List.map_cons, List.mem_cons, not_or] at first
      rw [List.cons_append, offer, if_neg (Ne.symm first.1), ih first.2, List.cons_append]

theorem rivals_concat_self (c : Candidate) (cs : List Candidate) :
    rivals c.declaration.property (cs ++ [c]) = rivals c.declaration.property cs ++ [c] := by
  simp [rivals]

theorem rivals_concat_of_ne {c : Candidate} {property : String} (cs : List Candidate)
    (other : c.declaration.property ≠ property) :
    rivals property (cs ++ [c]) = rivals property cs := by
  simp [rivals, other]

theorem rivals_eq_nil_iff {property : String} {cs : List Candidate} :
    rivals property cs = [] ↔ property ∉ cs.map (·.declaration.property) := by
  simp [rivals, List.filter_eq_nil_iff]

namespace Holds

variable {kept cs : List Candidate}

theorem nil : Holds [] [] := ⟨rfl, by simp⟩

theorem nodup (h : Holds kept cs) : (kept.map (·.declaration.property)).Nodup := by
  rw [h.order]
  exact nodup_eraseDups _

theorem property_mem_iff (h : Holds kept cs) {property : String} :
    property ∈ kept.map (·.declaration.property) ↔
      property ∈ cs.map (·.declaration.property) := by
  rw [h.order, List.mem_eraseDups]

/-- One more candidate for a property that nothing has declared. -/
theorem offer_fresh (h : Holds kept cs) {later : Candidate}
    (fresh : later.declaration.property ∉ cs.map (·.declaration.property)) :
    Holds (offer later kept) (cs ++ [later]) := by
  have unkept : later.declaration.property ∉ kept.map (·.declaration.property) :=
    fun seen => fresh (h.property_mem_iff.1 seen)
  rw [offer_of_not_mem unkept]
  constructor
  · simp only [List.map_append, List.map_cons, List.map_nil]
    rw [eraseDups_concat, if_neg fresh, h.order]
  · intro c hc
    rcases List.mem_append.1 hc with hc | hc
    · have other : later.declaration.property ≠ c.declaration.property := by
        intro same
        exact unkept (same ▸ List.mem_map_of_mem hc)
      rw [rivals_concat_of_ne cs other]
      exact h.wins c hc
    · obtain rfl := List.mem_singleton.1 hc
      rw [rivals_concat_self, rivals_eq_nil_iff.2 fresh]
      exact Wins.alone c

/-- One more candidate for a property that has been declared. -/
theorem offer_seen (h : Holds kept cs) {later : Candidate}
    (seen : later.declaration.property ∈ cs.map (·.declaration.property)) :
    Holds (offer later kept) (cs ++ [later]) := by
  obtain ⟨k, hk, same⟩ := List.mem_map.1 (h.property_mem_iff.2 seen)
  obtain ⟨before, after, rfl⟩ := List.append_of_mem hk
  have nodup := h.nodup
  simp only [List.map_append, List.map_cons, List.nodup_append, List.nodup_cons, List.mem_cons]
    at nodup
  obtain ⟨-, ⟨notAfter, -⟩, apart⟩ := nodup
  have notBefore : later.declaration.property ∉ before.map (·.declaration.property) :=
    fun seenBefore => apart _ seenBefore _ (Or.inl rfl) same.symm
  rw [offer_of_eq same notBefore]
  have kind : (if k.yieldsTo later then later else k).declaration.property =
      k.declaration.property := by
    split
    · exact same.symm
    · rfl
  constructor
  · have order := h.order
    simp only [List.map_append, List.map_cons, List.map_nil, kind] at order ⊢
    rw [eraseDups_concat, if_pos seen, order]
  · intro c hc
    rcases List.mem_append.1 hc with hc | hc
    · have other : later.declaration.property ≠ c.declaration.property := by
        intro equal
        exact notBefore (equal ▸ List.mem_map_of_mem hc)
      rw [rivals_concat_of_ne cs other]
      exact h.wins c (List.mem_append_left _ hc)
    · rcases List.mem_cons.1 hc with rfl | hc
      · rw [kind, same, rivals_concat_self]
        have winner := h.wins k hk
        rw [same] at winner
        cases yields : k.yieldsTo later with
        | true => simpa [yields] using winner.append_of_yieldsTo yields
        | false => simpa [yields] using winner.append_of_not_yieldsTo yields
      · have other : later.declaration.property ≠ c.declaration.property := by
          intro equal
          exact notAfter (same ▸ equal ▸ List.mem_map_of_mem hc)
        rw [rivals_concat_of_ne cs other]
        exact h.wins c (List.mem_append_right _ (List.mem_cons_of_mem _ hc))

/-- The step of the fold: one more candidate competes. -/
theorem offer (h : Holds kept cs) (later : Candidate) :
    Holds (Cascade.offer later kept) (cs ++ [later]) := by
  by_cases seen : later.declaration.property ∈ cs.map (·.declaration.property)
  · exact h.offer_seen seen
  · exact h.offer_fresh seen

/-- The run of the fold: any number of candidates compete. -/
theorem foldl (h : Holds kept cs) (ds : List Candidate) :
    Holds (ds.foldl (fun kept later => Cascade.offer later kept) kept) (cs ++ ds) := by
  induction ds generalizing kept cs with
  | nil => simpa using h
  | cons d ds ih => simpa using ih (h.offer d)

end Holds

theorem weight_prepare (options : MergeOptions) (b : Block) :
    (prepare options b).weight = b.weight := by
  unfold prepare
  split
  · simp only [Block.weight, Block.mapDeclarations]
  · rfl

theorem declarations_prepare (options : MergeOptions) (b : Block) :
    (prepare options b).declarations =
      if options.expandShorthands then Shorthand.expand b.declarations else b.declarations := by
  cases flag : options.expandShorthands <;> simp [prepare, flag, Block.mapDeclarations]

/-- What competes is what the merge takes from the blocks, one after the other. -/
theorem competitors_eq (options : MergeOptions) (bs : List Block) :
    competitors options bs = bs.flatMap fun b => candidates (prepare options b) := by
  simp only [competitors, candidates, weight_prepare, declarations_prepare]

theorem survivors_eq_foldl (options : MergeOptions) (bs : List Block) :
    survivors options bs =
      (competitors options bs).foldl (fun kept later => offer later kept) [] := by
  rw [competitors_eq, List.foldl_flatMap, survivors, List.foldl_map]
  rfl

theorem holds_survivors (options : MergeOptions) (bs : List Block) :
    Holds (survivors options bs) (competitors options bs) := by
  rw [survivors_eq_foldl]
  exact Holds.nil.foldl (competitors options bs)

theorem merge_of_literal (expand : Bool) (bs : List Block) :
    merge ⟨expand, false⟩ bs = ⟨[], (survivors ⟨expand, false⟩ bs).map (·.declaration)⟩ := rfl

/-- Merging without putting shorthands together yields a block without selectors. It
has one declaration for each property that a block declares, in the order of the first
declarations, and that declaration is the winner of its property. The blocks that
compete are left with their selectors, and with their declarations expanded if the
options ask for that. -/
theorem merge_keeps_winners (expand : Bool) (bs : List Block) :
    (merge ⟨expand, false⟩ bs).selectors = [] ∧
      (merge ⟨expand, false⟩ bs).declarations.map (·.property) =
        ((competitors ⟨expand, false⟩ bs).map (·.declaration.property)).eraseDups ∧
      (∀ d ∈ (merge ⟨expand, false⟩ bs).declarations, ∃ c, c.declaration = d ∧
        Wins c (rivals d.property (competitors ⟨expand, false⟩ bs))) ∧
      bs.map (prepare ⟨expand, false⟩) = bs.map fun b =>
        ⟨b.selectors, if expand then Shorthand.expand b.declarations else b.declarations⟩ := by
  have holds := holds_survivors ⟨expand, false⟩ bs
  rw [merge_of_literal]
  refine ⟨rfl, ?_, ?_, ?_⟩
  · rw [List.map_map]
    exact holds.order
  · intro d hd
    obtain ⟨c, hc, rfl⟩ := List.mem_map.1 hd
    exact ⟨c, rfl, holds.wins c hc⟩
  · cases expand <;> rfl

end Stylesheet.Cascade
