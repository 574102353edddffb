import Mathlib
import Stylesheet.Proofs.Cascade.Winner

/-!
# Precedence of declarations

By precedence an important declaration comes before any other, then the heavier
selector, then the later place. Merging follows this order as long as nothing, or
one declaration only, is important. Among several important ones it takes the last,
whatever the others weigh, so it keeps the greatest declaration exactly when no
important one in front of the last weighs more.
-/

namespace Stylesheet

/-- One candidate comes before another whatever their places: it alone is important,
or both are equally important and it weighs more. -/
def Candidate.Outranks (c d : Candidate) : Prop :=
  (c.declaration.important = true ∧ d.declaration.important = false) ∨
    (c.declaration.important = d.declaration.important ∧ d.weight < c.weight)

namespace Cascade

/-- The greatest of some candidates by precedence. Of two that do not outrank each
other the later one is greater. -/
def Greatest (c : Candidate) (cs : List Candidate) : Prop :=
  ∃ before after, cs = before ++ c :: after ∧
    (∀ x ∈ before, ¬x.Outranks c) ∧ ∀ x ∈ after, c.Outranks x

/-- No important candidate in front of the last important one weighs more. -/
def LastImportantHeaviest (cs : List Candidate) : Prop :=
  ∀ before last after, cs = before ++ last :: after → last.declaration.important = true →
    (∀ x ∈ after, x.declaration.important = false) →
      ∀ x ∈ before, x.declaration.important = true → x.weight ≤ last.weight

variable {c : Candidate} {cs : List Candidate}

/-- An important candidate that is the greatest weighs no less than any other
important one. -/
theorem Greatest.weight_le {x : Candidate} (h : Greatest c cs) (hx : x ∈ cs)
    (flagged : c.declaration.important = true) (important : x.declaration.important = true) :
    x.weight ≤ c.weight := by
  obtain ⟨before, after, rfl, earlier, later⟩ := h
  rw [List.mem_append, List.mem_cons] at hx
  rcases hx with hx | rfl | hx
  · have notOutranked := earlier x hx
    simp only [Candidate.Outranks, flagged, important, Bool.true_eq_false, and_false, true_and,
      false_or, UInt32.not_lt] at notOutranked
    exact notOutranked
  · exact UInt32.le_refl _
  · have outranked := later x hx
    simp only [Candidate.Outranks, flagged, important, Bool.true_eq_false, and_false, true_and,
      false_or] at outranked
    exact UInt32.le_of_lt outranked

theorem getLast?_important {before after : List Candidate} (place : cs = before ++ c :: after)
    (flagged : c.declaration.important = true)
    (last : ∀ x ∈ after, x.declaration.important = false) :
    (cs.filter (·.declaration.important)).getLast? = some c := by
  have nothing : after.filter (·.declaration.important) = [] := by
    rw [List.filter_eq_nil_iff]
    intro x hx
    simp [last x hx]
  simp [place, flagged, nothing]

/-- Nothing stands in the way of precedence where the weights ascend. -/
theorem LastImportantHeaviest.of_ascending (h : cs.Pairwise fun x y => x.weight ≤ y.weight) :
    LastImportantHeaviest cs := by
  rintro before last after rfl - - x hx -
  exact (List.pairwise_append.1 h).2.2 x hx last List.mem_cons_self

/-- The winner of a property is the greatest of its declarations exactly when the last
important one is as heavy as any. -/
theorem Wins.greatest_iff (h : Wins c cs) : Greatest c cs ↔ LastImportantHeaviest cs := by
  constructor
  · intro greatest before last after place flagged rest x hx important
    have hxcs : x ∈ cs := by simp [place, hx]
    have hlast : last ∈ cs := by simp [place]
    cases h with
    | important place' flagged' rest' =>
        have same : some c = some last :=
          (getLast?_important place' flagged' rest').symm.trans
            (getLast?_important place flagged rest)
        rw [← Option.some.inj same]
        exact greatest.weight_le hxcs flagged' important
    | heaviest _ plain =>
        rw [plain last hlast] at flagged
        cases flagged
  · intro condition
    cases h with
    | @important before after place flagged rest =>
        refine ⟨before, after, place, ?_, ?_⟩
        · rintro x hx (⟨-, plain⟩ | ⟨same, heavier⟩)
          · rw [plain] at flagged
            cases flagged
          · exact UInt32.not_lt.2
              (condition before c after place flagged rest x hx (same.trans flagged)) heavier
        · intro x hx
          exact Or.inl ⟨flagged, rest x hx⟩
    | @heaviest before after place plain earlier later =>
        have plainSelf : c.declaration.important = false := plain c (by simp [place])
        refine ⟨before, after, place, ?_, ?_⟩
        · rintro x hx (⟨flagged, -⟩ | ⟨-, heavier⟩)
          · rw [plain x (by simp [place, hx])] at flagged
            cases flagged
          · exact UInt32.not_lt.2 (earlier x hx) heavier
        · intro x hx
          refine Or.inr ⟨?_, later x hx⟩
          rw [plainSelf, plain x (by simp [place, hx])]

/-- What competes in blocks with one selector each are their declarations with the
weights of those selectors. -/
theorem competitors_of_single {options : MergeOptions} {bs : List Block}
    (single : ∀ b ∈ bs, ∃ s, b.selectors = [s]) :
    competitors options bs = bs.flatMap fun b => b.selectors.flatMap fun s =>
      (prepare options b).declarations.map fun d => ⟨d, s.weight⟩ := by
  rw [competitors_eq]
  apply List.flatMap_congr
  intro b hb
  obtain ⟨s, only⟩ := single b hb
  have weight : (prepare options b).weight = s.weight := by
    rw [weight_prepare, Block.weight, only]
  rw [candidates, weight, only, List.flatMap_cons, List.flatMap_nil, List.append_nil]

/-- One candidate is kept for each declared property. -/
theorem exists_survivor {options : MergeOptions} {bs : List Block} {property : String}
    (declared : property ∈ (competitors options bs).map (·.declaration.property)) :
    ∃ c, (∀ d, d ∈ survivors options bs ∧ d.declaration.property = property ↔ d = c) ∧
      Wins c (rivals property (competitors options bs)) := by
  have holds := holds_survivors options bs
  obtain ⟨c, hc, rfl⟩ := List.mem_map.1 (holds.property_mem_iff.2 declared)
  refine ⟨c, ?_, holds.wins c hc⟩
  intro d
  constructor
  · rintro ⟨hd, same⟩
    exact List.inj_on_of_nodup_map holds.nodup hd hc same
  · rintro rfl
    exact ⟨hc, rfl⟩

/-- Among blocks with one selector each, the declaration that is kept for a property
is the greatest by importance, then weight, then place, exactly when no important
declaration in front of the last important one weighs more than it. -/
theorem survivor_greatest_iff (expand : Bool) {bs : List Block}
    (single : ∀ b ∈ bs, ∃ s, b.selectors = [s]) :
    competitors ⟨expand, false⟩ bs = (bs.flatMap fun b => b.selectors.flatMap fun s =>
        (prepare ⟨expand, false⟩ b).declarations.map fun d => ⟨d, s.weight⟩) ∧
      merge ⟨expand, false⟩ bs = ⟨[], (survivors ⟨expand, false⟩ bs).map (·.declaration)⟩ ∧
      ∀ property ∈ (competitors ⟨expand, false⟩ bs).map (·.declaration.property), ∃ c,
        (∀ d, d ∈ survivors ⟨expand, false⟩ bs ∧ d.declaration.property = property ↔ d = c) ∧
          (Greatest c (rivals property (competitors ⟨expand, false⟩ bs)) ↔
            LastImportantHeaviest (rivals property (competitors ⟨expand, false⟩ bs))) := by
  refine ⟨competitors_of_single single, merge_of_literal expand bs, ?_⟩
  intro property declared
  obtain ⟨c, kept, wins⟩ := exists_survivor declared
  exact ⟨c, kept, wins.greatest_iff⟩

/-- Two important declarations in the order of their weights: the one that is kept is
the greatest. -/
theorem survivor_greatest_of_ascending :
    (∀ b ∈ [Block.mk [⟨"p", ⟨0, 0, 1⟩⟩] [⟨"color", [.keyword "red"], true⟩],
        ⟨[⟨".c", ⟨0, 1, 0⟩⟩], [⟨"color", [.keyword "blue"], true⟩]⟩],
      ∃ s, b.selectors = [s]) ∧
    ∃ c ∈ survivors .literal [⟨[⟨"p", ⟨0, 0, 1⟩⟩], [⟨"color", [.keyword "red"], true⟩]⟩,
        ⟨[⟨".c", ⟨0, 1, 0⟩⟩], [⟨"color", [.keyword "blue"], true⟩]⟩],
      Greatest c [⟨⟨"color", [.keyword "red"], true⟩, 1⟩,
        ⟨⟨"color", [.keyword "blue"], true⟩, 10⟩] := by
  have single : ∀ b ∈ [Block.mk [⟨"p", ⟨0, 0, 1⟩⟩] [⟨"color", [.keyword "red"], true⟩],
      ⟨[⟨".c", ⟨0, 1, 0⟩⟩], [⟨"color", [.keyword "blue"], true⟩]⟩],
      ∃ s, b.selectors = [s] := by simp
  obtain ⟨-, -, each⟩ := survivor_greatest_iff false single
  obtain ⟨c, kept, greatest⟩ := each "color" (by decide_cbv)
  refine ⟨single, c, ((kept c).2 rfl).1, greatest.2 (.of_ascending ?_)⟩
  show [_, _].Pairwise _
  simp only [List.pairwise_cons, List.mem_singleton, forall_eq]
  decide_cbv

/-- A lighter important declaration takes over from a heavier one, which is the
greatest by precedence. -/
theorem lighter_important_takes_over :
    (merge .literal [⟨[⟨"#a", ⟨1, 0, 0⟩⟩], [⟨"color", [.keyword "red"], true⟩]⟩,
        ⟨[⟨"p", ⟨0, 0, 1⟩⟩], [⟨"color", [.keyword "blue"], true⟩]⟩]).declarations =
      [⟨"color", [.keyword "blue"], true⟩] ∧
    Greatest ⟨⟨"color", [.keyword "red"], true⟩, 100⟩ (rivals "color" (competitors .literal
      [⟨[⟨"#a", ⟨1, 0, 0⟩⟩], [⟨"color", [.keyword "red"], true⟩]⟩,
        ⟨[⟨"p", ⟨0, 0, 1⟩⟩], [⟨"color", [.keyword "blue"], true⟩]⟩])) := by
  refine ⟨rfl, [], [⟨⟨"color", [.keyword "blue"], true⟩, 1⟩], rfl, by simp, ?_⟩
  intro x hx
  rw [List.mem_singleton.1 hx]
  exact Or.inr ⟨rfl, by decide⟩

end Cascade

end Stylesheet
