import Mathlib
import Stylesheet.Proofs.Cascade.Order

/-!
# A merge and its competitors

What a merge yields is told from what competes: the declarations in cascade order, each
with the weight of its block. Which declarations share a block is out of sight, and so is
who has taken their shorthands apart. A block may therefore be divided into two with the
same selectors, and blocks that were expanded before may be merged as they are.
-/

namespace Stylesheet.Cascade

variable {options options' : MergeOptions} {bs cs : List Block}

theorem survivors_congr (same : competitors options bs = competitors options' cs) :
    survivors options bs = survivors options' cs := by
  rw [survivors_eq_foldl, survivors_eq_foldl, same]

theorem winners_eq_map_survivors (options : MergeOptions) (bs : List Block) :
    winners (bs.map (prepare options)) = (survivors options bs).map (·.declaration) := rfl

/-- Where the same candidates compete, and the same is done about shorthands afterwards, the
merged blocks are the same. -/
theorem merge_congr (same : competitors options bs = competitors options' cs)
    (create : options.createShorthands = options'.createShorthands) :
    merge options bs = merge options' cs := by
  simp only [merge, winners_eq_map_survivors, survivors_congr same, create]

/-! ### Divided blocks -/

theorem competitors_append (options : MergeOptions) (bs cs : List Block) :
    competitors options (bs ++ cs) = competitors options bs ++ competitors options cs :=
  List.flatMap_append ..

theorem declarations_prepare_append (options : MergeOptions) (selectors : List Selector)
    (ds es : List Declaration) :
    (prepare options ⟨selectors, ds ++ es⟩).declarations =
      (prepare options ⟨selectors, ds⟩).declarations ++
        (prepare options ⟨selectors, es⟩).declarations := by
  simp only [declarations_prepare]
  split
  · exact Shorthand.expand_append ds es
  · rfl

/-- The weight of a candidate is that of the selectors, whatever else is in the block. -/
theorem candidates_prepare (options : MergeOptions) (selectors : List Selector)
    (ds : List Declaration) :
    candidates (prepare options ⟨selectors, ds⟩) =
      (prepare options ⟨selectors, ds⟩).declarations.map
        fun d => ⟨d, Block.weight ⟨selectors, []⟩⟩ := by
  rw [candidates, weight_prepare]
  rfl

theorem competitors_divided (options : MergeOptions) (selectors : List Selector)
    (ds es : List Declaration) :
    competitors options [⟨selectors, ds ++ es⟩] =
      competitors options [⟨selectors, ds⟩, ⟨selectors, es⟩] := by
  simp only [competitors_eq, List.flatMap_cons, List.flatMap_nil, List.append_nil,
    candidates_prepare, declarations_prepare_append, List.map_append]

/-- The declarations of a block may be divided between two blocks with its selectors, in
front of any blocks and behind any blocks. -/
theorem merge_divided (options : MergeOptions) (before after : List Block)
    (selectors : List Selector) (ds es : List Declaration) :
    merge options (before ++ [⟨selectors, ds ++ es⟩] ++ after) =
      merge options (before ++ [⟨selectors, ds⟩, ⟨selectors, es⟩] ++ after) := by
  refine merge_congr ?_ rfl
  calc competitors options (before ++ [⟨selectors, ds ++ es⟩] ++ after)
      _ = competitors options before ++ competitors options [⟨selectors, ds ++ es⟩] ++
          competitors options after := by rw [competitors_append, competitors_append]
      _ = competitors options before ++
          competitors options [⟨selectors, ds⟩, ⟨selectors, es⟩] ++
          competitors options after := by rw [competitors_divided]
      _ = competitors options (before ++ [⟨selectors, ds⟩, ⟨selectors, es⟩] ++ after) := by
          rw [competitors_append, competitors_append]

/-! ### Blocks that are prepared already -/

theorem prepare_of_unexpanded (create : Bool) (b : Block) : prepare ⟨false, create⟩ b = b := rfl

theorem prepare_prepare (options : MergeOptions) (b : Block) :
    prepare options (prepare options b) = prepare options b := by
  unfold prepare
  split
  · simp only [Block.mapDeclarations, Shorthand.expand_expand]
  · rfl

theorem merge_prepared (options : MergeOptions) (bs : List Block) :
    merge ⟨false, options.createShorthands⟩ (bs.map (prepare options)) = merge options bs := by
  refine merge_congr ?_ rfl
  simp only [competitors_eq, List.flatMap_map, prepare_of_unexpanded]

end Stylesheet.Cascade
