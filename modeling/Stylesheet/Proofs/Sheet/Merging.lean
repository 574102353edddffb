import Mathlib
import Stylesheet.Proofs.Cascade.Competitors
import Stylesheet.Proofs.Sheet.Places

/-!
# Merging a sheet

A merge goes through the blocks of a sheet where they stand. It takes the shorthands of each
block apart if the options say so, leaves the block so and lets its declarations compete.
What it leaves of the sheet is therefore the expanded sheet, and all that it needs to know
is in there: blocks that are expanded already merge to the same block without another
expansion, and a second merge finds nothing left to take apart.
-/

namespace Stylesheet.Sheet

variable {options : MergeOptions} {ns : List Node}

/-- What a merge does at one block: prepare it, leave it prepared and let it compete. -/
def compete (options : MergeOptions) (kept : List Candidate) (b : Block) :
    List Candidate × Block :=
  (Cascade.addBlock kept (Cascade.prepare options b), Cascade.prepare options b)

theorem visitAll_compete (options : MergeOptions) (kept : List Candidate) (bs : List Block) :
    visitAll (compete options) kept bs =
      ((bs.map (Cascade.prepare options)).foldl Cascade.addBlock kept,
        bs.map (Cascade.prepare options)) := by
  induction bs generalizing kept with
  | nil => rfl
  | cons b bs ih => simp only [visitAll, compete, ih, List.map_cons, List.foldl_cons]

theorem visit_compete (options : MergeOptions) (ns : List Node) :
    visit (compete options) [] ns =
      (Cascade.survivors options (blocks ns), (merge options ns).2) := by
  obtain ⟨kept, same, frames⟩ := visit_spec (compete options) [] ns
  rw [visitAll_compete] at kept same
  exact Prod.ext kept (eq_mapBlocks_const_iff.2 ⟨same, frames⟩)

/-! ### What is left of the sheet -/

theorem mapBlocks_id (ns : List Node) : mapBlocks (fun _ b => b) ns = ns :=
  (eq_mapBlocks_const_iff.2 ⟨(List.map_id' _).symm, rfl⟩).symm

theorem merge_leaves_expanded (options : MergeOptions) (ns : List Node) :
    (merge options ns).2 = if options.expandShorthands then expand ns else ns := by
  cases h : options.expandShorthands with
  | true => simp only [merge, expand, Cascade.prepare, h, if_true]
  | false => simp [merge, Cascade.prepare, h, mapBlocks_id]

theorem blocks_merge (options : MergeOptions) (ns : List Node) :
    blocks (merge options ns).2 = (blocks ns).map (Cascade.prepare options) :=
  blocks_mapBlocks_const (Cascade.prepare options) ns

theorem frame_merge (options : MergeOptions) (ns : List Node) :
    frame (merge options ns).2 = frame ns :=
  frame_mapBlocks _ ns

theorem merge_eq_merge_prepared (options : MergeOptions) (ns : List Node) :
    (merge options ns).1 =
      Cascade.merge ⟨false, options.createShorthands⟩ (blocks (merge options ns).2) := by
  rw [blocks_merge, Cascade.merge_prepared]
  rfl

/-! ### The second merge -/

theorem map_prepare_prepare (options : MergeOptions) (bs : List Block) :
    (bs.map (Cascade.prepare options)).map (Cascade.prepare options) =
      bs.map (Cascade.prepare options) := by
  simp only [List.map_map, Function.comp_def, Cascade.prepare_prepare]

theorem merge_again (options : MergeOptions) (ns : List Node) :
    merge options (merge options ns).2 = merge options ns := by
  have unchanged : (merge options (merge options ns).2).2 = (merge options ns).2 := by
    apply eq_of_frame_of_blocks
    · exact frame_merge options _
    · rw [blocks_merge, blocks_merge, map_prepare_prepare]
  refine Prod.ext ?_ unchanged
  rw [merge_eq_merge_prepared, unchanged, ← merge_eq_merge_prepared]

/-- Merging the blocks of a sheet where they stand leaves the sheet as it is but for the
expansion that the options ask for. The merged block is that of the sheet that is left,
without another expansion, and merging once more gives the same block and leaves the same
sheet. -/
theorem merge_expands_in_place (options : MergeOptions) (ns : List Node) :
    visit (compete options) [] ns =
        (Cascade.survivors options (blocks ns), (merge options ns).2) ∧
      (merge options ns).2 = (if options.expandShorthands then expand ns else ns) ∧
      (merge options ns).1 =
        Cascade.merge ⟨false, options.createShorthands⟩ (blocks (merge options ns).2) ∧
      merge options (merge options ns).2 = merge options ns :=
  ⟨visit_compete options ns, merge_leaves_expanded options ns,
    merge_eq_merge_prepared options ns, merge_again options ns⟩

end Stylesheet.Sheet
