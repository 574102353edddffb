import Mathlib
import Stylesheet.Proofs.Sheet.Frame
import Stylesheet.Sheet.Path

/-!
# Visiting the blocks of a sheet in place

The places of the blocks are collected once, in document order, and a visitor then goes from
place to place: it sees the block there and puts another one in its stead. What it puts at
one place changes what is found at no other, so the visitor sees the blocks of the sheet as
they were, each of them once, and leaves the sheet with the blocks that it has put back. A
visitor that counts the blocks rewrites them by number.
-/

namespace Stylesheet

namespace Node

mutual

/-- The places of the blocks in a node, seen from that node. -/
@[simp]
def places : Node → List (List Nat)
  | .block _ => [[]]
  | .media _ contents => allPlaces 0 contents
  | _ => []

/-- The places of the blocks in a list of nodes, the first of which is at the position
`start`. -/
@[simp]
def allPlaces (start : Nat) : List Node → List (List Nat)
  | [] => []
  | n :: ns => n.places.map (start :: ·) ++ allPlaces (start + 1) ns

end

end Node

namespace Sheet

/-- The places of the blocks of a sheet. -/
def places (ns : List Node) : List (List Nat) := Node.allPlaces 0 ns

/-- Let a visitor with the state `run.1` see the block at a place, and put there what it
makes of that block. -/
def visitAt {σ : Type} (visitor : σ → Block → σ × Block) (run : σ × List Node)
    (place : List Nat) : σ × List Node :=
  match nodeAt place run.2 with
  | .ok (.block b) =>
    ((visitor run.1 b).1, replaceNodeAt (.block (visitor run.1 b).2) place run.2)
  | _ => run

/-- Let a visitor go through the places of the blocks of a sheet. -/
def visit {σ : Type} (visitor : σ → Block → σ × Block) (s : σ) (ns : List Node) :
    σ × List Node :=
  (places ns).foldl (visitAt visitor) (s, ns)

/-- Let a visitor see the blocks of a list. -/
def visitAll {σ : Type} (visitor : σ → Block → σ × Block) : σ → List Block → σ × List Block
  | s, [] => (s, [])
  | s, b :: bs =>
    ((visitAll visitor (visitor s b).1 bs).1,
      (visitor s b).2 :: (visitAll visitor (visitor s b).1 bs).2)

variable {σ : Type} {visitor : σ → Block → σ × Block} {before ns : List Node} {n m : Node}
  {query : String} {contents : List Node} {place : List Nat}

/-! ### One place -/

theorem nodeAt_singleton (before ns : List Node) (n : Node) :
    nodeAt [before.length] (before ++ n :: ns) = .ok n := by
  simp [nodeAt, listAt?]

theorem replaceNodeAt_singleton (before ns : List Node) (n m : Node) :
    replaceNodeAt m [before.length] (before ++ n :: ns) = before ++ m :: ns := by
  simp [replaceNodeAt, listAt?, replaceAt]

theorem listAt?_media (place : List Nat) (before contents ns : List Node) (query : String) :
    listAt? (before.length :: place) (before ++ .media query contents :: ns) =
      listAt? place contents := by
  simp [listAt?, Node.children?]

theorem replaceAt_media (new : List Node) (place : List Nat) (before contents ns : List Node)
    (query : String) :
    replaceAt new (before.length :: place) (before ++ .media query contents :: ns) =
      before ++ .media query (replaceAt new place contents) :: ns := by
  simp [replaceAt]

theorem nodeAt_media (inside : place ≠ []) :
    nodeAt (before.length :: place) (before ++ .media query contents :: ns) =
      nodeAt place contents := by
  simp only [nodeAt, List.getLast?_cons_of_ne_nil inside, List.dropLast_cons_of_ne_nil inside,
    listAt?_media]

theorem replaceNodeAt_media (new : Node) (inside : place ≠ []) :
    replaceNodeAt new (before.length :: place) (before ++ .media query contents :: ns) =
      before ++ .media query (replaceNodeAt new place contents) :: ns := by
  simp only [replaceNodeAt, List.getLast?_cons_of_ne_nil inside,
    List.dropLast_cons_of_ne_nil inside, listAt?_media]
  split
  · exact replaceAt_media ..
  · rfl

theorem visitAt_block (s : σ) (b : Block) :
    visitAt visitor (s, before ++ .block b :: ns) [before.length] =
      ((visitor s b).1, before ++ .block (visitor s b).2 :: ns) := by
  simp only [visitAt, nodeAt_singleton, replaceNodeAt_singleton]

/-- A visit inside a media query takes place in its contents. -/
theorem visitAt_media (s : σ) (place : List Nat) :
    visitAt visitor (s, before ++ .media query contents :: ns) (before.length :: place) =
      ((visitAt visitor (s, contents) place).1,
        before ++ .media query (visitAt visitor (s, contents) place).2 :: ns) := by
  by_cases inside : place = []
  · subst inside
    simp only [visitAt, nodeAt_singleton]
    rfl
  · simp only [visitAt, nodeAt_media inside, replaceNodeAt_media _ inside]
    split <;> rfl

/-! ### All places -/

/-- The blocks are found at their places, in document order. -/
theorem forall₂_allPlaces (before ns : List Node) :
    List.Forall₂ (fun place b => nodeAt place (before ++ ns) = .ok (.block b))
      (Node.allPlaces before.length ns) (Node.allBlocks ns) := by
  induction ns using Sheet.induction generalizing before with
  | nil => exact .nil
  | block b ns ih =>
      have rest := ih (before ++ [.block b])
      exact .cons (nodeAt_singleton before ns (.block b)) (by simpa using rest)
  | atRule r ns ih =>
      have rest := ih (before ++ [.atRule r])
      simpa using rest
  | media query contents ns inner ih =>
      have rest := ih (before ++ [.media query contents])
      refine List.rel_append ?_ (by simpa using rest)
      rw [List.forall₂_map_left_iff]
      refine (inner []).imp ?_
      intro place b found
      rw [nodeAt_media]
      · exact found
      · rintro rfl
        cases found
  | importSheet address condition ns ih =>
      have rest := ih (before ++ [.importSheet address condition])
      simpa using rest
  | charset encoding ns ih =>
      have rest := ih (before ++ [.charset encoding])
      simpa using rest

example (b c d : Block) :
    places [.block b, .media "print" [.charset "utf-8", .block c], .block d] =
      [[0], [1, 1], [2]] := rfl

theorem foldl_visitAt_media (s : σ) (contents : List Node) (inner : List (List Nat)) :
    (inner.map (before.length :: ·)).foldl (visitAt visitor)
        (s, before ++ .media query contents :: ns) =
      ((inner.foldl (visitAt visitor) (s, contents)).1,
        before ++ .media query (inner.foldl (visitAt visitor) (s, contents)).2 :: ns) := by
  induction inner generalizing s contents with
  | nil => rfl
  | cons place inner ih => simp only [List.map_cons, List.foldl_cons, visitAt_media, ih]

theorem visitAll_append (s : σ) (bs cs : List Block) :
    visitAll visitor s (bs ++ cs) =
      ((visitAll visitor (visitAll visitor s bs).1 cs).1,
        (visitAll visitor s bs).2 ++ (visitAll visitor (visitAll visitor s bs).1 cs).2) := by
  induction bs generalizing s with
  | nil => rfl
  | cons b bs ih => simp only [List.cons_append, visitAll, ih]

/-- The run over the places: in front of `before` all visits are done, behind it none. -/
theorem foldl_visitAt_allPlaces (visitor : σ → Block → σ × Block) (s : σ)
    (before ns : List Node) :
    ∃ ms, (Node.allPlaces before.length ns).foldl (visitAt visitor) (s, before ++ ns) =
        ((visitAll visitor s (blocks ns)).1, before ++ ms) ∧
      blocks ms = (visitAll visitor s (blocks ns)).2 ∧ frame ms = frame ns := by
  induction ns using Sheet.induction generalizing s before with
  | nil => exact ⟨[], rfl, rfl, rfl⟩
  | block b ns ih =>
      obtain ⟨ms, run, same, frames⟩ :=
        ih (visitor s b).1 (before ++ [.block (visitor s b).2])
      refine ⟨.block (visitor s b).2 :: ms, ?_, ?_, ?_⟩
      · simpa [visitAt_block, visitAll] using run
      · simp [visitAll, same]
      · simp [frames]
  | atRule r ns ih =>
      obtain ⟨ms, run, same, frames⟩ := ih s (before ++ [.atRule r])
      exact ⟨.atRule r :: ms, by simpa using run, by simpa using same, by simp [frames]⟩
  | media query contents ns inner ih =>
      -- the visitor comes out of the media query in the state in which it goes on
      obtain ⟨contents', runInside, sameInside, framesInside⟩ := inner s []
      obtain ⟨ms, run, same, frames⟩ :=
        ih (visitAll visitor s (blocks contents)).1 (before ++ [.media query contents'])
      refine ⟨.media query contents' :: ms, ?_, ?_, ?_⟩
      · simp only [List.length_nil, List.nil_append] at runInside
        rw [blocks_media, visitAll_append]
        simpa [foldl_visitAt_media, runInside] using run
      · rw [blocks_media, blocks_media, visitAll_append, sameInside, same]
      · rw [frame_media, frame_media, framesInside, frames]
  | importSheet address condition ns ih =>
      obtain ⟨ms, run, same, frames⟩ := ih s (before ++ [.importSheet address condition])
      exact ⟨.importSheet address condition :: ms, by simpa using run, by simpa using same,
        by simp [frames]⟩
  | charset encoding ns ih =>
      obtain ⟨ms, run, same, frames⟩ := ih s (before ++ [.charset encoding])
      exact ⟨.charset encoding :: ms, by simpa using run, by simpa using same, by simp [frames]⟩

/-- A visitor sees the blocks of the sheet, and leaves what it has put back in the old
frame. -/
theorem visit_spec (visitor : σ → Block → σ × Block) (s : σ) (ns : List Node) :
    (visit visitor s ns).1 = (visitAll visitor s (blocks ns)).1 ∧
      blocks (visit visitor s ns).2 = (visitAll visitor s (blocks ns)).2 ∧
      frame (visit visitor s ns).2 = frame ns := by
  obtain ⟨ms, run, same, frames⟩ := foldl_visitAt_allPlaces visitor s [] ns
  have result : visit visitor s ns = ((visitAll visitor s (blocks ns)).1, ms) := run
  rw [result]
  exact ⟨rfl, same, frames⟩

/-! ### Counting the blocks -/

theorem visitAll_numbered (f : Nat → Block → Block) (start : Nat) (bs : List Block) :
    visitAll (fun i b => (i + 1, f i b)) start bs =
      (start + bs.length, bs.mapIdx fun i => f (start + i)) := by
  induction bs generalizing start with
  | nil => rfl
  | cons b bs ih =>
      simp only [visitAll, ih, List.length_cons, List.mapIdx_cons, Nat.add_zero, Nat.add_assoc,
        Nat.add_comm 1]

/-- Rewriting the blocks by number is a visit that counts them. -/
theorem visit_numbered (f : Nat → Block → Block) (ns : List Node) :
    visit (fun i b => (i + 1, f i b)) 0 ns = ((blocks ns).length, mapBlocks f ns) := by
  obtain ⟨count, same, frames⟩ := visit_spec (fun i b => (i + 1, f i b)) 0 ns
  simp only [visitAll_numbered, Nat.zero_add] at count same
  exact Prod.ext count (eq_mapBlocks_iff.2 ⟨same, frames⟩)

theorem eq_expand_iff {ms : List Node} :
    ms = expand ns ↔ blocks ms = (blocks ns).map (·.mapDeclarations Shorthand.expand) ∧
      frame ms = frame ns :=
  eq_mapBlocks_const_iff

theorem eq_compact_iff {ms : List Node} :
    ms = compact ns ↔ blocks ms = (blocks ns).map (·.mapDeclarations Shorthand.compact) ∧
      frame ms = frame ns :=
  eq_mapBlocks_const_iff

/-- The blocks can be rewritten where they stand. The places are those of the blocks that a
query finds, in the same order. Rewriting the block at each place by its number gives the
one sheet that has the rewritten blocks and whose other nodes are as they were. The lists of
declarations come in the order of all nodes, and without those of the at-rules they are
those of the blocks. Taking shorthands apart and putting them together do that to each
block, and nothing else. -/
theorem blocks_rewritten_in_place (f : Nat → Block → Block) (ns : List Node) :
    List.Forall₂ (fun place b => nodeAt place ns = .ok (.block b)) (places ns) (blocks ns) ∧
      visit (fun i b => (i + 1, f i b)) 0 ns = ((blocks ns).length, mapBlocks f ns) ∧
      (∀ ms, ms = mapBlocks f ns ↔
        blocks ms = (blocks ns).mapIdx f ∧ frame ms = frame ns) ∧
      Node.allDeclarationLists ns = (nodes ns).filterMap Node.declarations? ∧
      ((nodes ns).filter (!·.isAtRule)).filterMap Node.declarations? =
        (blocks ns).map (·.declarations) ∧
      (∀ ms, ms = expand ns ↔
        blocks ms = (blocks ns).map (·.mapDeclarations Shorthand.expand) ∧
          frame ms = frame ns) ∧
      ∀ ms, ms = compact ns ↔
        blocks ms = (blocks ns).map (·.mapDeclarations Shorthand.compact) ∧
          frame ms = frame ns := by
  refine ⟨forall₂_allPlaces [] ns, visit_numbered f ns, ?_, ?_, ?_, ?_, ?_⟩
  · exact fun _ => eq_mapBlocks_iff
  · exact allDeclarationLists_eq_filterMap_nodes ns
  · exact filterMap_declarations?_of_nodes ns
  · exact fun _ => eq_expand_iff
  · exact fun _ => eq_compact_iff

end Sheet

end Stylesheet
