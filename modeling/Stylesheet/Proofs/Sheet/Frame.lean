import Mathlib
import Stylesheet.Sheet.Blocks

/-!
# The blocks of a sheet and its frame

The frame of a sheet is all of it but what stands in its blocks: the other nodes, and the
number, the order and the nesting of all nodes. Frame and blocks together make up the sheet.
Rewriting the blocks by number changes the blocks and keeps the frame, and no other sheet
has that frame and those blocks.

The blocks and the lists of declarations are collected by two recursions of their own. Both
pick their parts from one listing of all nodes in document order.
-/

namespace Stylesheet

namespace Node

mutual

/-- A node with its blocks emptied. -/
def emptied : Node → Node
  | .block _ => .block ⟨[], []⟩
  | .media query contents => .media query (allEmptied contents)
  | n => n

/-- A list of nodes with their blocks emptied. -/
def allEmptied : List Node → List Node
  | [] => []
  | n :: ns => n.emptied :: allEmptied ns

end

mutual

/-- A node and the nodes inside it in document order, a media query in front of its
contents. -/
def nodes : Node → List Node
  | .media query contents => .media query contents :: allNodes contents
  | n => [n]

/-- The nodes of a list and the nodes inside them in document order. -/
def allNodes : List Node → List Node
  | [] => []
  | n :: ns => n.nodes ++ allNodes ns

end

def block? : Node → Option Block
  | .block b => some b
  | _ => none

def isAtRule : Node → Bool
  | .atRule _ => true
  | _ => false

attribute [simp] blocks allBlocks mapBlocksFrom mapAllBlocksFrom declarationLists
  allDeclarationLists declarations? emptied allEmptied nodes allNodes block? isAtRule

end Node

namespace Sheet

/-- All of a sheet but what stands in its blocks. -/
def frame (ns : List Node) : List Node := Node.allEmptied ns

/-- Every node of a sheet in document order, those inside media queries included. -/
def nodes (ns : List Node) : List Node := Node.allNodes ns

@[simp] theorem blocks_cons (n : Node) (ns : List Node) :
    blocks (n :: ns) = n.blocks ++ blocks ns := rfl

@[simp] theorem frame_cons (n : Node) (ns : List Node) :
    frame (n :: ns) = n.emptied :: frame ns := rfl

theorem blocks_media (query : String) (contents ns : List Node) :
    blocks (.media query contents :: ns) = blocks contents ++ blocks ns := rfl

theorem frame_media (query : String) (contents ns : List Node) :
    frame (.media query contents :: ns) = .media query (frame contents) :: frame ns := rfl

/-- Induction over a list of nodes and over the lists inside its media queries. -/
@[elab_as_elim]
theorem induction {motive : List Node → Prop} (nil : motive [])
    (block : ∀ b ns, motive ns → motive (.block b :: ns))
    (atRule : ∀ r ns, motive ns → motive (.atRule r :: ns))
    (media : ∀ query contents ns, motive contents → motive ns →
      motive (.media query contents :: ns))
    (importSheet : ∀ address condition ns, motive ns →
      motive (.importSheet address condition :: ns))
    (charset : ∀ encoding ns, motive ns → motive (.charset encoding :: ns)) :
    ∀ ns, motive ns
  | [] => nil
  | .block b :: ns =>
    block b ns (induction nil block atRule media importSheet charset ns)
  | .atRule r :: ns =>
    atRule r ns (induction nil block atRule media importSheet charset ns)
  | .media query contents :: ns =>
    media query contents ns (induction nil block atRule media importSheet charset contents)
      (induction nil block atRule media importSheet charset ns)
  | .importSheet address condition :: ns =>
    importSheet address condition ns (induction nil block atRule media importSheet charset ns)
  | .charset encoding :: ns =>
    charset encoding ns (induction nil block atRule media importSheet charset ns)

variable {ns ms : List Node} {f : Nat → Block → Block}

/-! ### Frame and blocks make up the sheet -/

theorem length_blocks_frame (ns : List Node) : (blocks (frame ns)).length = (blocks ns).length := by
  simp only [blocks, frame]
  induction ns using Sheet.induction with
  | nil => rfl
  | block _ _ ih => simp [ih]
  | atRule _ _ ih => simp [ih]
  | media _ _ _ inner ih => simp [inner, ih]
  | importSheet _ _ _ ih => simp [ih]
  | charset _ _ ih => simp [ih]

theorem exists_of_frame_cons {n : Node} (h : frame (n :: ns) = frame ms) :
    ∃ m rest, ms = m :: rest ∧ n.emptied = m.emptied ∧ frame ns = frame rest := by
  cases ms with
  | nil => cases h
  | cons m rest =>
      obtain ⟨head, tail⟩ := List.cons.inj h
      exact ⟨m, rest, rfl, head, tail⟩

/-- A sheet is known by its frame and its blocks. -/
theorem eq_of_frame_of_blocks (frames : frame ns = frame ms) (same : blocks ns = blocks ms) :
    ns = ms := by
  induction ns using Sheet.induction generalizing ms with
  | nil =>
      cases ms with
      | nil => rfl
      | cons m ms => cases frames
  | block b ns ih =>
      obtain ⟨m, rest, rfl, head, tail⟩ := exists_of_frame_cons frames
      obtain ⟨c, rfl⟩ : ∃ c, m = .block c := by cases m <;> simp_all
      obtain ⟨rfl, others⟩ := List.cons.inj same
      rw [ih tail others]
  | atRule r ns ih =>
      obtain ⟨m, rest, rfl, head, tail⟩ := exists_of_frame_cons frames
      obtain rfl : m = .atRule r := by cases m <;> simp_all
      rw [ih tail same]
  | media query contents ns inner ih =>
      obtain ⟨m, rest, rfl, head, tail⟩ := exists_of_frame_cons frames
      obtain ⟨contents', rfl, within⟩ :
          ∃ contents', m = .media query contents' ∧ frame contents = frame contents' := by
        cases m <;> simp_all [frame]
      -- the frames say how many of the blocks are inside the media query
      have count : (blocks contents).length = (blocks contents').length := by
        rw [← length_blocks_frame, within, length_blocks_frame]
      obtain ⟨front, back⟩ := List.append_inj same count
      rw [inner within front, ih tail back]
  | importSheet address condition ns ih =>
      obtain ⟨m, rest, rfl, head, tail⟩ := exists_of_frame_cons frames
      obtain rfl : m = .importSheet address condition := by cases m <;> simp_all
      rw [ih tail same]
  | charset encoding ns ih =>
      obtain ⟨m, rest, rfl, head, tail⟩ := exists_of_frame_cons frames
      obtain rfl : m = .charset encoding := by cases m <;> simp_all
      rw [ih tail same]

/-! ### Rewriting the blocks -/

theorem allBlocks_mapAllBlocksFrom (f : Nat → Block → Block) (ns : List Node) (start : Nat) :
    Node.allBlocks (Node.mapAllBlocksFrom f start ns) =
      (Node.allBlocks ns).mapIdx fun i => f (start + i) := by
  induction ns using Sheet.induction generalizing start with
  | nil => rfl
  | block b ns ih => simp [ih, List.mapIdx_cons, Nat.add_comm, Nat.add_left_comm]
  | atRule _ _ ih => simp [ih]
  | media _ _ _ inner ih => simp [inner, ih, List.mapIdx_append, Nat.add_comm, Nat.add_left_comm]
  | importSheet _ _ _ ih => simp [ih]
  | charset _ _ ih => simp [ih]

theorem blocks_mapBlocks (f : Nat → Block → Block) (ns : List Node) :
    blocks (mapBlocks f ns) = (blocks ns).mapIdx f := by
  simp only [blocks, mapBlocks, allBlocks_mapAllBlocksFrom, Nat.zero_add]

theorem allEmptied_mapAllBlocksFrom (f : Nat → Block → Block) (ns : List Node) (start : Nat) :
    Node.allEmptied (Node.mapAllBlocksFrom f start ns) = Node.allEmptied ns := by
  induction ns using Sheet.induction generalizing start with
  | nil => rfl
  | block _ _ ih => simp [ih]
  | atRule _ _ ih => simp [ih]
  | media _ _ _ inner ih => simp [inner, ih]
  | importSheet _ _ _ ih => simp [ih]
  | charset _ _ ih => simp [ih]

theorem frame_mapBlocks (f : Nat → Block → Block) (ns : List Node) :
    frame (mapBlocks f ns) = frame ns :=
  allEmptied_mapAllBlocksFrom f ns 0

/-- Rewriting the blocks gives the one sheet that has the rewritten blocks in the old
frame. -/
theorem eq_mapBlocks_iff :
    ms = mapBlocks f ns ↔ blocks ms = (blocks ns).mapIdx f ∧ frame ms = frame ns := by
  constructor
  · rintro rfl
    exact ⟨blocks_mapBlocks f ns, frame_mapBlocks f ns⟩
  · rintro ⟨same, frames⟩
    apply eq_of_frame_of_blocks
    · rw [frames, frame_mapBlocks]
    · rw [same, blocks_mapBlocks]

/-- The same for a rewriting that does not look at the numbers. -/
theorem eq_mapBlocks_const_iff {g : Block → Block} :
    ms = mapBlocks (fun _ => g) ns ↔ blocks ms = (blocks ns).map g ∧ frame ms = frame ns := by
  have unnumbered : (blocks ns).mapIdx (fun _ => g) = (blocks ns).map g :=
    List.ext_getElem (by simp) (by simp)
  rw [eq_mapBlocks_iff, unnumbered]

theorem blocks_mapBlocks_const (g : Block → Block) (ns : List Node) :
    blocks (mapBlocks (fun _ => g) ns) = (blocks ns).map g :=
  (eq_mapBlocks_const_iff.1 rfl).1

/-! ### Nodes in document order -/

theorem blocks_eq_filterMap_nodes (ns : List Node) :
    blocks ns = (nodes ns).filterMap Node.block? := by
  simp only [blocks, nodes]
  induction ns using Sheet.induction with
  | nil => rfl
  | block _ _ ih => simp [ih]
  | atRule _ _ ih => simp [ih, List.filterMap_cons]
  | media _ _ _ inner ih => simp [inner, ih, List.filterMap_cons]
  | importSheet _ _ _ ih => simp [ih, List.filterMap_cons]
  | charset _ _ ih => simp [ih, List.filterMap_cons]

theorem allDeclarationLists_eq_filterMap_nodes (ns : List Node) :
    Node.allDeclarationLists ns = (nodes ns).filterMap Node.declarations? := by
  simp only [nodes]
  induction ns using Sheet.induction with
  | nil => rfl
  | block _ _ ih => simp [ih]
  | atRule _ _ ih => simp [ih]
  | media _ _ _ inner ih => simp [inner, ih, List.filterMap_cons]
  | importSheet _ _ _ ih => simp [ih, List.filterMap_cons]
  | charset _ _ ih => simp [ih, List.filterMap_cons]

/-- Without the at-rules, the nodes with declarations are the blocks. -/
theorem filterMap_declarations?_of_nodes (ns : List Node) :
    ((nodes ns).filter (!·.isAtRule)).filterMap Node.declarations? =
      (blocks ns).map (·.declarations) := by
  rw [blocks_eq_filterMap_nodes, List.map_filterMap, List.filterMap_filter]
  apply List.filterMap_congr
  intro n _
  cases n <;> simp

end Sheet

end Stylesheet
