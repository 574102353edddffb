import Stylesheet.Cascade.Merge
import Stylesheet.Selector.Filter
import Stylesheet.Sheet.Basic

/-!
# The blocks of a style sheet

The blocks of a sheet are visited in document order, inside media queries too, and
are numbered from zero in that order. Rewriting them by number changes the blocks
and nothing else: the nodes keep their number, their order and their nesting.

Expansion, compaction, merging and the search for selectors all work on these
blocks alone. The declarations of at-rules take part only in `declarationLists`.
-/

namespace Stylesheet

namespace Node

mutual

/-- The blocks of a node in document order. -/
def blocks : Node → List Block
  | .block b => [b]
  | .media _ contents => allBlocks contents
  | _ => []

/-- The blocks of a list of nodes in document order. -/
def allBlocks : List Node → List Block
  | [] => []
  | n :: ns => n.blocks ++ allBlocks ns

end

mutual

/-- Rewrite the blocks of a node, the first of which has the number `start`. -/
def mapBlocksFrom (f : Nat → Block → Block) (start : Nat) : Node → Node
  | .block b => .block (f start b)
  | .media query contents => .media query (mapAllBlocksFrom f start contents)
  | n => n

/-- Rewrite the blocks of a list of nodes, the first of which has the number
`start`. -/
def mapAllBlocksFrom (f : Nat → Block → Block) (start : Nat) : List Node → List Node
  | [] => []
  | n :: ns => n.mapBlocksFrom f start :: mapAllBlocksFrom f (start + n.blocks.length) ns

end

mutual

/-- The declarations of a node in document order, at-rules included. -/
def declarationLists : Node → List (List Declaration)
  | .block b => [b.declarations]
  | .atRule r => [r.declarations]
  | .media _ contents => allDeclarationLists contents
  | _ => []

/-- The declarations of a list of nodes in document order, at-rules included. -/
def allDeclarationLists : List Node → List (List Declaration)
  | [] => []
  | n :: ns => n.declarationLists ++ allDeclarationLists ns

end

end Node

namespace Sheet

/-- The blocks of a sheet. -/
def blocks (ns : List Node) : List Block := Node.allBlocks ns

/-- Rewrite each block of a sheet by its number. -/
def mapBlocks (f : Nat → Block → Block) (ns : List Node) : List Node :=
  Node.mapAllBlocksFrom f 0 ns

/-- Take the shorthands of every block apart. -/
def expand (ns : List Node) : List Node :=
  mapBlocks (fun _ b => b.mapDeclarations Shorthand.expand) ns

/-- Put the shorthands of every block together where possible. -/
def compact (ns : List Node) : List Node :=
  mapBlocks (fun _ b => b.mapDeclarations Shorthand.compact) ns

/-- Merge the blocks of a sheet in document order. The sheet is left with the
blocks as they competed. -/
def merge (options : MergeOptions) (ns : List Node) : Block × List Node :=
  (Cascade.merge options (blocks ns), mapBlocks (fun _ b => Cascade.prepare options b) ns)

/-- The selectors of every block, of those the filter accepts if there is one. -/
def selectors (filter : Option SpecificityFilter) (ns : List Node) : List Selector :=
  ((blocks ns).flatMap (·.selectors)).filter fun s => filter.all (·.accepts s)

/-- The selectors that the filter in a text accepts. -/
def selectorsMatching (text : String) (ns : List Node) : Except Error (List Selector) :=
  (SpecificityFilter.read text).map fun filter => selectors (some filter) ns

end Sheet

end Stylesheet
