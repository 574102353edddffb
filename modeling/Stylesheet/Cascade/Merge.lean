import Stylesheet.Block
import Stylesheet.Cascade.Options
import Stylesheet.Shorthand.Compaction
import Stylesheet.Shorthand.Expansion

/-!
# Merging blocks

Blocks given in cascade order are merged into one block without selectors. Each
property keeps one declaration. A later declaration takes over from the one that is
kept if it is important, or if the kept one is not important and weighs no more.

The kept declarations stand in the order in which their properties were first
declared, so the state of a merge is one list: what is kept, and in which order,
cannot fall apart.
-/

namespace Stylesheet

/-- A declaration with the weight of the block it comes from. -/
structure Candidate where
  declaration : Declaration
  weight : UInt32

namespace Candidate

/-- Whether a later candidate for the same property takes over. -/
def yieldsTo (kept later : Candidate) : Bool :=
  (kept.weight ≤ later.weight && !kept.declaration.important) || later.declaration.important

end Candidate

namespace Cascade

/-- Let a candidate compete for its property. A property that is not kept yet joins
at the end. -/
def offer (later : Candidate) : List Candidate → List Candidate
  | [] => [later]
  | kept :: others =>
    if kept.declaration.property = later.declaration.property then
      (if kept.yieldsTo later then later else kept) :: others
    else kept :: offer later others

/-- The candidates of a block, in their order. -/
def candidates (b : Block) : List Candidate :=
  b.declarations.map fun d => ⟨d, b.weight⟩

/-- Let the declarations of a block compete. -/
def addBlock (kept : List Candidate) (b : Block) : List Candidate :=
  (candidates b).foldl (fun kept later => offer later kept) kept

/-- The declaration of each property that is kept after all blocks have competed. -/
def winners (bs : List Block) : List Declaration :=
  (bs.foldl addBlock []).map (·.declaration)

/-- A block as it competes under the options. -/
def prepare (options : MergeOptions) (b : Block) : Block :=
  if options.expandShorthands then b.mapDeclarations Shorthand.expand else b

/-- Merge blocks in cascade order. -/
def merge (options : MergeOptions) (bs : List Block) : Block :=
  let kept := winners (bs.map (prepare options))
  ⟨[], if options.createShorthands then Shorthand.compact kept else kept⟩

end Cascade

end Stylesheet
