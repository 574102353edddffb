import Stylesheet.Declaration
import Stylesheet.Selector.Basic

/-!
# Blocks

A style block has selectors and declarations. Its weight in the cascade is that of
its selector if it has exactly one; a block with several selectors, or none, weighs
nothing. An at-rule has a name, arguments and declarations, and no selectors.
-/

namespace Stylesheet

/-- Declarations for the elements that some selectors choose. -/
structure Block where
  selectors : List Selector
  declarations : List Declaration

namespace Block

/-- A block for the selectors in a text. -/
def ofSelectorText (text : String) (declarations : List Declaration) : Block :=
  ⟨Selector.listOfText text, declarations⟩

/-- The weight of the block in the cascade. -/
def weight (b : Block) : UInt32 :=
  match b.selectors with
  | [s] => s.weight
  | _ => 0

def text (b : Block) : String :=
  ", ".intercalate (b.selectors.map Selector.text) ++ (if b.selectors.isEmpty then "" else " ") ++
    "\x7b" ++ Declaration.listText b.declarations ++ "\x7d"

/-- Rewrite the declarations of a block. -/
def mapDeclarations (f : List Declaration → List Declaration) (b : Block) : Block :=
  { b with declarations := f b.declarations }

end Block

/-- A rule such as `@font-face` or `@page`. -/
structure AtRule where
  name : String
  arguments : String
  declarations : List Declaration

namespace AtRule

def text (r : AtRule) : String :=
  "@" ++ r.name ++ (if r.arguments = "" then "" else " " ++ r.arguments) ++
    " \x7b" ++ Declaration.listText r.declarations ++ "\x7d"

end AtRule

end Stylesheet
