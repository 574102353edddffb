import Stylesheet.Block

/-!
# Style sheets

A style sheet is a list of nodes. A node is a style block, an at-rule with
declarations, a media query with nodes of its own, an import, or a statement of the
encoding. Address and encoding are written between quotes exactly as they are.
-/

namespace Stylesheet

/-- A part of a style sheet. -/
inductive Node where
  | block (block : Block)
  | atRule (rule : AtRule)
  | media (query : String) (contents : List Node)
  | importSheet (address : String) (condition : Option String)
  | charset (encoding : String)

namespace Node

mutual

def text : Node → String
  | .block b => b.text
  | .atRule r => r.text
  | .media query contents => "@media " ++ query ++ " \x7b" ++ listText contents ++ "\x7d"
  | .importSheet address condition =>
    "@import url(\"" ++ address ++ "\")" ++ (condition.map (" " ++ ·)).getD "" ++ ";"
  | .charset encoding => "@charset \"" ++ encoding ++ "\";"

/-- Nodes one after the other. -/
def listText : List Node → String
  | [] => ""
  | n :: ns => n.text ++ listText ns

end

/-- The declarations of a block or an at-rule. -/
def declarations? : Node → Option (List Declaration)
  | .block b => some b.declarations
  | .atRule r => some r.declarations
  | _ => none

/-- Rewrite the declarations of a block or an at-rule, and leave any other node. -/
def mapDeclarations (f : List Declaration → List Declaration) : Node → Node
  | .block b => .block (b.mapDeclarations f)
  | .atRule r => .atRule { r with declarations := f r.declarations }
  | n => n

/-- The nodes inside a media query. -/
def children? : Node → Option (List Node)
  | .media _ contents => some contents
  | _ => none

end Node

end Stylesheet
