import Stylesheet.Sheet.Basic

/-!
# Searching a style sheet for values

A search yields the sizes, keywords and quoted texts below a starting point, in
document order. Series are always searched; the arguments of calls and the channels
of colors only on request, and otherwise the call or the color is skipped whole.

A property filter chooses among declarations where several of them are listed. A
search that starts from one declaration, or from one value, has made its choice
already, and the filter says nothing there.
-/

namespace Stylesheet

namespace Value

mutual

/-- The sizes, keywords and quoted texts in a value. -/
def leaves (inside : Bool) : Value → List Value
  | .size s => [.size s]
  | .keyword w => [.keyword w]
  | .quoted t => [.quoted t]
  | .series _ items => allLeaves inside items
  | .call _ _ arguments => if inside then allLeaves inside arguments else []
  | .color c => if inside then c.components.map .size else []

/-- The sizes, keywords and quoted texts in a list of values. -/
def allLeaves (inside : Bool) : List Value → List Value
  | [] => []
  | v :: vs => v.leaves inside ++ allLeaves inside vs

end

end Value

namespace Declaration

/-- The leaves of one declaration, which no filter concerns. -/
def leaves (inside : Bool) (d : Declaration) : List Value := Value.allLeaves inside d.values

/-- The leaves of the declarations that the filter admits. -/
def listLeaves (filter : Option String) (inside : Bool) (ds : List Declaration) : List Value :=
  (ds.filter fun d => filter.all d.matchesFilter).flatMap (leaves inside)

end Declaration

namespace Node

mutual

/-- The leaves of a node. -/
def leaves (filter : Option String) (inside : Bool) : Node → List Value
  | .block b => Declaration.listLeaves filter inside b.declarations
  | .atRule r => Declaration.listLeaves filter inside r.declarations
  | .media _ contents => allLeaves filter inside contents
  | _ => []

/-- The leaves of a list of nodes. -/
def allLeaves (filter : Option String) (inside : Bool) : List Node → List Value
  | [] => []
  | n :: ns => n.leaves filter inside ++ allLeaves filter inside ns

end

end Node

/-- Where a search starts. -/
inductive SearchRoot where
  | nodes (nodes : List Node)
  | node (node : Node)
  | declarations (declarations : List Declaration)
  | declaration (declaration : Declaration)
  | value (value : Value)

/-- The values that a search finds. -/
def SearchRoot.leaves (filter : Option String) (inside : Bool) : SearchRoot → List Value
  | .nodes ns => Node.allLeaves filter inside ns
  | .node n => n.leaves filter inside
  | .declarations ds => Declaration.listLeaves filter inside ds
  | .declaration d => d.leaves inside
  | .value v => v.leaves inside

/-- Search a sheet, from the whole of it unless another starting point is given. -/
def Sheet.values (root : Option SearchRoot) (filter : Option String) (inside : Bool)
    (ns : List Node) : List Value :=
  (root.getD (.nodes ns)).leaves filter inside

end Stylesheet
