import Stylesheet.Declaration
import Stylesheet.Shorthand.Basic

/-!
# Compaction

Compaction puts shorthands together from declarations of their longhands. The
declaration of the shorthand takes the place behind all others, and those of its
longhands disappear.

Some checks are made first: the shorthand must not be declared itself, no longhand
may be declared twice or without a value, at least one must be declared, and those
that are declared must agree in their importance. A global keyword is put together
only when every longhand has it, and other values only when the kind of the shorthand
takes them. Wherever a check fails the declarations stay as they are. That the
shorthand is read back as the values of its longhands is not checked, and some values
are lost in this way.
-/

namespace Stylesheet.Shorthand

/-- The value and the importance of a longhand, if it is declared. More than one
declaration, or one without a value, is refused. -/
def longhand? (ds : List Declaration) (property : String) : Option (Option (Value × Bool)) :=
  match ds.filter (·.property = property) with
  | [] => some none
  | [d] => d.value?.map fun v => some (v, d.important)
  | _ => none

/-- The importance that all have in common, if there is at least one. -/
def commonImportance? : List Bool → Option Bool
  | [] => none
  | first :: others => if others.all (· = first) then some first else none

/-- The values of the shorthand, given those of its longhands. -/
def join? (s : Shorthand) (vs : List (Option Value)) : Option (List Value) :=
  match (vs.filterMap id).filter isGlobal with
  | [] => s.kind.compact? vs
  | first :: others =>
    if others.length + 1 = vs.length && others.all (· == first) then some [first] else none

/-- The declaration that the longhands in `ds` are put together to. -/
def combine? (s : Shorthand) (ds : List Declaration) : Option Declaration := do
  guard (s.isCompactable && ds.all fun d => d.property ≠ s.name)
  let found ← s.longhands.mapM (longhand? ds)
  let important ← commonImportance? (found.filterMap fun entry => entry.map Prod.snd)
  let values ← s.join? (found.map fun entry => entry.map Prod.fst)
  return ⟨s.name, values, important⟩

/-- Put one shorthand together. -/
def compactOne (s : Shorthand) (ds : List Declaration) : List Declaration :=
  match s.combine? ds with
  | some d => ds.filter (fun e => e.property ∉ s.longhands) ++ [d]
  | none => ds

/-- Put every shorthand together where possible. -/
def compact (ds : List Declaration) : List Declaration :=
  compactionOrder.foldl (fun ds s => s.compactOne ds) ds

end Stylesheet.Shorthand
