import Stylesheet.Declaration
import Stylesheet.Shorthand.Basic

/-!
# Expansion

Expansion replaces every declaration of a shorthand by declarations of its
longhands, in the same place and with the same importance. A single global keyword
goes to every longhand. A declaration whose values do not fit its shorthand stays as
it is.

The shorthands are taken apart one after the other in the order of the registry,
each in all declarations at once, so what `border` leaves is taken apart in turn.
-/

namespace Stylesheet.Shorthand

/-- The values of the longhands for the values of one declaration. -/
def parts? (s : Shorthand) (vs : List Value) : Option (List Value) :=
  match vs with
  | [v] => if isGlobal v then some (s.longhands.map fun _ => v) else s.kind.expand? vs
  | _ => s.kind.expand? vs

/-- The longhand declarations of one shorthand declaration. -/
def longhandsOf (s : Shorthand) (d : Declaration) (parts : List Value) : List Declaration :=
  List.zipWith (fun property v => ⟨property, [v], d.important⟩) s.longhands parts

/-- Replace a declaration of the shorthand `s`, and leave every other declaration. -/
def rewrite (s : Shorthand) (d : Declaration) : List Declaration :=
  if d.property = s.name then
    match s.parts? d.values with
    | some parts => s.longhandsOf d parts
    | none => [d]
  else [d]

/-- Take one shorthand apart wherever it is declared. -/
def expandOne (s : Shorthand) (ds : List Declaration) : List Declaration := ds.flatMap s.rewrite

/-- Take every shorthand apart. -/
def expand (ds : List Declaration) : List Declaration :=
  registry.foldl (fun ds s => s.expandOne ds) ds

end Stylesheet.Shorthand
