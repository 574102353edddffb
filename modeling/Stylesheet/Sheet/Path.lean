import Stylesheet.Sheet.Basic

/-!
# Places in a style sheet

A path leads from the root of a sheet through media queries to one of its lists of
nodes: each step is the position of a media query in the list reached so far, and
the empty path is the root. A path that steps on anything else leads nowhere.
-/

namespace Stylesheet

/-- Insert members before a position; a position past the end means the end. -/
def insertAt {α : Type} (position : Nat) (new : List α) (xs : List α) : List α :=
  xs.take position ++ new ++ xs.drop position

namespace Sheet

/-- The list of nodes at a path. -/
def listAt? : List Nat → List Node → Option (List Node)
  | [], ns => some ns
  | i :: path, ns => do
    let contents ← (← ns[i]?).children?
    listAt? path contents

/-- Put other nodes at a path; a path that leads nowhere changes nothing. -/
def replaceAt (new : List Node) : List Nat → List Node → List Node
  | [], _ => new
  | i :: path, ns =>
    match ns[i]? with
    | some (.media query contents) => ns.set i (.media query (replaceAt new path contents))
    | _ => ns

/-- Why a path does not lead to a node: it is empty, one of its steps before the
last leads nowhere, or the last one does. -/
inductive PathError where
  | empty
  | noList
  | noNode
deriving DecidableEq, Repr

/-- The node at a path, whose last step is the position in a list. -/
def nodeAt (path : List Nat) (ns : List Node) : Except PathError Node :=
  match path.getLast? with
  | none => .error .empty
  | some position =>
    match listAt? path.dropLast ns with
    | none => .error .noList
    | some siblings =>
      match siblings[position]? with
      | none => .error .noNode
      | some n => .ok n

/-- Put another node at a path; a path that leads nowhere changes nothing. -/
def replaceNodeAt (new : Node) (path : List Nat) (ns : List Node) : List Node :=
  match path.getLast?, listAt? path.dropLast ns with
  | some position, some siblings => replaceAt (siblings.set position new) path.dropLast ns
  | _, _ => ns

end Sheet

end Stylesheet
