/-!
# Options of a merge

Merging may take shorthands apart before it compares declarations, and may put them
together afterwards. By default it does both; the literal options do neither, so
that every property is merged exactly as it is written.

Options are written as a record with two named flags or as a sequence of the same
two flags in order. A flag that is left out is on. Other names in a record are
passed over, but a named flag that is no truth value, or a third member of a
sequence, is refused.
-/

namespace Stylesheet

/-- What a merge does with shorthands. -/
structure MergeOptions where
  expandShorthands : Bool
  createShorthands : Bool
deriving DecidableEq, Repr

namespace MergeOptions

def standard : MergeOptions := ⟨true, true⟩

def literal : MergeOptions := ⟨false, false⟩

/-- A written form of the options, in which a member is known only as far as it is
a truth value. -/
inductive Form where
  | record (fields : List (String × Option Bool))
  | sequence (flags : List (Option Bool))
  | other
deriving DecidableEq, Repr

def expandName : String := "expand_shorthands"

def createName : String := "create_shorthands"

/-- A flag that may be left out. -/
def flag? (entry : Option (Option Bool)) : Option Bool := entry.getD (some true)

/-- The options that a form denotes. -/
def read? : Form → Option MergeOptions
  | .record fields => do
    return ⟨← flag? (fields.lookup expandName), ← flag? (fields.lookup createName)⟩
  | .sequence flags =>
    if flags.length ≤ 2 then do return ⟨← flag? flags[0]?, ← flag? flags[1]?⟩ else none
  | .other => none

def flagText (name : String) (flag : Bool) : String :=
  "\"" ++ name ++ "\":" ++ (if flag then "true" else "false")

/-- The options written as a record. -/
def text (o : MergeOptions) : String :=
  "\x7b" ++ flagText expandName o.expandShorthands ++ "," ++
    flagText createName o.createShorthands ++ "\x7d"

end MergeOptions

end Stylesheet
