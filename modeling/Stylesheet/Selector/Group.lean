/-!
# Groups and quotes in a selector

A group runs from a bracket to the bracket that closes it. Inside quotes nothing
counts but the quote that closes them. A group counts only its own kind of
bracket, while a list of selectors is cut at the commas that stand outside every
parenthesis and square bracket.
-/

namespace Stylesheet.Selector

/-- The quote that is open after a character, given the one open before it. -/
def nextQuote (quote : Option Char) (c : Char) : Option Char :=
  match quote with
  | some q => if c = q then none else some q
  | none => if c = '"' || c = '\'' then some c else none

/-- The body of a group and what follows its closing bracket, given the text after
the opening bracket. The depth counts the brackets open inside the group. -/
def closeGroup? (opening closing : Char) :
    Nat → Option Char → List Char → Option (List Char × List Char)
  | _, _, [] => none
  | depth, quote, c :: cs =>
    if quote.isNone && c = closing && depth = 0 then some ([], cs)
    else
      let depth :=
        if quote.isSome then depth
        else if c = opening then depth + 1
        else if c = closing then depth - 1
        else depth
      (closeGroup? opening closing depth (nextQuote quote c) cs).map
        fun (body, rest) => (c :: body, rest)

/-- What follows a group, nothing when it never closes. -/
def afterGroup (opening closing : Char) (cs : List Char) : List Char :=
  ((closeGroup? opening closing 0 none cs).map Prod.snd).getD []

/-- The argument in parentheses, given the text after the opening one. An argument
that never closes ends before the last character of the text. -/
def argument (cs : List Char) : List Char :=
  ((closeGroup? '(' ')' 0 none cs).map Prod.fst).getD cs.dropLast

/-- Cut a list of selectors at its top-level commas. A closing bracket that opens
nowhere is passed over. -/
def cutTopLevel : Nat → Option Char → List Char → List (List Char)
  | _, _, [] => [[]]
  | depth, quote, c :: cs =>
    if quote.isNone && c = ',' && depth = 0 then [] :: cutTopLevel depth quote cs
    else
      let depth :=
        if quote.isSome then depth
        else if c = '(' || c = '[' then depth + 1
        else if c = ')' || c = ']' then depth - 1
        else depth
      (cutTopLevel depth (nextQuote quote c) cs).modifyHead (c :: ·)

/-- The selectors of a list. -/
def alternatives (cs : List Char) : List (List Char) := cutTopLevel 0 none cs

theorem closeGroup?_lengths {opening closing : Char} {depth : Nat} {quote : Option Char}
    {cs body rest : List Char}
    (h : closeGroup? opening closing depth quote cs = some (body, rest)) :
    body.length + rest.length < cs.length := by
  induction cs generalizing depth quote body with
  | nil => simp [closeGroup?] at h
  | cons c cs ih =>
    rw [closeGroup?] at h
    split at h
    · cases h
      simp
    · obtain ⟨⟨body', rest'⟩, found, same⟩ := Option.map_eq_some_iff.1 h
      cases same
      have := ih found
      simp only [List.length_cons]
      omega

theorem length_afterGroup_le (opening closing : Char) (cs : List Char) :
    (afterGroup opening closing cs).length ≤ cs.length := by
  rw [afterGroup]
  cases h : closeGroup? opening closing 0 none cs with
  | none => simp
  | some found =>
    have : found.1.length + found.2.length < cs.length := closeGroup?_lengths h
    simp only [Option.map_some, Option.getD_some]
    omega

theorem length_argument_le (cs : List Char) : (argument cs).length ≤ cs.length := by
  rw [argument]
  cases h : closeGroup? '(' ')' 0 none cs with
  | none => simp
  | some found =>
    have : found.1.length + found.2.length < cs.length := closeGroup?_lengths h
    simp only [Option.map_some, Option.getD_some]
    omega

theorem length_le_of_mem_modifyHead_cons {c : Char} {pieces : List (List Char)}
    {piece : List Char} {n : Nat} (bound : ∀ p ∈ pieces, p.length ≤ n)
    (h : piece ∈ pieces.modifyHead (c :: ·)) : piece.length ≤ n + 1 := by
  cases pieces with
  | nil => simp at h
  | cons first others =>
    rcases List.mem_cons.1 h with rfl | h
    · simpa using bound first List.mem_cons_self
    · have := bound piece (List.mem_cons_of_mem _ h)
      omega

theorem length_le_of_mem_cutTopLevel {depth : Nat} {quote : Option Char}
    {cs piece : List Char} (h : piece ∈ cutTopLevel depth quote cs) :
    piece.length ≤ cs.length := by
  induction cs generalizing depth quote piece with
  | nil =>
    obtain rfl : piece = [] := by simpa [cutTopLevel] using h
    simp
  | cons c cs ih =>
    rw [cutTopLevel] at h
    split at h
    · rcases List.mem_cons.1 h with rfl | h
      · simp
      · have := ih h
        simp only [List.length_cons]
        omega
    · exact length_le_of_mem_modifyHead_cons (fun _ hp => ih hp) h

theorem length_le_of_mem_alternatives {cs piece : List Char} (h : piece ∈ alternatives cs) :
    piece.length ≤ cs.length :=
  length_le_of_mem_cutTopLevel h

end Stylesheet.Selector
