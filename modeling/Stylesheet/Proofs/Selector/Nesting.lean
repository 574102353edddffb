import Stylesheet.Selector.Group

/-!
# Well-nested texts

A text is well nested if its quotes are closed and its parentheses and square brackets
match outside of them. Nothing in such a text ends a group around it, whichever kind of
bracket the group has, and no comma in it is a cut as long as a bracket around it is
open. A text without commas of its own is not cut at all.
-/

namespace Stylesheet.Selector

/-- The characters that open or close something. -/
def marks : List Char := ['"', '\'', '(', ')', '[', ']']

/-- The opening brackets with those that close them. -/
def brackets : List (Char × Char) := [('(', ')'), ('[', ']')]

/-- Well-nested texts. The flag says whether commas may stand outside every bracket and
quote. -/
inductive Nested : Bool → List Char → Prop where
  | nil {commas : Bool} : Nested commas []
  | plain {commas : Bool} {c : Char} {cs : List Char} (unmarked : c ∉ marks)
      (comma : c = ',' → commas = true) : Nested commas cs → Nested commas (c :: cs)
  | quoted {commas : Bool} {q : Char} {inner cs : List Char} (quote : q = '"' ∨ q = '\'')
      (inside : q ∉ inner) : Nested commas cs → Nested commas (q :: (inner ++ q :: cs))
  | group {commas : Bool} {opening closing : Char} {inner cs : List Char}
      (pair : (opening, closing) ∈ brackets) : Nested true inner → Nested commas cs →
      Nested commas (opening :: (inner ++ closing :: cs))

namespace Nested

variable {commas : Bool} {cs ds : List Char}

theorem append (h : Nested commas cs) (k : Nested commas ds) : Nested commas (cs ++ ds) := by
  induction h with
  | nil => exact k
  | plain unmarked comma _ ih => exact .plain unmarked comma (ih k)
  | quoted quote inside _ ih =>
      rw [List.cons_append, List.append_assoc, List.cons_append]
      exact .quoted quote inside (ih k)
  | group pair inner _ _ ih =>
      rw [List.cons_append, List.append_assoc, List.cons_append]
      exact .group pair inner (ih k)

theorem weaken (h : Nested commas cs) : Nested true cs := by
  induction h with
  | nil => exact .nil
  | plain unmarked _ _ ih => exact .plain unmarked (fun _ => rfl) ih
  | quoted quote inside _ ih => exact .quoted quote inside ih
  | group pair inner _ _ ih => exact .group pair inner ih

theorem of_unmarked (unmarked : ∀ c ∈ cs, c ∉ marks) (comma : ∀ c ∈ cs, c = ',' → commas = true) :
    Nested commas cs := by
  induction cs with
  | nil => exact .nil
  | cons c cs ih =>
      refine .plain (unmarked c List.mem_cons_self) (comma c List.mem_cons_self) (ih ?_ ?_)
      · exact fun d hd => unmarked d (List.mem_cons_of_mem _ hd)
      · exact fun d hd => comma d (List.mem_cons_of_mem _ hd)

end Nested

theorem nextQuote_of_unmarked {c : Char} (h : c ∉ marks) : nextQuote none c = none := by
  simp only [marks, List.mem_cons, List.not_mem_nil, or_false, not_or] at h
  simp [nextQuote, h.1, h.2.1]

theorem nextQuote_of_quote {q : Char} (h : q = '"' ∨ q = '\'') : nextQuote none q = some q :=
  if_pos (by simpa using h)

/-! ### Groups -/

section Groups

variable {opening closing : Char} {depth : Nat} {cs rest : List Char}

/-- Put a text in front of the body of a group. -/
def inFront (cs : List Char) (found : List Char × List Char) : List Char × List Char :=
  (cs ++ found.1, found.2)

theorem inFront_nil : inFront [] = id := rfl

theorem inFront_append (cs ds : List Char) : inFront (cs ++ ds) = inFront cs ∘ inFront ds := by
  funext found
  simp [inFront]

/-- A character that changes neither the depth nor the quote. -/
theorem closeGroup?_cons_plain {c : Char} (no_opening : c ≠ opening) (no_closing : c ≠ closing)
    (no_quote : nextQuote none c = none) :
    closeGroup? opening closing depth none (c :: cs) =
      (closeGroup? opening closing depth none cs).map (inFront [c]) := by
  rw [closeGroup?, if_neg (by simp [no_closing])]
  simp only [Option.isSome_none, Bool.false_eq_true, if_false, no_opening, no_closing, no_quote]
  rfl

/-- Inside quotes nothing counts but the quote that closes them. -/
theorem closeGroup?_in_quote {q : Char} {inner : List Char} (inside : q ∉ inner) :
    closeGroup? opening closing depth (some q) (inner ++ q :: rest) =
      (closeGroup? opening closing depth none rest).map (inFront (inner ++ [q])) := by
  induction inner with
  | nil =>
      rw [List.nil_append, closeGroup?, if_neg (by simp)]
      simp only [Option.isSome_some, if_true, nextQuote]
      rfl
  | cons c inner ih =>
      rw [List.mem_cons, not_or] at inside
      rw [List.cons_append, closeGroup?, if_neg (by simp)]
      simp only [Option.isSome_some, if_true, nextQuote, if_neg (Ne.symm inside.1), ih inside.2,
        Option.map_map]
      rfl

theorem closeGroup?_quoted {q : Char} {inner : List Char} (quote : q = '"' ∨ q = '\'')
    (inside : q ∉ inner) (no_opening : q ≠ opening) (no_closing : q ≠ closing) :
    closeGroup? opening closing depth none (q :: (inner ++ q :: rest)) =
      (closeGroup? opening closing depth none rest).map (inFront (q :: (inner ++ [q]))) := by
  rw [closeGroup?, if_neg (by simp [no_closing])]
  simp only [Option.isSome_none, Bool.false_eq_true, if_false, no_opening, no_closing,
    nextQuote_of_quote quote, closeGroup?_in_quote inside, Option.map_map]
  rfl

theorem closeGroup?_opening (no_quote : nextQuote none opening = none) (other : opening ≠ closing) :
    closeGroup? opening closing depth none (opening :: cs) =
      (closeGroup? opening closing (depth + 1) none cs).map (inFront [opening]) := by
  rw [closeGroup?, if_neg (by simp [other])]
  simp only [Option.isSome_none, Bool.false_eq_true, if_false, if_true, no_quote]
  rfl

theorem closeGroup?_closing (no_quote : nextQuote none closing = none) (other : opening ≠ closing) :
    closeGroup? opening closing (depth + 1) none (closing :: cs) =
      (closeGroup? opening closing depth none cs).map (inFront [closing]) := by
  rw [closeGroup?, if_neg (by simp)]
  simp only [Option.isSome_none, Bool.false_eq_true, if_false, if_true, no_quote, Ne.symm other,
    Nat.add_sub_cancel]
  rfl

/-- What sets the brackets of a group apart from quotes and from each other. -/
theorem of_mem_brackets (pair : (opening, closing) ∈ brackets) :
    opening ∈ marks ∧ closing ∈ marks ∧ opening ≠ closing ∧
      nextQuote none opening = none ∧ nextQuote none closing = none := by
  simp only [brackets, List.mem_cons, Prod.mk.injEq, List.not_mem_nil, or_false] at pair
  rcases pair with ⟨rfl, rfl⟩ | ⟨rfl, rfl⟩ <;> decide

theorem ne_of_quote {q c : Char} (quote : q = '"' ∨ q = '\'') (no_quote : nextQuote none c = none) :
    q ≠ c := by
  rintro rfl
  rw [nextQuote_of_quote quote] at no_quote
  cases no_quote

/-- Brackets of one kind are equal to those of another in both or in neither. -/
theorem eq_or_ne_of_mem_brackets {o c : Char} (pair : (opening, closing) ∈ brackets)
    (other : (o, c) ∈ brackets) :
    (o = opening ∧ c = closing) ∨ (o ≠ opening ∧ o ≠ closing ∧ c ≠ opening ∧ c ≠ closing) := by
  simp only [brackets, List.mem_cons, Prod.mk.injEq, List.not_mem_nil, or_false] at pair other
  rcases pair with ⟨rfl, rfl⟩ | ⟨rfl, rfl⟩ <;> rcases other with ⟨rfl, rfl⟩ | ⟨rfl, rfl⟩ <;> decide

/-- Two characters that may enclose a group: they differ, and neither is a quote. -/
structure Delimits (opening closing : Char) : Prop where
  differ : opening ≠ closing
  opening_no_quote : ¬(opening = '"' ∨ opening = '\'')
  closing_no_quote : ¬(closing = '"' ∨ closing = '\'')

theorem nextQuote_eq_none_iff {c : Char} : nextQuote none c = none ↔ ¬(c = '"' ∨ c = '\'') := by
  simp [nextQuote]

theorem Delimits.of_mem_brackets (pair : (opening, closing) ∈ brackets) :
    Delimits opening closing := by
  obtain ⟨-, -, differ, openingQuote, closingQuote⟩ := Selector.of_mem_brackets pair
  exact ⟨differ, nextQuote_eq_none_iff.1 openingQuote, nextQuote_eq_none_iff.1 closingQuote⟩

theorem Delimits.nextQuote_eq_none (h : Delimits opening closing) :
    nextQuote none opening = none ∧ nextQuote none closing = none :=
  ⟨nextQuote_eq_none_iff.2 h.opening_no_quote, nextQuote_eq_none_iff.2 h.closing_no_quote⟩

theorem Delimits.parentheses : Delimits '(' ')' := of_mem_brackets (by decide)

theorem Delimits.squares : Delimits '[' ']' := of_mem_brackets (by decide)

/-- Nothing in a well-nested text ends the group around it. -/
theorem closeGroup?_nested {commas : Bool} (pair : (opening, closing) ∈ brackets)
    (h : Nested commas cs) :
    closeGroup? opening closing depth none (cs ++ rest) =
      (closeGroup? opening closing depth none rest).map (inFront cs) := by
  obtain ⟨openingMark, closingMark, other, openingQuote, closingQuote⟩ := of_mem_brackets pair
  induction h generalizing depth rest with
  | nil => rw [inFront_nil, Option.map_id, id, List.nil_append]
  | @plain _ c cs unmarked _ _ ih =>
      have no_opening : c ≠ opening := fun same => unmarked (same ▸ openingMark)
      have no_closing : c ≠ closing := fun same => unmarked (same ▸ closingMark)
      rw [List.cons_append, closeGroup?_cons_plain no_opening no_closing
        (nextQuote_of_unmarked unmarked), ih, Option.map_map, ← inFront_append,
        List.singleton_append]
  | @quoted _ q inner cs quote inside _ ih =>
      rw [List.cons_append, List.append_assoc, List.cons_append, closeGroup?_quoted quote inside
        (ne_of_quote quote openingQuote) (ne_of_quote quote closingQuote), ih, Option.map_map,
        ← inFront_append]
      simp
  | @group _ o c inner cs otherPair _ _ ihInner ih =>
      rw [List.cons_append, List.append_assoc, List.cons_append]
      rcases eq_or_ne_of_mem_brackets pair otherPair with ⟨rfl, rfl⟩ | ⟨h1, h2, h3, h4⟩
      · rw [closeGroup?_opening openingQuote other, ihInner, closeGroup?_closing closingQuote other,
          ih]
        simp only [Option.map_map, ← inFront_append]
        simp
      · obtain ⟨-, -, -, quoteOpening, quoteClosing⟩ := of_mem_brackets otherPair
        rw [closeGroup?_cons_plain h1 h2 quoteOpening, ihInner,
          closeGroup?_cons_plain h3 h4 quoteClosing, ih]
        simp only [Option.map_map, ← inFront_append]
        simp

/-- The body of a group is found up to the bracket that closes it. -/
theorem closeGroup?_body {commas : Bool} (pair : (opening, closing) ∈ brackets)
    (h : Nested commas cs) :
    closeGroup? opening closing 0 none (cs ++ closing :: rest) = some (cs, rest) := by
  obtain ⟨-, -, -, -, closingQuote⟩ := of_mem_brackets pair
  rw [closeGroup?_nested pair h, closeGroup?, if_pos (by simp)]
  simp [inFront]

theorem afterGroup_body {commas : Bool} (pair : (opening, closing) ∈ brackets)
    (h : Nested commas cs) : afterGroup opening closing (cs ++ closing :: rest) = rest := by
  rw [afterGroup, closeGroup?_body pair h]
  rfl

theorem argument_body {commas : Bool} (h : Nested commas cs) :
    argument (cs ++ ')' :: rest) = cs := by
  rw [argument, closeGroup?_body (by decide) h]
  rfl

end Groups

/-! ### Cuts -/

section Cuts

variable {depth : Nat} {cs rest : List Char}

/-- A character that changes neither the depth nor the quote, and does not cut. -/
theorem cutTopLevel_cons_plain {c : Char} (unmarked : c ∉ marks)
    (comma : c = ',' → 0 < depth) :
    cutTopLevel depth none (c :: cs) = (cutTopLevel depth none cs).modifyHead ([c] ++ ·) := by
  have plain := nextQuote_of_unmarked unmarked
  simp only [marks, List.mem_cons, List.not_mem_nil, or_false, not_or] at unmarked
  rw [cutTopLevel, if_neg (by simpa [Nat.pos_iff_ne_zero] using comma)]
  simp [unmarked, plain]

theorem cutTopLevel_in_quote {q : Char} {inner : List Char} (inside : q ∉ inner) :
    cutTopLevel depth (some q) (inner ++ q :: rest) =
      (cutTopLevel depth none rest).modifyHead (inner ++ [q] ++ ·) := by
  induction inner with
  | nil =>
      rw [List.nil_append, cutTopLevel, if_neg (by simp)]
      simp [nextQuote]
  | cons c inner ih =>
      rw [List.mem_cons, not_or] at inside
      rw [List.cons_append, cutTopLevel, if_neg (by simp)]
      simp only [Option.isSome_some, if_true, nextQuote, if_neg (Ne.symm inside.1), ih inside.2]
      rw [List.modifyHead_modifyHead]
      rfl

theorem cutTopLevel_quoted {q : Char} {inner : List Char} (quote : q = '"' ∨ q = '\'')
    (inside : q ∉ inner) :
    cutTopLevel depth none (q :: (inner ++ q :: rest)) =
      (cutTopLevel depth none rest).modifyHead (q :: (inner ++ [q]) ++ ·) := by
  have other : q ≠ ',' ∧ q ≠ '(' ∧ q ≠ '[' ∧ q ≠ ')' ∧ q ≠ ']' := by
    rcases quote with rfl | rfl <;> decide
  rw [cutTopLevel, if_neg (by simp [other])]
  simp only [Option.isSome_none, Bool.false_eq_true, if_false, other, Bool.or_self, decide_false,
    nextQuote_of_quote quote, cutTopLevel_in_quote inside, List.modifyHead_modifyHead]
  rfl

theorem cutTopLevel_opening {opening closing : Char} (pair : (opening, closing) ∈ brackets) :
    cutTopLevel depth none (opening :: cs) =
      (cutTopLevel (depth + 1) none cs).modifyHead ([opening] ++ ·) := by
  simp only [brackets, List.mem_cons, Prod.mk.injEq, List.not_mem_nil, or_false] at pair
  rcases pair with ⟨rfl, rfl⟩ | ⟨rfl, rfl⟩
  · rw [cutTopLevel, if_neg (by simp)]
    rfl
  · rw [cutTopLevel, if_neg (by simp)]
    rfl

theorem cutTopLevel_closing {opening closing : Char} (pair : (opening, closing) ∈ brackets) :
    cutTopLevel (depth + 1) none (closing :: cs) =
      (cutTopLevel depth none cs).modifyHead ([closing] ++ ·) := by
  simp only [brackets, List.mem_cons, Prod.mk.injEq, List.not_mem_nil, or_false] at pair
  rcases pair with ⟨rfl, rfl⟩ | ⟨rfl, rfl⟩
  · rw [cutTopLevel, if_neg (by simp)]
    rfl
  · rw [cutTopLevel, if_neg (by simp)]
    rfl

/-- A well-nested text is not cut inside a bracket, nor anywhere if it has no commas of
its own. -/
theorem cutTopLevel_nested {commas : Bool} (h : Nested commas cs)
    (inside : commas = true → 0 < depth) :
    cutTopLevel depth none (cs ++ rest) =
      (cutTopLevel depth none rest).modifyHead (cs ++ ·) := by
  induction h generalizing depth rest with
  | nil =>
      rw [List.nil_append]
      cases cutTopLevel depth none rest <;> rfl
  | plain unmarked comma _ ih =>
      rw [List.cons_append, cutTopLevel_cons_plain unmarked fun same => inside (comma same),
        ih inside, List.modifyHead_modifyHead]
      rfl
  | @quoted _ q inner cs quote closed _ ih =>
      rw [List.cons_append, List.append_assoc, List.cons_append,
        cutTopLevel_quoted quote closed, ih inside, List.modifyHead_modifyHead]
      congr 1
      funext piece
      simp
  | @group _ o c inner cs pair _ _ ihInner ih =>
      rw [List.cons_append, List.append_assoc, List.cons_append, cutTopLevel_opening pair,
        ihInner fun _ => Nat.succ_pos _, cutTopLevel_closing pair, ih inside]
      simp only [List.modifyHead_modifyHead]
      congr 1
      funext piece
      simp

/-- A text without commas of its own, up to the comma behind it. -/
theorem alternatives_cons (h : Nested false cs) :
    alternatives (cs ++ ',' :: rest) = cs :: alternatives rest := by
  rw [alternatives, cutTopLevel_nested h (by simp), cutTopLevel, if_pos (by simp)]
  simp [alternatives]

theorem alternatives_single (h : Nested false cs) : alternatives cs = [cs] := by
  have whole : cutTopLevel 0 none (cs ++ []) = _ := cutTopLevel_nested h (by simp)
  rw [List.append_nil, cutTopLevel] at whole
  rw [alternatives, whole]
  simp

end Cuts

end Stylesheet.Selector
