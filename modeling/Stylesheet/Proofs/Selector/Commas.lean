import Mathlib
import Stylesheet.Proofs.Selector.Balance

/-!
# Where a list of selectors is cut

The pieces of a list, joined by commas, are the list again, whatever brackets and quotes it has.

A comma is a cut if no bracket and no quote is open in front of it. How many brackets are open is
told by counting those outside of quotes, the opening ones against the closing ones. The reading
does not count in this way: it passes over a closing bracket that has nothing to close. So both
agree as long as no text in front has more closing brackets than opening ones, and a well-nested
text has no such front.
-/

namespace Stylesheet.Selector

variable {c : Char} {cs rest : List Char} {pieces : List (List Char)} {depth i : ℕ}
  {quote : Option Char} {level : ℤ}

/-! ### Joining the pieces -/

theorem cutTopLevel_ne_nil (depth : ℕ) (quote : Option Char) (cs : List Char) :
    cutTopLevel depth quote cs ≠ [] := by
  induction cs generalizing depth quote with
  | nil => simp [cutTopLevel]
  | cons c cs ih =>
      rw [cutTopLevel]
      split
      · simp
      · simpa using ih _ _

theorem intercalate_modifyHead_cons (separator : List Char) (some_left : pieces ≠ []) :
    separator.intercalate (pieces.modifyHead (c :: ·)) = c :: separator.intercalate pieces := by
  match pieces with
  | [piece] => simp
  | piece :: next :: pieces => simp [List.intercalate_cons_cons]

/-- Joined by commas, the pieces are the text they were cut from. -/
theorem intercalate_cutTopLevel (depth : ℕ) (quote : Option Char) (cs : List Char) :
    [','].intercalate (cutTopLevel depth quote cs) = cs := by
  induction cs generalizing depth quote with
  | nil => simp [cutTopLevel]
  | cons c cs ih =>
      rw [cutTopLevel]
      split
      · next cut =>
          simp only [Bool.and_eq_true, decide_eq_true_eq] at cut
          rw [cut.1.2]
          obtain ⟨piece, pieces, split⟩ :=
            List.exists_cons_of_ne_nil (cutTopLevel_ne_nil depth quote cs)
          have joined := ih depth quote
          rw [split] at joined ⊢
          rw [List.intercalate_cons_cons, joined]
          rfl
      · rw [intercalate_modifyHead_cons _ (cutTopLevel_ne_nil _ _ cs), ih]

/-! ### What is open behind a text -/

/-- The quote that is open behind a text. -/
def openQuote (quote : Option Char) (cs : List Char) : Option Char := cs.foldl nextQuote quote

/-- The characters that no quote encloses, from a place on where `quote` is open. -/
def unquoted : Option Char → List Char → List Char
  | _, [] => []
  | none, c :: cs => c :: unquoted (nextQuote none c) cs
  | some q, c :: cs => unquoted (nextQuote (some q) c) cs

/-- The opening brackets outside of quotes against the closing ones. -/
def openBrackets (quote : Option Char) (cs : List Char) : ℤ :=
  (unquoted quote cs).countP (fun c => c = '(' ∨ c = '[') -
    (unquoted quote cs).countP fun c => c = ')' ∨ c = ']'

/-- What one character adds. -/
def change (quote : Option Char) (c : Char) : ℤ := openBrackets quote [c]

theorem openQuote_cons (quote : Option Char) (c : Char) (cs : List Char) :
    openQuote quote (c :: cs) = openQuote (nextQuote quote c) cs := rfl

theorem openBrackets_nil (quote : Option Char) : openBrackets quote [] = 0 := by
  cases quote <;> rfl

theorem openBrackets_cons (quote : Option Char) (c : Char) (cs : List Char) :
    openBrackets quote (c :: cs) = change quote c + openBrackets (nextQuote quote c) cs := by
  cases quote with
  | none =>
      simp only [change, openBrackets, unquoted, List.countP_cons, List.countP_nil]
      push_cast
      ring
  | some q => simp [change, openBrackets, unquoted]

theorem change_quoted (q c : Char) : change (some q) c = 0 := rfl

theorem change_none (c : Char) : change none c =
    if c = '(' ∨ c = '[' then 1 else if c = ')' ∨ c = ']' then -1 else 0 := by
  simp only [change, openBrackets, unquoted, List.countP_singleton, decide_eq_true_eq]
  by_cases opens : c = '(' ∨ c = '['
  · have no_closing : ¬(c = ')' ∨ c = ']') := by
      obtain rfl | rfl := opens <;> decide
    simp [opens, no_closing]
  · by_cases closes : c = ')' ∨ c = ']' <;> simp [opens, closes]

/-! ### Texts that close no more than is open -/

/-- Whether the brackets counted from a level on never fall below zero. -/
def Above (level : ℤ) (quote : Option Char) (cs : List Char) : Prop :=
  ∀ i, 0 ≤ level + openBrackets quote (cs.take i)

theorem Above.nonneg (h : Above level quote cs) : 0 ≤ level := by
  simpa [openBrackets_nil] using h 0

theorem above_cons : Above level quote (c :: cs) ↔
    0 ≤ level ∧ Above (level + change quote c) (nextQuote quote c) cs := by
  constructor
  · intro h
    refine ⟨h.nonneg, fun i => ?_⟩
    have later := h (i + 1)
    rwa [List.take_succ_cons, openBrackets_cons, ← add_assoc] at later
  · rintro ⟨start, later⟩ i
    cases i with
    | zero => simpa [openBrackets_nil] using start
    | succ i =>
        rw [List.take_succ_cons, openBrackets_cons, ← add_assoc]
        exact later i

theorem above_in_quote {q : Char} {inner : List Char} (inside : q ∉ inner)
    (h : Above level none rest) : Above level (some q) (inner ++ q :: rest) := by
  induction inner with
  | nil =>
      rw [List.nil_append, above_cons, change_quoted, add_zero, nextQuote, if_pos rfl]
      exact ⟨h.nonneg, h⟩
  | cons c inner ih =>
      rw [List.mem_cons, not_or] at inside
      rw [List.cons_append, above_cons, change_quoted, add_zero, nextQuote,
        if_neg (Ne.symm inside.1)]
      exact ⟨h.nonneg, ih inside.2⟩

/-- A well-nested text closes only what it opens itself. -/
theorem above_nested {commas : Bool} (h : Nested commas cs) (later : Above level none rest) :
    Above level none (cs ++ rest) := by
  induction h generalizing level rest with
  | nil => exact later
  | @plain _ c cs unmarked _ _ ih =>
      have no_change : change none c = 0 := by
        simp only [marks, List.mem_cons, List.not_mem_nil, or_false, not_or] at unmarked
        simp [change_none, unmarked]
      rw [List.cons_append, above_cons, no_change, add_zero, nextQuote_of_unmarked unmarked]
      exact ⟨later.nonneg, ih later⟩
  | @quoted _ q inner cs quote inside _ ih =>
      have no_change : change none q = 0 := by
        obtain rfl | rfl := quote <;> rfl
      rw [List.cons_append, List.append_assoc, List.cons_append, above_cons, no_change, add_zero,
        nextQuote_of_quote quote]
      exact ⟨later.nonneg, above_in_quote inside (ih later)⟩
  | @group _ opening closing inner cs pair _ _ ihInner ih =>
      obtain ⟨-, -, -, openingQuote, closingQuote⟩ := of_mem_brackets pair
      have start := later.nonneg
      have changes : change none opening = 1 ∧ change none closing = -1 := by
        simp only [brackets, List.mem_cons, Prod.mk.injEq, List.not_mem_nil, or_false] at pair
        obtain ⟨rfl, rfl⟩ | ⟨rfl, rfl⟩ := pair <;> exact ⟨rfl, rfl⟩
      have closed : Above (level + 1) none (closing :: (cs ++ rest)) := by
        rw [above_cons, changes.2, add_neg_cancel_right, closingQuote]
        exact ⟨by omega, ih later⟩
      rw [List.cons_append, List.append_assoc, List.cons_append, above_cons, changes.1,
        openingQuote]
      exact ⟨start, ihInner closed⟩

/-! ### The positions of the cuts -/

/-- The positions at which a text was cut into these pieces: one behind every piece but the
last, each taken up by the separator. -/
def cuts : List (List Char) → List ℕ
  | [] => []
  | [_] => []
  | piece :: next :: pieces =>
    piece.length :: (cuts (next :: pieces)).map (· + (piece.length + 1))

theorem cuts_cons_of_ne_nil (piece : List Char) (some_left : pieces ≠ []) :
    cuts (piece :: pieces) = piece.length :: (cuts pieces).map (· + (piece.length + 1)) := by
  obtain ⟨next, pieces, rfl⟩ := List.exists_cons_of_ne_nil some_left
  rw [cuts]

/-- A character in front of the first piece moves every cut. -/
theorem cuts_modifyHead_cons (c : Char) (pieces : List (List Char)) :
    cuts (pieces.modifyHead (c :: ·)) = (cuts pieces).map (· + 1) := by
  match pieces with
  | [] => rfl
  | [_] => rfl
  | piece :: next :: pieces =>
      simp [cuts, Function.comp_def, Nat.add_assoc]

/-- How deep the reading is behind one more character. -/
def nextDepth (depth : ℕ) (quote : Option Char) (c : Char) : ℕ :=
  if quote.isSome then depth
  else if c = '(' || c = '[' then depth + 1
  else if c = ')' || c = ']' then depth - 1
  else depth

theorem cutTopLevel_cons (depth : ℕ) (quote : Option Char) (c : Char) (cs : List Char) :
    cutTopLevel depth quote (c :: cs) =
      if quote = none ∧ c = ',' ∧ depth = 0 then [] :: cutTopLevel depth quote cs
      else (cutTopLevel (nextDepth depth quote c) (nextQuote quote c) cs).modifyHead (c :: ·) := by
  rw [cutTopLevel, nextDepth]
  simp [and_assoc]

/-- As long as nothing is closed that is not open, the depth counts the open brackets. -/
theorem nextDepth_eq (depth : ℕ) (quote : Option Char) (c : Char)
    (h : 0 ≤ (depth : ℤ) + change quote c) :
    (nextDepth depth quote c : ℤ) = depth + change quote c := by
  cases quote with
  | some q => simp [nextDepth, change_quoted]
  | none =>
      rw [change_none] at h ⊢
      simp only [nextDepth, Option.isSome_none, Bool.false_eq_true, if_false, Bool.or_eq_true,
        decide_eq_true_eq]
      split_ifs at h ⊢ <;> omega

/-- The cuts are at the commas in front of which nothing is open, neither a quote nor a
bracket. -/
theorem mem_cuts_cutTopLevel (h : Above depth quote cs) : i ∈ cuts (cutTopLevel depth quote cs) ↔
    cs[i]? = some ',' ∧ openQuote quote (cs.take i) = none ∧
      depth + openBrackets quote (cs.take i) = 0 := by
  induction cs generalizing depth quote i with
  | nil => simp [cutTopLevel, cuts]
  | cons c cs ih =>
      obtain ⟨-, later⟩ := above_cons.1 h
      have deeper := nextDepth_eq depth quote c later.nonneg
      rw [← deeper] at later
      have further (i : ℕ) := ih (i := i) later
      rw [deeper] at further
      -- in front of a later position stands the first character
      have front (i : ℕ) : (cs[i]? = some ',' ∧
          openQuote (nextQuote quote c) (cs.take i) = none ∧
          depth + change quote c + openBrackets (nextQuote quote c) (cs.take i) = 0) ↔
          (c :: cs)[i + 1]? = some ',' ∧ openQuote quote ((c :: cs).take (i + 1)) = none ∧
          depth + openBrackets quote ((c :: cs).take (i + 1)) = 0 := by
        rw [List.getElem?_cons_succ, List.take_succ_cons, openQuote_cons, openBrackets_cons,
          add_assoc]
      rw [cutTopLevel_cons]
      split
      · next cut =>
          obtain ⟨rfl, rfl, rfl⟩ := cut
          rw [cuts_cons_of_ne_nil _ (cutTopLevel_ne_nil _ _ cs)]
          cases i with
          | zero => simp [openQuote, openBrackets_nil]
          | succ i =>
              rw [← front, ← further]
              simp [nextDepth, nextQuote]
      · next stays =>
          rw [cuts_modifyHead_cons]
          cases i with
          | zero => simpa [openQuote, openBrackets_nil, and_left_comm] using stays
          | succ i =>
              rw [← front, ← further]
              simp

/-- In a well-nested text the cuts are at the commas that no quote and no bracket encloses. -/
theorem mem_cuts_alternatives (h : Nested true cs) : i ∈ cuts (alternatives cs) ↔
    cs[i]? = some ',' ∧ openQuote none (cs.take i) = none ∧ openBrackets none (cs.take i) = 0 := by
  have empty : Above 0 none [] := by
    intro i
    simp [openBrackets_nil]
  have whole := above_nested h empty
  rw [List.append_nil] at whole
  rw [alternatives, mem_cuts_cutTopLevel whole, Nat.cast_zero, zero_add]

/-! ### The main result -/

/-- For any units of a text. A group ends behind its opening bracket and inside the text: just
behind the bracket that closes it, or at the end of the text if none does. A list of selectors is
cut so that its pieces, joined by commas, are the list, and where the list is well nested the
cuts are at the commas that no quote and no bracket encloses. Both readings come to their result
whatever limit above the number of units the count of open brackets has. -/
theorem groups_end_and_lists_are_cut (cs : List Char) :
    (∀ opening closing start, Delimits opening closing → cs[start]? = some opening →
      ∃ stop, (∀ limit rounds, cs.length < limit → cs.length < rounds →
        groupEnd? limit rounds opening closing cs start 0 none = some stop) ∧
        EndsGroup opening closing cs start stop) ∧
    (∀ limit rounds, cs.length < limit → cs.length < rounds →
      cutFrom? limit rounds cs 0 0 0 none = some (alternatives cs)) ∧
    [','].intercalate (alternatives cs) = cs ∧
    (Nested true cs → ∀ i, i ∈ cuts (alternatives cs) ↔
      cs[i]? = some ',' ∧ openQuote none (cs.take i) = none ∧
        openBrackets none (cs.take i) = 0) := by
  refine ⟨?_, ?_, intercalate_cutTopLevel 0 none cs, ?_⟩
  · intro opening closing start delimits opens
    exact exists_endsGroup delimits opens
  · intro limit rounds room time
    exact cutFrom?_eq room time
  · intro nested i
    exact mem_cuts_alternatives nested

/-- In `[x="]"](,),b` the quoted bracket does not close the first group, and only the second
comma is a cut. -/
theorem quoted_bracket_is_passed_over :
    let body := ['x', '=', '"', ']', '"']
    let cs := '[' :: (body ++ ']' :: '(' :: ([','] ++ ')' :: [',', 'b']))
    cs[0]? = some '[' ∧ Balanced '[' ']' body ∧ Nested true cs ∧ cs.length < 13 ∧
      groupEnd? 13 13 '[' ']' cs 0 0 none = some 7 ∧ 8 ∉ cuts (alternatives cs) ∧
      10 ∈ cuts (alternatives cs) := by
  intro body cs
  have word : Nested true body :=
    .plain (by decide) (by decide) (.plain (by decide) (by decide)
      (.quoted (Or.inl rfl) (show '"' ∉ [']'] by decide) .nil))
  have nested : Nested true cs :=
    .group (show ('[', ']') ∈ brackets by decide) word (.group (by decide)
      (.plain (by decide) (fun _ => rfl) .nil) (.plain (by decide) (fun _ => rfl)
        (.plain (by decide) (by decide) .nil)))
  have balanced : Balanced '[' ']' body :=
    .plain (by decide) (by decide) (by decide) (.plain (by decide) (by decide) (by decide)
      (.quoted (Or.inl rfl) (show '"' ∉ [']'] by decide) .nil))
  obtain ⟨groups, -, -, commas⟩ := groups_end_and_lists_are_cut cs
  obtain ⟨stop, found, group⟩ := groups '[' ']' 0 .squares rfl
  have position : stop = 7 := group.matched body _ balanced rfl
  refine ⟨rfl, balanced, nested, by decide, ?_, ?_, ?_⟩
  · rw [← position]
    exact found 13 13 (by decide) (by decide)
  · rw [commas nested]
    decide
  · rw [commas nested]
    decide

end Stylesheet.Selector
