import Mathlib
import Stylesheet.Proofs.Selector.Position

/-!
# Where a group ends

A group counts the brackets of its own kind and knows quotes, but no other bracket. So what may
stand inside it is less than a well-nested text: its quotes are closed, and outside of them its
own brackets match, whatever the other brackets do.

The reading finds the closing bracket behind such a body, and it finds no other. Reading on with
some groups and a quote still open, it stops behind a text that closes the quote first and then
one group after the other. A group without a closing bracket goes to the end of the text.
-/

namespace Stylesheet.Selector

variable {opening closing : Char} {cs ds body rest front : List Char} {depth : ℕ}
  {quote : Option Char}

/-- Texts with closed quotes, outside of which every opening bracket of one kind has its closing
bracket. -/
inductive Balanced (opening closing : Char) : List Char → Prop where
  | nil : Balanced opening closing []
  | plain {c : Char} {cs : List Char} (no_opening : c ≠ opening) (no_closing : c ≠ closing)
      (no_quote : ¬(c = '"' ∨ c = '\'')) :
      Balanced opening closing cs → Balanced opening closing (c :: cs)
  | quoted {q : Char} {inner cs : List Char} (quote : q = '"' ∨ q = '\'') (inside : q ∉ inner) :
      Balanced opening closing cs → Balanced opening closing (q :: (inner ++ q :: cs))
  | group {inner cs : List Char} : Balanced opening closing inner →
      Balanced opening closing cs → Balanced opening closing (opening :: (inner ++ closing :: cs))

/-! ### A balanced body is passed over -/

theorem closeGroup?_balanced (delimits : Delimits opening closing)
    (h : Balanced opening closing cs) :
    closeGroup? opening closing depth none (cs ++ rest) =
      (closeGroup? opening closing depth none rest).map (inFront cs) := by
  have differ := delimits.differ
  obtain ⟨openingQuote, closingQuote⟩ := delimits.nextQuote_eq_none
  induction h generalizing depth rest with
  | nil => simp [inFront_nil]
  | @plain c cs no_opening no_closing no_quote _ ih =>
      rw [List.cons_append, closeGroup?_cons_plain no_opening no_closing
        (nextQuote_eq_none_iff.2 no_quote), ih, Option.map_map, ← inFront_append,
        List.singleton_append]
  | @quoted q inner cs quote inside _ ih =>
      rw [List.cons_append, List.append_assoc, List.cons_append,
        closeGroup?_quoted quote inside (ne_of_quote quote openingQuote)
          (ne_of_quote quote closingQuote), ih, Option.map_map, ← inFront_append]
      simp
  | @group inner cs _ _ ihInner ih =>
      rw [List.cons_append, List.append_assoc, List.cons_append,
        closeGroup?_opening openingQuote differ, ihInner,
        closeGroup?_closing closingQuote differ, ih]
      simp only [Option.map_map, ← inFront_append]
      simp

/-! ### Nothing else is taken for a body -/

/-- What closes an open quote, and then as many groups as are open inside a group, and is
balanced after that. -/
inductive Completes (opening closing : Char) : ℕ → Option Char → List Char → Prop where
  | balanced {cs : List Char} : Balanced opening closing cs → Completes opening closing 0 none cs
  | closes {depth : ℕ} {inner cs : List Char} : Balanced opening closing inner →
      Completes opening closing depth none cs →
      Completes opening closing (depth + 1) none (inner ++ closing :: cs)
  | unquotes {depth : ℕ} {q : Char} {inner cs : List Char} (inside : q ∉ inner) :
      Completes opening closing depth none cs →
      Completes opening closing depth (some q) (inner ++ q :: cs)

namespace Completes

/-- What may stand in front of a balanced text may stand in front of one that closes groups. -/
theorem prepend (fits : ∀ cs, Balanced opening closing cs → Balanced opening closing (front ++ cs))
    (h : Completes opening closing depth none cs) :
    Completes opening closing depth none (front ++ cs) := by
  cases h with
  | balanced body => exact .balanced (fits _ body)
  | closes inner rest =>
      rw [← List.append_assoc]
      exact .closes (fits _ inner) rest

theorem cons_quoted {c q : Char} (h : Completes opening closing depth (nextQuote (some q) c) cs) :
    Completes opening closing depth (some q) (c :: cs) := by
  by_cases same : c = q
  · subst same
    rw [nextQuote, if_pos rfl] at h
    rw [← List.nil_append (c :: cs)]
    exact .unquotes List.not_mem_nil h
  · rw [nextQuote, if_neg same] at h
    obtain _ | _ | @⟨_, _, inner, cs, inside, rest⟩ := h
    rw [← List.cons_append]
    exact .unquotes (by simp [Ne.symm same, inside]) rest

theorem cons_opening (h : Completes opening closing (depth + 1) none cs) :
    Completes opening closing depth none (opening :: cs) := by
  obtain _ | @⟨_, inner, cs, body, rest⟩ := h
  rw [List.append_cons, ← List.cons_append]
  refine rest.prepend fun ds balanced => ?_
  simpa using Balanced.group body balanced

theorem cons_closing (h : Completes opening closing depth none cs) :
    Completes opening closing (depth + 1) none (closing :: cs) :=
  .closes .nil h

theorem cons_plain {c : Char} (no_opening : c ≠ opening) (no_closing : c ≠ closing)
    (h : Completes opening closing depth (nextQuote none c) cs) :
    Completes opening closing depth none (c :: cs) := by
  by_cases quote : c = '"' ∨ c = '\''
  · rw [nextQuote_of_quote quote] at h
    obtain _ | _ | @⟨_, _, inner, cs, inside, rest⟩ := h
    rw [List.append_cons, ← List.cons_append]
    refine rest.prepend fun ds balanced => ?_
    simpa using Balanced.quoted quote inside balanced
  · rw [nextQuote_eq_none_iff.2 quote] at h
    rw [← List.singleton_append]
    exact h.prepend fun ds => .plain no_opening no_closing quote

end Completes

/-- Wherever the reading starts, the body it finds closes what was open there. -/
theorem completes_of_closeGroup? (delimits : Delimits opening closing)
    (h : closeGroup? opening closing depth quote cs = some (body, rest)) :
    Completes opening closing depth quote body := by
  have differ := delimits.differ
  obtain ⟨openingQuote, closingQuote⟩ := delimits.nextQuote_eq_none
  induction cs generalizing depth quote body with
  | nil => simp [closeGroup?] at h
  | cons c cs ih =>
      rw [closeGroup?] at h
      split at h
      · next stops =>
          simp only [Bool.and_eq_true, Option.isNone_iff_eq_none, decide_eq_true_eq] at stops
          obtain ⟨⟨rfl, -⟩, rfl⟩ := stops
          cases h
          exact .balanced .nil
      · next stays =>
          obtain ⟨⟨body, rest⟩, found, same⟩ := Option.map_eq_some_iff.1 h
          cases same
          have further := ih found
          cases quote with
          | some q => exact .cons_quoted (by simpa using further)
          | none =>
              by_cases opens : c = opening
              · subst opens
                exact .cons_opening (by simpa [openingQuote] using further)
              by_cases closes : c = closing
              · subst closes
                -- the reading would have stopped here with no group open inside
                obtain ⟨depth, rfl⟩ : ∃ inner, depth = inner + 1 :=
                  Nat.exists_eq_add_one_of_ne_zero (by simpa using stays)
                exact .cons_closing (by simpa [closingQuote, opens] using further)
              · exact .cons_plain opens closes (by simpa [opens, closes] using further)

/-- A group has a body and a rest exactly if a balanced body, the closing bracket and that rest
follow its opening bracket. -/
theorem closeGroup?_eq_some_iff (delimits : Delimits opening closing) :
    closeGroup? opening closing 0 none cs = some (body, rest) ↔
      Balanced opening closing body ∧ cs = body ++ closing :: rest := by
  constructor
  · intro h
    have body := completes_of_closeGroup? delimits h
    obtain balanced | _ | _ := body
    exact ⟨balanced, eq_of_closeGroup? h⟩
  · rintro ⟨balanced, rfl⟩
    rw [closeGroup?_balanced delimits balanced, closeGroup?, if_pos (by simp)]
    simp [inFront]

theorem closeGroup?_eq_none_iff (delimits : Delimits opening closing) :
    closeGroup? opening closing 0 none cs = none ↔
      ∀ body rest, Balanced opening closing body → cs ≠ body ++ closing :: rest := by
  simp only [Option.eq_none_iff_forall_ne_some, Prod.forall, ne_eq,
    closeGroup?_eq_some_iff delimits, not_and]

/-! ### The position behind a group -/

/-- What is said of the position behind the group that opens at `start`: it comes after the
opening bracket and is one of the text, the reading by suffixes goes on there, and it is the one
just behind the closing bracket, or the end of the text if there is no closing bracket. -/
structure EndsGroup (opening closing : Char) (cs : List Char) (start stop : ℕ) : Prop where
  later : start < stop
  inside : stop ≤ cs.length
  goes_on : cs.drop stop = afterGroup opening closing (cs.drop (start + 1))
  matched : ∀ body rest, Balanced opening closing body →
    cs.drop (start + 1) = body ++ closing :: rest → stop = start + 1 + body.length + 1
  unmatched : (∀ body rest, Balanced opening closing body →
    cs.drop (start + 1) ≠ body ++ closing :: rest) → stop = cs.length

theorem drop_of_getElem? {i : ℕ} {c : Char} (h : cs[i]? = some c) :
    cs.drop i = c :: cs.drop (i + 1) := by
  obtain ⟨inside, rfl⟩ := List.getElem?_eq_some_iff.1 h
  exact List.drop_eq_getElem_cons inside

/-- The reading by positions comes to the position behind the group. -/
theorem exists_endsGroup (delimits : Delimits opening closing) {start : ℕ}
    (opens : cs[start]? = some opening) :
    ∃ stop, (∀ limit rounds, cs.length < limit → cs.length < rounds →
      groupEnd? limit rounds opening closing cs start 0 none = some stop) ∧
      EndsGroup opening closing cs start stop := by
  have split := drop_of_getElem? opens
  have left : (cs.drop (start + 1)).length + 1 ≤ cs.length := by
    have before := lt_length_of_drop split
    simp only [List.length_drop]
    omega
  have reads (limit rounds : ℕ) (room : cs.length < limit) (time : cs.length < rounds) :=
    groupEnd?_spec delimits split (Nat.lt_of_le_of_lt left room) (Nat.lt_of_le_of_lt left time)
  obtain ⟨stop, -, later, inside, goes_on, position⟩ :=
    reads (cs.length + 1) (cs.length + 1) (Nat.lt_succ_self _) (Nat.lt_succ_self _)
  refine ⟨stop, fun limit rounds room time => ?_, later, inside, goes_on, ?_, ?_⟩
  · obtain ⟨_, found, -, -, -, same⟩ := reads limit rounds room time
    rw [found, same, position]
  · intro body rest balanced follows
    have closed := (closeGroup?_eq_some_iff delimits).2 ⟨balanced, follows⟩
    have lengths := congrArg List.length follows
    simp only [afterGroup, closed, Option.map_some, Option.getD_some] at position
    simp only [List.length_append, List.length_cons, List.length_drop] at lengths left
    omega
  · intro unclosed
    have open_to_end := (closeGroup?_eq_none_iff delimits).2 unclosed
    simpa [afterGroup, open_to_end] using position

end Stylesheet.Selector
