import Mathlib
import Stylesheet.Proofs.Selector.Nesting
import Stylesheet.Proofs.Selector.Tally

/-!
# Reading by positions

The readings of names, groups and lists, done by positions in one text. Every unit is
fetched by its position, and every piece is cut out between two positions. Such a reading
has no result if it asks for a unit or a piece outside the text, if the ends of a piece are
out of order, if a count reaches its limit, or if it is not over after the rounds it is given.

With a limit and with rounds for the length of the text each of them has a result, a position
of the text or pieces of it, and these are what the readings by suffixes find.
-/

namespace Stylesheet.Selector

/-- The units from one position up to another, nothing unless both are positions of the text
in this order. -/
def slice? (cs : List Char) (start stop : ℕ) : Option (List Char) :=
  if start ≤ stop ∧ stop ≤ cs.length then some ((cs.drop start).take (stop - start)) else none

/-- A count, nothing once it reaches the limit. -/
def below? (limit n : ℕ) : Option ℕ := if n < limit then some n else none

/-- The first position from `i` on where no name unit stands. -/
def nameEnd? (rounds : ℕ) (cs : List Char) (i : ℕ) : Option ℕ :=
  match rounds with
  | 0 => none
  | rounds + 1 =>
    if i < cs.length then do
      let c ← cs[i]?
      if isNameUnit c then nameEnd? rounds cs (i + 1) else some i
    else some i

/-- The position behind a group, that of the end if the group never closes. -/
def groupEnd? (limit rounds : ℕ) (opening closing : Char) (cs : List Char) (i depth : ℕ)
    (quote : Option Char) : Option ℕ :=
  match rounds with
  | 0 => none
  | rounds + 1 =>
    if i < cs.length then do
      let c ← cs[i]?
      match quote with
      | some q =>
        groupEnd? limit rounds opening closing cs (i + 1) depth (nextQuote (some q) c)
      | none =>
        if c = opening then
          let depth ← below? limit (depth + 1)
          groupEnd? limit rounds opening closing cs (i + 1) depth none
        else if c = closing then
          if depth = 1 then some (i + 1)
          else groupEnd? limit rounds opening closing cs (i + 1) (depth - 1) none
        else groupEnd? limit rounds opening closing cs (i + 1) depth (nextQuote none c)
    else some cs.length

/-- Cut a text at its top-level commas. -/
def cutFrom? (limit rounds : ℕ) (cs : List Char) (start i depth : ℕ) (quote : Option Char) :
    Option (List (List Char)) :=
  match rounds with
  | 0 => none
  | rounds + 1 =>
    if i < cs.length then do
      let c ← cs[i]?
      match quote with
      | some q => cutFrom? limit rounds cs start (i + 1) depth (nextQuote (some q) c)
      | none =>
        if c = '(' ∨ c = '[' then
          let depth ← below? limit (depth + 1)
          cutFrom? limit rounds cs start (i + 1) depth none
        else if c = ')' ∨ c = ']' then
          cutFrom? limit rounds cs start (i + 1) (depth - 1) none
        else if c = ',' ∧ depth = 0 then
          let piece ← slice? cs start i
          let others ← cutFrom? limit rounds cs (i + 1) (i + 1) depth none
          return piece :: others
        else cutFrom? limit rounds cs start (i + 1) depth (nextQuote none c)
    else do
      let piece ← slice? cs start cs.length
      return [piece]

variable {limit rounds i : ℕ} {c : Char} {cs rest : List Char}

/-! ### Positions -/

section Positions

variable (h : cs.drop i = c :: rest)

include h

theorem lt_length_of_drop : i < cs.length := by
  by_contra outside
  rw [List.drop_eq_nil_of_le (not_lt.1 outside)] at h
  cases h

theorem getElem?_of_drop : cs[i]? = some c := by
  rw [← List.head?_drop, h, List.head?_cons]

theorem drop_succ_of_drop : cs.drop (i + 1) = rest := by
  rw [← List.tail_drop, h, List.tail_cons]

theorem length_of_drop : cs.length - (i + 1) = rest.length := by
  rw [← List.length_drop, drop_succ_of_drop h]

end Positions

theorem not_lt_length_of_drop (h : cs.drop i = []) : ¬i < cs.length :=
  not_lt.2 (List.drop_eq_nil_iff.1 h)

theorem slice?_eq {start stop : ℕ} (ordered : start ≤ stop) (inside : stop ≤ cs.length) :
    slice? cs start stop = some ((cs.drop start).take (stop - start)) :=
  if_pos ⟨ordered, inside⟩

theorem below?_eq {n : ℕ} (small : n < limit) : below? limit n = some n := if_pos small

theorem exists_eq_succ_of_lt {n : ℕ} (time : n < rounds) : ∃ others, rounds = others + 1 :=
  Nat.exists_eq_add_one_of_ne_zero (Nat.ne_zero_of_lt time)

theorem nameEnd?_eq (cs : List Char) (i : ℕ) (time : cs.length - i < rounds) :
    nameEnd? rounds cs i = some (i + ((cs.drop i).takeWhile isNameUnit).length) := by
  induction h : cs.drop i generalizing i rounds with
  | nil =>
      obtain ⟨rounds, rfl⟩ := exists_eq_succ_of_lt time
      rw [nameEnd?, if_neg (not_lt_length_of_drop h)]
      rfl
  | cons c rest ih =>
      obtain ⟨rounds, rfl⟩ := exists_eq_succ_of_lt time
      have before := lt_length_of_drop h
      rw [nameEnd?, if_pos before, getElem?_of_drop h, Option.bind_eq_bind, Option.bind_some,
        List.takeWhile_cons]
      split
      · rw [ih _ (by omega) (drop_succ_of_drop h), List.length_cons]
        congr 1
        omega
      · rfl

theorem drop_length_takeWhile (p : Char → Bool) (cs : List Char) :
    cs.drop (cs.takeWhile p).length = cs.dropWhile p := by
  calc cs.drop (cs.takeWhile p).length
      = (cs.takeWhile p ++ cs.dropWhile p).drop (cs.takeWhile p).length := by
        rw [List.takeWhile_append_dropWhile]
    _ = cs.dropWhile p := List.drop_left

/-- A name ends at a position of the text. -/
theorem nameEnd?_spec (inside : i ≤ cs.length) (time : cs.length - i < rounds) :
    ∃ j, nameEnd? rounds cs i = some j ∧ i ≤ j ∧ j ≤ cs.length ∧
      slice? cs i j = some ((cs.drop i).takeWhile isNameUnit) ∧
      cs.drop j = (cs.drop i).dropWhile isNameUnit := by
  have first : (cs.drop i).takeWhile isNameUnit <+: cs.drop i := List.takeWhile_prefix _
  have short : ((cs.drop i).takeWhile isNameUnit).length ≤ cs.length - i := by
    simpa using first.length_le
  refine ⟨_, nameEnd?_eq cs i time, Nat.le_add_right _ _, by omega, ?_, ?_⟩
  · rw [slice?_eq (Nat.le_add_right _ _) (by omega), Nat.add_sub_cancel_left,
      ← List.prefix_iff_eq_take.1 first]
  · rw [← List.drop_drop, drop_length_takeWhile]

/-! ### Groups -/

theorem eq_of_closeGroup? {opening closing : Char} {depth : ℕ} {quote : Option Char}
    {body : List Char} (h : closeGroup? opening closing depth quote cs = some (body, rest)) :
    cs = body ++ closing :: rest := by
  induction cs generalizing depth quote body with
  | nil => simp [closeGroup?] at h
  | cons c cs ih =>
      rw [closeGroup?] at h
      split at h
      · next closes =>
          simp only [Bool.and_eq_true, decide_eq_true_eq] at closes
          cases h
          rw [closes.1.2, List.nil_append]
      · obtain ⟨⟨body, rest⟩, found, same⟩ := Option.map_eq_some_iff.1 h
        cases same
        rw [ih found, List.cons_append]

/-- What follows a group with more groups open inside it. -/
def behind (opening closing : Char) (depth : ℕ) (quote : Option Char) (cs : List Char) :
    List Char :=
  ((closeGroup? opening closing depth quote cs).map Prod.snd).getD []

section Groups

variable {opening closing : Char} {depth : ℕ}

theorem behind_quoted (q : Char) :
    behind opening closing depth (some q) (c :: cs) =
      behind opening closing depth (nextQuote (some q) c) cs := by
  rw [behind, closeGroup?, if_neg (by simp), Option.map_map]
  rfl

theorem behind_opening (no_quote : nextQuote none opening = none) (other : opening ≠ closing) :
    behind opening closing depth none (opening :: cs) =
      behind opening closing (depth + 1) none cs := by
  rw [behind, closeGroup?_opening no_quote other, Option.map_map]
  rfl

theorem behind_closing (no_quote : nextQuote none closing = none) (other : opening ≠ closing) :
    behind opening closing (depth + 1) none (closing :: cs) =
      behind opening closing depth none cs := by
  rw [behind, closeGroup?_closing no_quote other, Option.map_map]
  rfl

theorem behind_closing_zero : behind opening closing 0 none (closing :: cs) = cs := by
  rw [behind, closeGroup?, if_pos (by simp)]
  rfl

theorem behind_plain (no_opening : c ≠ opening) (no_closing : c ≠ closing) :
    behind opening closing depth none (c :: cs) =
      behind opening closing depth (nextQuote none c) cs := by
  rw [behind, closeGroup?, if_neg (by simp [no_closing]), Option.map_map]
  simp only [Option.isSome_none, Bool.false_eq_true, if_false, no_opening, no_closing]
  rfl

theorem groupEnd?_of_drop (delimits : Delimits opening closing) {quote : Option Char}
    (h : cs.drop i = rest) (room : depth + 1 + rest.length < limit) (time : rest.length < rounds) :
    groupEnd? limit rounds opening closing cs i (depth + 1) quote =
      some (cs.length - (behind opening closing depth quote rest).length) := by
  have other := delimits.differ
  obtain ⟨openingQuote, closingQuote⟩ := delimits.nextQuote_eq_none
  induction rest generalizing i depth quote rounds with
  | nil =>
      obtain ⟨rounds, rfl⟩ := exists_eq_succ_of_lt time
      rw [groupEnd?, if_neg (not_lt_length_of_drop h)]
      rfl
  | cons c rest ih =>
      obtain ⟨rounds, rfl⟩ := exists_eq_succ_of_lt time
      have next := drop_succ_of_drop h
      rw [List.length_cons] at room time
      rw [groupEnd?, if_pos (lt_length_of_drop h), getElem?_of_drop h, Option.bind_eq_bind,
        Option.bind_some]
      cases quote with
      | some q =>
          rw [behind_quoted]
          exact ih next (by omega) (by omega)
      | none =>
          by_cases opens : c = opening
          · have deeper : below? limit (depth + 1 + 1) = some (depth + 1 + 1) :=
              below?_eq (by omega)
            simp only [opens, if_true, deeper, Option.bind_eq_bind, Option.bind_some,
              behind_opening openingQuote other]
            exact ih next (by omega) (by omega)
          by_cases closes : c = closing
          · cases depth with
            | zero =>
                have stop := length_of_drop h
                have inside := lt_length_of_drop h
                simp only [closes, other.symm, if_true, if_false, behind_closing_zero,
                  Option.some_inj]
                omega
            | succ depth =>
                have inner : depth + 1 + 1 ≠ 1 := by omega
                simp only [closes, other.symm, if_true, if_false, inner,
                  behind_closing closingQuote other, Nat.add_sub_cancel]
                exact ih next (by omega) (by omega)
          · simp only [opens, closes, if_false, behind_plain opens closes]
            exact ih next (by omega) (by omega)

theorem afterGroup_suffix (opening closing : Char) (cs : List Char) :
    afterGroup opening closing cs <:+ cs := by
  cases h : closeGroup? opening closing 0 none cs with
  | none => simp [afterGroup, h]
  | some found =>
      obtain ⟨body, rest⟩ := found
      refine ⟨body ++ [closing], ?_⟩
      rw [afterGroup, h, eq_of_closeGroup? h]
      simp

/-- A group ends at a position of the text behind its opening bracket. -/
theorem groupEnd?_spec (delimits : Delimits opening closing) (h : cs.drop i = opening :: rest)
    (room : rest.length + 1 < limit) (time : rest.length + 1 < rounds) :
    ∃ j, groupEnd? limit rounds opening closing cs i 0 none = some j ∧ i < j ∧ j ≤ cs.length ∧
      cs.drop j = afterGroup opening closing rest ∧
      j = cs.length - (afterGroup opening closing rest).length := by
  have deeper : below? limit (0 + 1) = some 1 := below?_eq (by omega)
  have next := drop_succ_of_drop h
  have inside := lt_length_of_drop h
  have remaining := length_of_drop h
  have suffix : afterGroup opening closing rest <:+ cs :=
    (afterGroup_suffix opening closing rest).trans (next ▸ List.drop_suffix (i + 1) cs)
  have short := (afterGroup_suffix opening closing rest).length_le
  refine ⟨cs.length - (afterGroup opening closing rest).length, ?_, by omega, by omega,
    (List.suffix_iff_eq_drop.1 suffix).symm, rfl⟩
  obtain ⟨rounds, rfl⟩ := exists_eq_succ_of_lt time
  rw [groupEnd?, if_pos inside, getElem?_of_drop h]
  simp only [Option.bind_eq_bind, Option.bind_some, if_true, deeper]
  exact groupEnd?_of_drop delimits next (by omega) (by omega)

theorem length_argument_add_le (cs : List Char) :
    (argument cs).length + (afterGroup '(' ')' cs).length ≤ cs.length := by
  cases h : closeGroup? '(' ')' 0 none cs with
  | none => simp [argument, afterGroup, h]
  | some found =>
      have := closeGroup?_lengths h
      simp only [argument, afterGroup, h, Option.map_some, Option.getD_some]
      omega

/-- The slice between the parentheses is the argument. -/
theorem slice?_argument (h : cs.drop i = '(' :: rest) :
    slice? cs (i + 1) (max (cs.length - (afterGroup '(' ')' rest).length - 1) (i + 1)) =
      some (argument rest) := by
  have next := drop_succ_of_drop h
  have inside := lt_length_of_drop h
  have remaining := length_of_drop h
  rw [slice?_eq (le_max_right _ _) (by omega), next]
  congr 1
  cases found : closeGroup? '(' ')' 0 none rest with
  | none =>
      have whole : max (cs.length - 0 - 1) (i + 1) - (i + 1) = rest.length - 1 := by omega
      simp only [argument, afterGroup, found, Option.map_none, Option.getD_none, List.length_nil,
        whole, List.dropLast_eq_take]
  | some pieces =>
      obtain ⟨body, after⟩ := pieces
      have split := eq_of_closeGroup? found
      have lengths : rest.length = body.length + after.length + 1 := by
        simp [split, Nat.add_assoc]
      have whole : max (cs.length - after.length - 1) (i + 1) - (i + 1) = body.length := by omega
      simp only [argument, afterGroup, found, Option.map_some, Option.getD_some, whole]
      rw [split, List.take_left]

end Groups

/-! ### Cuts -/

theorem take_succ_of_drop {start : ℕ} (ordered : start ≤ i) (h : cs.drop i = c :: rest) :
    (cs.drop start).take (i + 1 - start) = (cs.drop start).take (i - start) ++ [c] := by
  have here : (cs.drop start)[i - start]? = some c := by
    rw [List.getElem?_drop, Nat.add_sub_cancel' ordered, getElem?_of_drop h]
  rw [Nat.succ_sub ordered, List.take_add_one, here]
  rfl

theorem cutFrom?_of_drop {start depth : ℕ} {quote : Option Char} (ordered : start ≤ i)
    (h : cs.drop i = rest) (inside : i ≤ cs.length) (room : depth + rest.length < limit)
    (time : rest.length < rounds) :
    cutFrom? limit rounds cs start i depth quote =
      some ((cutTopLevel depth quote rest).modifyHead ((cs.drop start).take (i - start) ++ ·)) := by
  induction rest generalizing start i depth quote rounds with
  | nil =>
      obtain ⟨rounds, rfl⟩ := exists_eq_succ_of_lt time
      have end_reached : i = cs.length :=
        Nat.le_antisymm inside (not_lt.1 (not_lt_length_of_drop h))
      rw [cutFrom?, if_neg (not_lt_length_of_drop h), slice?_eq (by omega) (Nat.le_refl _)]
      simp [cutTopLevel, end_reached]
  | cons c rest ih =>
      obtain ⟨rounds, rfl⟩ := exists_eq_succ_of_lt time
      have next := drop_succ_of_drop h
      have before := lt_length_of_drop h
      have front := take_succ_of_drop ordered h
      rw [List.length_cons] at room time
      -- a unit that does not cut belongs to the piece it stands in
      have grown (depth : ℕ) (quote : Option Char) (room : depth + rest.length < limit) :
          cutFrom? limit rounds cs start (i + 1) depth quote =
            some (((cutTopLevel depth quote rest).modifyHead (c :: ·)).modifyHead
              ((cs.drop start).take (i - start) ++ ·)) := by
        rw [ih (by omega) next before room (by omega), front, List.modifyHead_modifyHead]
        simp [Function.comp_def]
      rw [cutFrom?, if_pos before, getElem?_of_drop h, Option.bind_eq_bind, Option.bind_some]
      cases quote with
      | some q =>
          have step : cutTopLevel depth (some q) (c :: rest) =
              (cutTopLevel depth (nextQuote (some q) c) rest).modifyHead (c :: ·) := by
            rw [cutTopLevel, if_neg (by simp)]
            rfl
          rw [step]
          exact grown _ _ (by omega)
      | none =>
          by_cases opens : c = '(' ∨ c = '['
          · have step : cutTopLevel depth none (c :: rest) =
                (cutTopLevel (depth + 1) none rest).modifyHead (c :: ·) := by
              rcases opens with rfl | rfl <;> rfl
            have deeper : below? limit (depth + 1) = some (depth + 1) := below?_eq (by omega)
            simp only [opens, if_true, deeper, Option.bind_eq_bind, Option.bind_some, step]
            exact grown _ _ (by omega)
          by_cases closes : c = ')' ∨ c = ']'
          · have step : cutTopLevel depth none (c :: rest) =
                (cutTopLevel (depth - 1) none rest).modifyHead (c :: ·) := by
              rcases closes with rfl | rfl <;> rfl
            simp only [opens, closes, if_true, if_false, step]
            exact grown _ _ (by omega)
          by_cases cut : c = ',' ∧ depth = 0
          · obtain ⟨rfl, rfl⟩ := cut
            have step : cutTopLevel 0 none (',' :: rest) = [] :: cutTopLevel 0 none rest := rfl
            have others : cutFrom? limit rounds cs (i + 1) (i + 1) 0 none = _ :=
              ih (Nat.le_refl (i + 1)) next before (by omega) (by omega)
            have empty : ((cs.drop (i + 1)).take (i + 1 - (i + 1)) ++ ·) = id := by
              funext piece
              simp
            rw [empty, List.modifyHead_id] at others
            simp only [opens, closes, if_false, and_self, if_true, slice?_eq ordered inside,
              Option.bind_eq_bind, Option.bind_some, others, step]
            simp
          · have step : cutTopLevel depth none (c :: rest) =
                (cutTopLevel depth (nextQuote none c) rest).modifyHead (c :: ·) := by
              rw [cutTopLevel, if_neg (by simpa using cut)]
              simp [opens, closes]
            simp only [opens, closes, cut, if_false, step]
            exact grown _ _ (by omega)

theorem cutFrom?_eq (room : cs.length < limit) (time : cs.length < rounds) :
    cutFrom? limit rounds cs 0 0 0 none = some (alternatives cs) := by
  rw [cutFrom?_of_drop (Nat.le_refl 0) (List.drop_zero) (Nat.zero_le _) (by omega) time,
    alternatives]
  cases cutTopLevel 0 none cs <;> rfl

end Stylesheet.Selector
