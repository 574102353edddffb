import Mathlib
import Stylesheet.Selector.Tally

/-!
# The scanner, one piece at a time

Tallies are added part by part, and compared as their counts are in the lexicographic
order, so the greatest of several does not depend on the order of comparison. The
equations of the scanner say what it does with each kind of unit.
-/

namespace Stylesheet.Selector

namespace Tally

theorem add_def (s t : Tally) :
    s + t = ⟨s.ids + t.ids, s.classes + t.classes, s.types + t.types⟩ :=
  rfl

theorem zero_add (t : Tally) : zero + t = t := by
  simp [add_def, zero]

theorem add_zero (t : Tally) : t + zero = t := by
  simp [add_def, zero]

theorem add_assoc (s t u : Tally) : s + t + u = s + (t + u) := by
  simp only [add_def, Nat.add_assoc]

theorem add_left_cancel_iff (s : Tally) {t u : Tally} : s + t = s + u ↔ t = u := by
  cases t
  cases u
  simp [add_def]

/-- The counts in the order in which they are compared. -/
def lex (t : Tally) : ℕ ×ₗ ℕ ×ₗ ℕ := toLex (t.ids, toLex (t.classes, t.types))

theorem lex_injective {s t : Tally} (h : s.lex = t.lex) : s = t := by
  obtain ⟨ids, rest⟩ := Prod.mk.inj (toLex.injective h)
  obtain ⟨classes, types⟩ := Prod.mk.inj (toLex.injective rest)
  cases s
  cases t
  simp_all

theorem precedes_iff {s t : Tally} : s.precedes t = true ↔ s.lex < t.lex := by
  simp [precedes, lex, Prod.Lex.toLex_lt_toLex]

/-- The greater of two tallies, by the order of their counts. -/
theorem max_eq (s t : Tally) : s.max t = if s.lex < t.lex then t else s := by
  simp only [max, precedes_iff]

theorem lex_max (s t : Tally) : (s.max t).lex = Max.max s.lex t.lex := by
  unfold max
  split
  · next less => rw [max_eq_right (precedes_iff.1 less).le]
  · next less => rw [max_eq_left (not_lt.1 fun h => less (precedes_iff.2 h))]

theorem max_max (s t u : Tally) : (s.max t).max u = s.max (t.max u) := by
  apply lex_injective
  simp only [lex_max, max_assoc]

theorem zero_max (t : Tally) : zero.max t = t := by
  apply lex_injective
  rw [lex_max, max_eq_right]
  apply not_lt.1
  intro less
  have first := precedes_iff.2 less
  simp [precedes, zero] at first

theorem max_zero (t : Tally) : t.max zero = t := by
  apply lex_injective
  rw [lex_max, max_comm, ← lex_max, zero_max]

theorem foldl_max (s t : Tally) (ts : List Tally) :
    ts.foldl max (s.max t) = s.max (ts.foldl max t) := by
  induction ts generalizing t with
  | nil => rfl
  | cons u ts ih => rw [List.foldl_cons, max_max, ih, List.foldl_cons]

theorem greatest_cons (t : Tally) (ts : List Tally) : greatest (t :: ts) = t.max (greatest ts) := by
  rw [greatest, List.foldl_cons, zero_max, greatest, ← foldl_max, max_zero]

theorem greatest_singleton (t : Tally) : greatest [t] = t := zero_max t

end Tally

/-! ### The equations of the scanner -/

variable {c : Char} {cs : List Char}

theorem tally_nil : tally [] = .zero := by rw [tally]

theorem tally_hash (cs : List Char) :
    tally ('#' :: cs) = .oneId + tally (cs.dropWhile isNameUnit) := by
  rw [tally, if_pos rfl]

theorem tally_dot (cs : List Char) :
    tally ('.' :: cs) = .oneClass + tally (cs.dropWhile isNameUnit) := by
  rw [tally, if_neg (by decide), if_pos rfl]

theorem tally_bracket (cs : List Char) :
    tally ('[' :: cs) = .oneClass + tally (afterGroup '[' ']' cs) := by
  rw [tally, if_neg (by decide), if_neg (by decide), if_pos rfl]

/-- The units that have a case of their own. -/
def openers : List Char := ['#', '.', '[', ':']

theorem tally_type (start : isTypeStart c = true) (ordinary : c ∉ openers) :
    tally (c :: cs) = .oneType + tally (cs.dropWhile isNameUnit) := by
  simp only [openers, List.mem_cons, List.not_mem_nil, or_false, not_or] at ordinary
  obtain ⟨hash, dot, bracket, colon⟩ := ordinary
  rw [tally, if_neg hash, if_neg dot, if_neg bracket, if_neg colon, if_pos start]

theorem tally_other (other : isTypeStart c = false) (ordinary : c ∉ openers) :
    tally (c :: cs) = tally cs := by
  simp only [openers, List.mem_cons, List.not_mem_nil, or_false, not_or] at ordinary
  obtain ⟨hash, dot, bracket, colon⟩ := ordinary
  rw [tally, if_neg hash, if_neg dot, if_neg bracket, if_neg colon, if_neg (by simp [other])]

/-- What a colon introduces counts by its kind. -/
def Pseudo.tally : Pseudo → Tally
  | .element => .oneType
  | .ordinary => .oneClass
  | .weightless => .zero
  | .oneOf arguments => .greatest (arguments.map Selector.tally)

theorem tally_colon (cs : List Char) :
    tally (':' :: cs) = (pseudo cs).tally + tally (afterPseudo cs) := by
  rw [tally, if_neg (by decide), if_neg (by decide), if_neg (by decide), if_pos rfl]
  split
  · next h => rw [h, Pseudo.tally]
  · next h => rw [h, Pseudo.tally]
  · next h => rw [h, Pseudo.tally, Tally.zero_add]
  · next arguments h =>
      rw [h, Pseudo.tally]
      simp

end Stylesheet.Selector
