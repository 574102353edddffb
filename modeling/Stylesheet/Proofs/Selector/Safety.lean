import Mathlib
import Stylesheet.Proofs.Selector.Position
import Stylesheet.Proofs.Selector.Pseudo

/-!
# The scanner is safe

The scanner by positions reads one part after another, adds what it counts and goes on
behind it, from the first position of a text to its end. It has no result if it leaves the
text anywhere, if a count reaches the limit it is given, or if one of its loops is not over
after the rounds it is given.

Every part ends behind its first unit and inside the text, and counts no more than the units
between. So for any bytes, with a limit and with rounds above their number, the scanner has
the result of the scanner by suffixes, and no more parts are counted than there are bytes.
-/

namespace Stylesheet.Selector

/-- What the scanner comes to: a part with its count, or the pieces of a choice, the
greatest of which counts. -/
inductive Part where
  | counted (t : Tally)
  | choice (pieces : List (List Char))

def Part.tally : Part → Tally
  | .counted t => t
  | .choice pieces => .greatest (pieces.map Selector.tally)

/-- The position behind the arguments that start at a position, if they do. -/
def argumentsEnd? (limit rounds : ℕ) (cs : List Char) (i : ℕ) : Option ℕ :=
  if cs[i]? = some '(' then groupEnd? limit rounds '(' ')' cs i 0 none else some i

/-- What the colon at a position introduces, and the position behind it. An argument ends in
front of its closing parenthesis, but never before it starts. -/
def pseudoAt? (limit rounds : ℕ) (cs : List Char) (i : ℕ) : Option (Part × ℕ) := do
  let element := cs[i + 1]? = some ':'
  let start := if element then i + 2 else i + 1
  let stop ← nameEnd? rounds cs start
  let name ← slice? cs start stop
  let word := Text.lower (String.ofList name)
  if element ∨ word ∈ singleColonElements then
    let next ← argumentsEnd? limit rounds cs stop
    return (.counted .oneType, next)
  else if word = "where" then
    let next ← argumentsEnd? limit rounds cs stop
    return (.counted .zero, next)
  else if cs[stop]? = some '(' ∧ word ∈ transparentClasses then
    let close ← groupEnd? limit rounds '(' ')' cs stop 0 none
    let inner ← slice? cs (stop + 1) (max (close - 1) (stop + 1))
    let pieces ← cutFrom? limit rounds inner 0 0 0 none
    return (.choice pieces, close)
  else
    let next ← argumentsEnd? limit rounds cs stop
    return (.counted .oneClass, next)

/-- The part at a position, and the position behind it. -/
def partAt? (limit rounds : ℕ) (cs : List Char) (i : ℕ) : Option (Part × ℕ) := do
  let c ← cs[i]?
  if c = '#' then
    let next ← nameEnd? rounds cs (i + 1)
    return (.counted .oneId, next)
  else if c = '.' then
    let next ← nameEnd? rounds cs (i + 1)
    return (.counted .oneClass, next)
  else if c = '[' then
    let next ← groupEnd? limit rounds '[' ']' cs i 0 none
    return (.counted .oneClass, next)
  else if c = ':' then pseudoAt? limit rounds cs i
  else if isTypeStart c then
    let next ← nameEnd? rounds cs i
    return (.counted .oneType, next)
  else return (.counted .zero, i + 1)

namespace Tally

variable {s t : Tally} {n limit : ℕ}

/-- How many parts are counted. -/
def total (t : Tally) : ℕ := t.ids + t.classes + t.types

theorem total_add (s t : Tally) : (s + t).total = s.total + t.total := by
  simp only [total, add_def]
  omega

theorem total_max_le (hs : s.total ≤ n) (ht : t.total ≤ n) : (s.max t).total ≤ n := by
  unfold max
  split
  · exact ht
  · exact hs

theorem total_greatest_le {ts : List Tally} (h : ∀ t ∈ ts, t.total ≤ n) :
    (greatest ts).total ≤ n := by
  induction ts with
  | nil => exact Nat.zero_le n
  | cons t ts ih =>
      rw [greatest_cons]
      exact total_max_le (h t List.mem_cons_self) (ih fun u hu => h u (List.mem_cons_of_mem _ hu))

theorem toNat_saturate_of_lt (h : n < 2 ^ 32) : (saturate n).toNat = n := by
  have size : UInt32.size = 2 ^ 32 := rfl
  rw [toNat_saturate]
  omega

/-- Counts that are not cut off are told apart. -/
theorem toSpecificity_inj (hs : s.total < 2 ^ 32) (ht : t.total < 2 ^ 32) :
    s.toSpecificity = t.toSpecificity ↔ s = t := by
  have same {m n : ℕ} (hm : m < 2 ^ 32) (hn : n < 2 ^ 32) : saturate m = saturate n ↔ m = n := by
    rw [← UInt32.toNat_inj, toNat_saturate_of_lt hm, toNat_saturate_of_lt hn]
  obtain ⟨ids, classes, types⟩ := s
  obtain ⟨ids', classes', types'⟩ := t
  simp only [total] at hs ht
  simp only [toSpecificity, Specificity.mk.injEq, Tally.mk.injEq]
  rw [same (by omega) (by omega), same (by omega) (by omega), same (by omega) (by omega)]

end Tally

/-! ### One part -/

/-- Whether a part may stand between two positions that are some units apart. -/
def Part.Fits (n : ℕ) : Part → Prop
  | .counted t => t.total ≤ 1
  | .choice pieces => ∀ piece ∈ pieces, piece.length < n

/-- A part has been read: the reading goes on at a later position of the text, and what it
has passed counts as the part. -/
structure Read (cs : List Char) (i : ℕ) (part : Part) (next : ℕ) : Prop where
  later : i < next
  inside : next ≤ cs.length
  fits : part.Fits (next - i)
  tally_eq : tally (cs.drop i) = part.tally + tally (cs.drop next)

variable {limit rounds i : ℕ} {c : Char} {cs rest : List Char}

theorem argumentsEnd?_spec {us : List Char} (inside : i ≤ cs.length)
    (named : cs.drop i = (pseudoName us).dropWhile isNameUnit)
    (room : (cs.drop i).length < limit) (time : (cs.drop i).length < rounds) :
    ∃ j, argumentsEnd? limit rounds cs i = some j ∧ i ≤ j ∧ j ≤ cs.length ∧
      cs.drop j = afterPseudo us := by
  rw [argumentsEnd?, ← List.head?_drop, afterPseudo, ← named]
  split
  · next follows =>
      obtain ⟨body, split⟩ := List.head?_eq_some_iff.1 follows
      rw [split, List.length_cons] at room time
      obtain ⟨j, ends, later, inside, rest, -⟩ :=
        groupEnd?_spec .parentheses split room time
      rw [split]
      exact ⟨j, ends, later.le, inside, rest⟩
  · next follows =>
      refine ⟨i, rfl, Nat.le_refl i, inside, ?_⟩
      split
      · next body split => simp [split] at follows
      · rfl

theorem isNameUnit_of_isTypeStart (h : isTypeStart c = true) : isNameUnit c = true := by
  simp only [isTypeStart, isNameUnit, Char.isAlphanum, Bool.or_eq_true] at h ⊢
  tauto

/-- The position behind a colon, or behind two of them. -/
theorem pseudoStart_spec (h : cs.drop i = ':' :: rest) : ∃ j,
    (if rest.head? = some ':' then i + 2 else i + 1) = j ∧ i < j ∧ j ≤ cs.length ∧
      cs.drop j = pseudoName rest := by
  have before := lt_length_of_drop h
  have next := drop_succ_of_drop h
  split
  · next second =>
      obtain ⟨name, split⟩ := List.head?_eq_some_iff.1 second
      rw [split] at next
      have inside := lt_length_of_drop next
      exact ⟨i + 2, rfl, by omega, inside, by rw [drop_succ_of_drop next, split, pseudoName]⟩
  · next single =>
      refine ⟨i + 1, rfl, Nat.lt_succ_self i, before, ?_⟩
      rw [next, pseudoName_of_head single]

/-- The pieces of an argument are read up to its end, and each is shorter than what the
argument takes up. -/
theorem choice_spec (h : cs.drop i = '(' :: rest) (room : rest.length + 1 < limit)
    (time : rest.length + 1 < rounds) :
    ∃ close inner pieces, groupEnd? limit rounds '(' ')' cs i 0 none = some close ∧
      slice? cs (i + 1) (max (close - 1) (i + 1)) = some inner ∧
      cutFrom? limit rounds inner 0 0 0 none = some pieces ∧ i < close ∧ close ≤ cs.length ∧
      cs.drop close = afterGroup '(' ')' rest ∧ pieces = alternatives (argument rest) ∧
      ∀ piece ∈ pieces, piece.length < close - i := by
  obtain ⟨close, ends, later, inside, behind, position⟩ :=
    groupEnd?_spec .parentheses h room time
  have slice := slice?_argument h
  rw [← position] at slice
  have disjoint := length_argument_add_le rest
  have remaining := length_of_drop h
  refine ⟨close, _, _, ends, slice, cutFrom?_eq (by omega) (by omega), later, inside, behind, rfl,
    ?_⟩
  intro piece mem
  have := length_le_of_mem_alternatives mem
  omega

theorem pseudoAt?_spec (h : cs.drop i = ':' :: rest) (room : rest.length + 1 < limit)
    (time : rest.length + 1 < rounds) :
    ∃ part next, pseudoAt? limit rounds cs i = some (part, next) ∧ Read cs i part next := by
  have next := drop_succ_of_drop h
  have remaining := length_of_drop h
  obtain ⟨start, startEq, behind, startInside, name⟩ := pseudoStart_spec h
  obtain ⟨stop, stopEq, stopLater, stopInside, slice, named⟩ :=
    nameEnd?_spec startInside (show cs.length - start < rounds by omega)
  rw [name] at slice named
  have short : (cs.drop stop).length < limit ∧ (cs.drop stop).length < rounds := by
    rw [List.length_drop]
    omega
  obtain ⟨j, endEq, later, inside, dropped⟩ := argumentsEnd?_spec stopInside named short.1 short.2
  have second : cs[i + 1]? = rest.head? := by rw [← List.head?_drop, next]
  have follows : cs[stop]? = ((pseudoName rest).dropWhile isNameUnit).head? := by
    rw [← List.head?_drop, named]
  have word : Text.lower (String.ofList ((pseudoName rest).takeWhile isNameUnit)) =
      pseudoWord rest := rfl
  have split := pseudo_eq rest
  -- every kind but a choice goes on behind its arguments
  have passed {t : Tally} (one : t.total ≤ 1) (weight : (pseudo rest).tally = t) :
      Read cs i (.counted t) j :=
    ⟨by omega, inside, one, by rw [h, tally_colon, weight, dropped, Part.tally]⟩
  simp only [pseudoAt?, second, startEq, stopEq, slice, Option.bind_eq_bind, Option.bind_some,
    word, follows, endEq, Option.pure_def]
  by_cases element : rest.head? = some ':' ∨ pseudoWord rest ∈ singleColonElements
  · rw [if_pos element] at split ⊢
    exact ⟨_, _, rfl, passed (Nat.le_refl 1) (by rw [split]; rfl)⟩
  rw [if_neg element] at split ⊢
  by_cases weightless : pseudoWord rest = "where"
  · rw [if_pos weightless] at split ⊢
    exact ⟨_, _, rfl, passed (Nat.zero_le 1) (by rw [split]; rfl)⟩
  rw [if_neg weightless] at split ⊢
  by_cases choice : ((pseudoName rest).dropWhile isNameUnit).head? = some '(' ∧
      pseudoWord rest ∈ transparentClasses
  · rw [if_pos choice] at split ⊢
    obtain ⟨body, opened⟩ := List.head?_eq_some_iff.1 choice.1
    rw [opened] at named split
    rw [named, List.length_cons] at short
    obtain ⟨close, inner, pieces, ends, cut, cuts, closeLater, closeInside, closed, same,
      shorter⟩ := choice_spec named short.1 short.2
    refine ⟨.choice pieces, close, by rw [ends, Option.bind_some, cut, Option.bind_some, cuts]; rfl,
      by omega, closeInside, fun piece mem => ?_, ?_⟩
    · have := shorter piece mem
      omega
    · rw [h, tally_colon, split, List.tail_cons, ← same, closed, afterPseudo, opened]
      rfl
  · rw [if_neg choice] at split ⊢
    exact ⟨_, _, rfl, passed (Nat.le_refl 1) (by rw [split]; rfl)⟩

/-- At every position of the text there is a part to read. -/
theorem partAt?_spec (before : i < cs.length) (room : cs.length - i < limit)
    (time : cs.length - i < rounds) :
    ∃ part next, partAt? limit rounds cs i = some (part, next) ∧ Read cs i part next := by
  obtain ⟨c, rest, h⟩ := List.exists_cons_of_ne_nil (List.drop_eq_nil_iff.not.2 (not_le.2 before))
  have next := drop_succ_of_drop h
  have remaining := length_of_drop h
  rw [partAt?, getElem?_of_drop h, Option.bind_eq_bind, Option.bind_some]
  obtain ⟨j, found, later, inside, -, dropped⟩ := nameEnd?_spec (Nat.succ_le_of_lt before)
    (show cs.length - (i + 1) < rounds by omega)
  rw [next] at dropped
  by_cases hash : c = '#'
  · subst hash
    refine ⟨.counted .oneId, j, by rw [if_pos rfl, found]; rfl, later, inside, Nat.le_refl 1, ?_⟩
    rw [h, dropped, tally_hash, Part.tally]
  rw [if_neg hash]
  by_cases dot : c = '.'
  · subst dot
    refine ⟨.counted .oneClass, j, by rw [if_pos rfl, found]; rfl, later, inside, Nat.le_refl 1, ?_⟩
    rw [h, dropped, tally_dot, Part.tally]
  rw [if_neg dot]
  by_cases bracket : c = '['
  · subst bracket
    have short : rest.length + 1 < limit ∧ rest.length + 1 < rounds := by omega
    obtain ⟨j, found, later, inside, dropped, -⟩ :=
      groupEnd?_spec .squares h short.1 short.2
    refine ⟨.counted .oneClass, j, by rw [if_pos rfl, found]; rfl, later, inside, Nat.le_refl 1, ?_⟩
    rw [h, dropped, tally_bracket, Part.tally]
  rw [if_neg bracket]
  by_cases colon : c = ':'
  · subst colon
    rw [if_pos rfl]
    exact pseudoAt?_spec h (by omega) (by omega)
  rw [if_neg colon]
  have ordinary : c ∉ openers := by simp [openers, hash, dot, bracket, colon]
  by_cases start : isTypeStart c = true
  · obtain ⟨j, found, -, inside, -, dropped⟩ := nameEnd?_spec before.le time
    rw [h, List.dropWhile_cons_of_pos (isNameUnit_of_isTypeStart start)] at dropped
    have shorter : cs.length - j ≤ rest.length := by
      rw [← List.length_drop, dropped]
      exact length_dropWhile_le isNameUnit rest
    refine ⟨.counted .oneType, j, by rw [if_pos start, found]; rfl, by omega, inside,
      Nat.le_refl 1, ?_⟩
    rw [h, dropped, tally_type start ordinary, Part.tally]
  · have other : isTypeStart c = false := Bool.eq_false_iff.2 start
    refine ⟨.counted .zero, i + 1, if_neg start, Nat.lt_succ_self i, before, Nat.zero_le 1, ?_⟩
    rw [h, next, tally_other other ordinary, Part.tally, Tally.zero_add]

/-! ### All parts -/

/-- A part counts no more parts than there are units between its positions, if this holds of
the pieces of a choice. -/
theorem Part.total_le {part : Part} {n : ℕ} (fits : part.Fits n) (positive : 0 < n)
    (pieces : ∀ piece : List Char, piece.length < n →
      (Selector.tally piece).total ≤ piece.length) : part.tally.total ≤ n := by
  cases part with
  | counted t => exact Nat.le_trans fits positive
  | choice arguments =>
      refine Tally.total_greatest_le fun t ht => ?_
      obtain ⟨piece, mem, rfl⟩ := List.mem_map.1 ht
      exact (pieces piece (fits piece mem)).trans (fits piece mem).le

/-- No more parts are counted than there are units. -/
theorem total_tally_le (cs : List Char) : (tally cs).total ≤ cs.length := by
  by_cases empty : cs = []
  · rw [empty, tally_nil]
    exact Nat.le_refl 0
  obtain ⟨part, next, -, read⟩ := partAt?_spec (i := 0) (List.length_pos_of_ne_nil empty)
    (Nat.lt_succ_self (cs.length - 0)) (Nat.lt_succ_self (cs.length - 0))
  have later := read.later
  have inside := read.inside
  have split := read.tally_eq
  have behind := total_tally_le (cs.drop next)
  have first : part.tally.total ≤ next - 0 :=
    part.total_le read.fits (by omega) fun piece short => total_tally_le piece
  rw [List.length_drop] at behind
  rw [← List.drop_zero (l := cs), split, Tally.total_add, List.drop_zero]
  omega
termination_by cs.length
decreasing_by
  · rw [List.length_drop]
    omega
  · omega

/-- The units of any bytes, whether or not they are the bytes of a text. -/
def ofBytes (bytes : List UInt8) : List Char := bytes.map fun byte => Char.ofNat byte.toNat

theorem units_eq_ofBytes (text : String) :
    units text = ofBytes (text.toList.flatMap String.utf8EncodeChar) := by
  rw [units, ofBytes, List.map_flatMap]

end Stylesheet.Selector
