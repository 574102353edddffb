import Mathlib
import Stylesheet.Proofs.Lists
import Stylesheet.Proofs.Sheet.Frame
import Stylesheet.Proofs.Text.Blank
import Stylesheet.Selector.Filter

/-!
# The texts of specificity filters

A filter is spelled as a comparison, which may be left out, and a number in decimal digits.
Blanks may stand in front of the two, between them and behind them, and the number may start
with zeros, as long as it is a 32-bit number. The texts spelled so are exactly the texts that
are read as a filter, each as the filter that it spells, and the text of a filter is one of
its spellings. Every other text is refused with an error that keeps it as it is.
-/

namespace Stylesheet

/-! ### Decimal numbers -/

/-- The number that decimal digits denote, the last of them for the ones. -/
def decimal (digits : List (Fin 10)) : ℕ := Nat.ofDigits 10 (digits.reverse.map Fin.val)

def digitChar (d : Fin 10) : Char := Nat.digitChar d

def digitText (digits : List (Fin 10)) : List Char := digits.map digitChar

theorem decimal_cons (d : Fin 10) (ds : List (Fin 10)) :
    decimal (d :: ds) = 10 ^ ds.length * d + decimal ds := by
  simp only [decimal, List.reverse_cons, List.map_append, List.map_cons, List.map_nil,
    Nat.ofDigits_append, Nat.ofDigits_singleton, List.length_map, List.length_reverse]
  omega

theorem ofDigitChars_digitText (ds : List (Fin 10)) :
    Nat.ofDigitChars 10 (digitText ds) 0 = decimal ds := by
  induction ds with
  | nil => rfl
  | cons d ds ih =>
      calc Nat.ofDigitChars 10 (digitText (d :: ds)) 0
          = Nat.ofDigitChars 10 (digitText ds) (10 * 0 + d) :=
            Nat.ofDigitChars_cons_digitChar_of_lt_ten d.isLt
        _ = 10 ^ (digitText ds).length * (10 * 0 + d) + Nat.ofDigitChars 10 (digitText ds) 0 :=
            Nat.ofDigitChars_eq_ofDigitChars_zero
        _ = decimal (d :: ds) := by
            rw [ih, decimal_cons, digitText, List.length_map, Nat.mul_zero, Nat.zero_add]

/-- The characters that are digits, one by one. -/
theorem isDigit_iff {c : Char} : c.isDigit = true ↔ ∃ d, digitChar d = c := by
  constructor
  · intro digit
    simp only [Char.isDigit, Bool.and_eq_true, decide_eq_true_eq] at digit
    have least : 48 ≤ c.toNat := digit.1
    have most : c.toNat ≤ 57 := digit.2
    have small : c.toNat - 48 < 10 := by omega
    refine ⟨⟨c.toNat - 48, small⟩, Char.toNat_inj.1 ?_⟩
    rw [digitChar, Nat.toNat_digitChar_of_lt_ten small]
    omega
  · rintro ⟨d, rfl⟩
    revert d
    decide

theorem exists_digitText_iff {cs : List Char} :
    (∃ ds, digitText ds = cs) ↔ ∀ c ∈ cs, c.isDigit = true := by
  simp only [isDigit_iff]
  exact Set.ext_iff.1 (Set.range_list_map digitChar) cs

/-- A threshold is a number below 2 ^ 32, in at least one digit. -/
theorem threshold?_eq_some_iff {cs : List Char} {n : UInt32} :
    threshold? cs = some n ↔ ∃ ds, ds ≠ [] ∧ digitText ds = cs ∧ decimal ds = n.toNat := by
  have guard : threshold? cs = some n ↔
      (cs ≠ [] ∧ cs.all Char.isDigit = true ∧ Nat.ofDigitChars 10 cs 0 < UInt32.size) ∧
        UInt32.ofNat (Nat.ofDigitChars 10 cs 0) = n := by
    simp [threshold?, and_assoc]
  rw [guard, List.all_eq_true, ← exists_digitText_iff]
  constructor
  · rintro ⟨⟨inhabited, ⟨ds, rfl⟩, small⟩, rfl⟩
    rw [ofDigitChars_digitText] at small ⊢
    refine ⟨ds, ?_, rfl, (UInt32.toNat_ofNat_of_lt' small).symm⟩
    rintro rfl
    exact inhabited rfl
  · rintro ⟨ds, inhabited, rfl, value⟩
    rw [ofDigitChars_digitText, value]
    exact ⟨⟨by simpa [digitText] using inhabited, ⟨ds, rfl⟩, n.toNat_lt⟩, UInt32.ofNat_toNat⟩

theorem threshold?_toString (n : UInt32) : threshold? (toString n.toNat).toList = some n := by
  have digits : ∀ c ∈ Nat.toDigits 10 n.toNat, c.isDigit = true :=
    fun c => Nat.isDigit_of_mem_toDigits (by decide) (by decide)
  obtain ⟨ds, text⟩ := exists_digitText_iff.2 digits
  rw [Nat.toString_eq_ofList_toDigits, String.toList_ofList]
  refine threshold?_eq_some_iff.2 ⟨ds, ?_, text, ?_⟩
  · rintro rfl
    exact Nat.toDigits_ne_nil text.symm
  · rw [← ofDigitChars_digitText, text, Nat.ofDigitChars_ten_toDigits]

/-! ### Comparisons -/

namespace Comparison

variable {c : Comparison} {cs rest : List Char}

/-- How a comparison relates two numbers. -/
def Relates : Comparison → ℕ → ℕ → Prop
  | .equal, m, n => m = n
  | .notEqual, m, n => m ≠ n
  | .greater, m, n => m > n
  | .greaterOrEqual, m, n => m ≥ n
  | .less, m, n => m < n
  | .lessOrEqual, m, n => m ≤ n

instance decidableRelates (c : Comparison) (m n : ℕ) : Decidable (c.Relates m n) :=
  match c with
  | .equal => inferInstanceAs (Decidable (m = n))
  | .notEqual => inferInstanceAs (Decidable (m ≠ n))
  | .greater => inferInstanceAs (Decidable (m > n))
  | .greaterOrEqual => inferInstanceAs (Decidable (m ≥ n))
  | .less => inferInstanceAs (Decidable (m < n))
  | .lessOrEqual => inferInstanceAs (Decidable (m ≤ n))

theorem holds_iff {m n : UInt32} : c.holds m n = true ↔ c.Relates m.toNat n.toNat := by
  cases c <;> simp [holds, Relates, UInt32.lt_iff_toNat_lt, UInt32.le_iff_toNat_le,
    ← UInt32.toNat_inj]

/-- The characters that comparisons consist of. -/
def marks : List Char := ['=', '!', '<', '>']

theorem read_of_unmarked (h : ∀ d ∈ cs.head?, d ∉ marks) : read cs = (.equal, cs) := by
  unfold read
  split <;> simp_all [marks]

/-- A comparison is read from its symbol, in front of anything but an equality sign. -/
theorem read_symbol_append (h : rest.head? ≠ some '=') :
    read (c.symbol.toList ++ rest) = (c, rest) := by
  cases rest with
  | nil => cases c <;> rfl
  | cons d rest =>
      have other : d ≠ '=' := by simpa using h
      cases c <;> simp [symbol, read, other]

theorem of_read (h : read cs = (c, rest)) :
    cs = c.symbol.toList ++ rest ∨ c = .equal ∧ cs = rest := by
  unfold read at h
  split at h <;> cases h
  case h_7 => exact Or.inr ⟨rfl, rfl⟩
  all_goals exact Or.inl rfl

end Comparison

/-- No digit is blank, and none is part of a comparison. -/
theorem of_mem_digitText {ds : List (Fin 10)} {c : Char} (h : c ∈ digitText ds) :
    Text.isBlank c = false ∧ c ∉ Comparison.marks := by
  have all : ∀ d, Text.isBlank (digitChar d) = false ∧ digitChar d ∉ Comparison.marks := by decide
  obtain ⟨d, -, rfl⟩ := List.mem_map.1 h
  exact all d

/-! ### Spellings -/

/-- The text of a filter in parts: the comparison, if there is one, the digits of the
number, and the blanks around them. -/
structure Spelling where
  before : List Char
  comparison : Option Comparison
  between : List Char
  digits : List (Fin 10)
  after : List Char
  front : ∀ c ∈ before, Text.isBlank c = true
  middle : ∀ c ∈ between, Text.isBlank c = true
  behind : ∀ c ∈ after, Text.isBlank c = true
  inhabited : digits ≠ []
  small : decimal digits < 2 ^ 32

namespace Spelling

variable (s : Spelling)

def text : List Char :=
  s.before ++ ((s.comparison.map (·.symbol.toList)).getD [] ++
    (s.between ++ (digitText s.digits ++ s.after)))

/-- The filter that is spelled. Without a comparison it asks for equality. -/
def filter : SpecificityFilter := ⟨s.comparison.getD .equal, UInt32.ofNat (decimal s.digits)⟩

theorem threshold?_digits : threshold? (digitText s.digits) = some s.filter.threshold := by
  have small : decimal s.digits < UInt32.size := s.small
  have value : s.filter.threshold.toNat = decimal s.digits := by
    rw [filter, UInt32.toNat_ofNat_of_lt' small]
  rw [threshold?_eq_some_iff]
  exact ⟨s.digits, s.inhabited, rfl, value.symm⟩

theorem trimStart_digits : Text.trimStart (digitText s.digits) = digitText s.digits :=
  Text.trimStart_of_head fun _ hc => (of_mem_digitText (List.mem_of_mem_head? hc)).1

/-- No part of a comparison stands behind it. -/
theorem not_mem_marks {c : Char} (h : c ∈ s.between ++ digitText s.digits) :
    c ∉ Comparison.marks := by
  have solid : ∀ c ∈ Comparison.marks, Text.isBlank c = false :=
    forall_mem_of_all (by decide)
  rcases List.mem_append.1 h with hc | hc
  · intro mark
    exact Bool.false_ne_true ((solid c mark).symm.trans (s.middle c hc))
  · exact (of_mem_digitText hc).2

/-- Nothing is blank at the end of a text with digits at its end. -/
theorem last_of_digits (cs : List Char) :
    ∀ c ∈ (cs ++ digitText s.digits).getLast?, Text.isBlank c = false := by
  have digits : digitText s.digits ≠ [] := by simpa [digitText] using s.inhabited
  intro c hc
  rw [List.getLast?_append_of_ne_nil cs digits] at hc
  exact (of_mem_digitText (List.mem_of_getLast? hc)).1

/-- The comparison is taken off the front, if there is one. -/
theorem exists_read : ∃ rest,
    Comparison.read (Text.trim s.text) = (s.filter.comparison, rest) ∧
      Text.trimStart rest = digitText s.digits := by
  cases h : s.comparison with
  | none =>
      have whole : s.text = (s.before ++ s.between) ++ (digitText s.digits ++ s.after) := by
        simp [text, h]
      have front : ∀ c ∈ s.before ++ s.between, Text.isBlank c = true :=
        List.forall_mem_append.2 ⟨s.front, s.middle⟩
      have trimmed : Text.trim s.text = digitText s.digits := by
        rw [whole, Text.trim_surrounded front s.behind]
        exact Text.trim_of_not_blank fun c hc => (of_mem_digitText hc).1
      refine ⟨digitText s.digits, ?_, s.trimStart_digits⟩
      rw [trimmed, filter, h]
      exact Comparison.read_of_unmarked fun c hc => (of_mem_digitText (List.mem_of_mem_head? hc)).2
  | some c =>
      have whole : s.text =
          s.before ++ ((c.symbol.toList ++ (s.between ++ digitText s.digits)) ++ s.after) := by
        simp [text, h]
      have first : ∀ d ∈ (c.symbol.toList ++ (s.between ++ digitText s.digits)).head?,
          Text.isBlank d = false := by
        cases c <;> simp [Comparison.symbol] <;> decide
      have trimmed : Text.trim s.text = c.symbol.toList ++ (s.between ++ digitText s.digits) := by
        rw [whole, Text.trim_surrounded s.front s.behind]
        refine Text.trim_of_ends first ?_
        rw [← List.append_assoc]
        exact s.last_of_digits _
      refine ⟨s.between ++ digitText s.digits, ?_, ?_⟩
      · rw [trimmed, filter, h]
        refine Comparison.read_symbol_append fun equality => ?_
        exact s.not_mem_marks (List.mem_of_mem_head? equality) (by decide)
      · rw [Text.trimStart, List.dropWhile_append_of_pos s.middle]
        exact s.trimStart_digits

end Spelling

namespace SpecificityFilter

variable {text : String} {f : SpecificityFilter}

/-- Reading takes the comparison off the front and a number is left. -/
theorem read_eq_ok : read text = .ok f ↔ ∃ rest,
    Comparison.read (Text.trim text.toList) = (f.comparison, rest) ∧
      threshold? (Text.trimStart rest) = some f.threshold := by
  rcases split : Comparison.read (Text.trim text.toList) with ⟨c, rest⟩
  cases number : threshold? (Text.trimStart rest) with
  | none => simp [read, split, number]
  | some n => 
      obtain ⟨comparison, threshold⟩ := f
      simp [read, split, number]

theorem read_eq_error {e : Error} :
    read text = .error e ↔ e = .invalidFilter text ∧ ¬∃ f, read text = .ok f := by
  rcases split : Comparison.read (Text.trim text.toList) with ⟨c, rest⟩
  cases number : threshold? (Text.trimStart rest) with
  | none => simp [read, split, number, eq_comm]
  | some n => simp [read, split, number]

theorem read_of_spelling (s : Spelling) (spelled : s.text = text.toList) :
    read text = .ok s.filter := by
  obtain ⟨rest, split, digits⟩ := s.exists_read
  rw [spelled] at split
  refine read_eq_ok.2 ⟨rest, split, ?_⟩
  rw [digits, s.threshold?_digits]

theorem exists_spelling (h : read text = .ok f) :
    ∃ s : Spelling, s.text = text.toList ∧ s.filter = f := by
  obtain ⟨rest, split, number⟩ := read_eq_ok.1 h
  obtain ⟨ds, inhabited, digits, value⟩ := threshold?_eq_some_iff.1 number
  obtain ⟨before, after, whole, front, behind⟩ := Text.exists_surrounded text.toList
  have small : decimal ds < 2 ^ 32 := value ▸ f.threshold.toNat_lt
  have threshold : UInt32.ofNat (decimal ds) = f.threshold := by rw [value, UInt32.ofNat_toNat]
  obtain ⟨between, middle, rfl⟩ :
      ∃ between, (∀ c ∈ between, Text.isBlank c = true) ∧ rest = between ++ digitText ds := by
    refine ⟨rest.takeWhile Text.isBlank, fun c hc => List.mem_takeWhile_imp hc, ?_⟩
    rw [digits, Text.trimStart, List.takeWhile_append_dropWhile]
  rcases Comparison.of_read split with trimmed | ⟨equality, trimmed⟩
  · refine ⟨⟨before, some f.comparison, between, ds, after, front, middle, behind, inhabited,
      small⟩, ?_, ?_⟩
    · rw [whole, trimmed]
      simp [Spelling.text]
    · simp [Spelling.filter, threshold]
  · refine ⟨⟨before, none, between, ds, after, front, middle, behind, inhabited, small⟩, ?_, ?_⟩
    · rw [whole, trimmed]
      simp [Spelling.text]
    · simp [Spelling.filter, threshold, ← equality]

theorem read_eq_ok_iff :
    read text = .ok f ↔ ∃ s : Spelling, s.text = text.toList ∧ s.filter = f := by
  constructor
  · exact exists_spelling
  · rintro ⟨s, spelled, rfl⟩
    exact read_of_spelling s spelled

theorem read_eq_error_iff {e : Error} :
    read text = .error e ↔ e = .invalidFilter text ∧ ¬∃ s : Spelling, s.text = text.toList := by
  rw [read_eq_error]
  simp only [read_eq_ok_iff]
  grind

/-- The text of a filter is one of its spellings. -/
theorem read_text (f : SpecificityFilter) : read f.text = .ok f := by
  obtain ⟨ds, inhabited, digits, value⟩ :=
    threshold?_eq_some_iff.1 (threshold?_toString f.threshold)
  have small : decimal ds < 2 ^ 32 := value ▸ f.threshold.toNat_lt
  have blank : ∀ c ∈ [' '], Text.isBlank c = true := forall_mem_of_all (by decide)
  rw [read_eq_ok_iff]
  refine ⟨⟨[], some f.comparison, [' '], ds, [], by simp, blank, by simp, inhabited, small⟩, ?_, ?_⟩
  · simp [Spelling.text, text, digits]
  · simp [Spelling.filter, value]

theorem accepts_iff {s : Selector} :
    f.accepts s = true ↔ f.comparison.Relates s.weight.toNat f.threshold.toNat :=
  Comparison.holds_iff

/-- The selectors of the blocks among all nodes, in document order, whose weight is related to
the threshold as the comparison says. -/
theorem selectors_eq_filter (f : SpecificityFilter) (ns : List Node) :
    Sheet.selectors (some f) ns =
      (((Sheet.nodes ns).filterMap Node.block?).flatMap (·.selectors)).filter fun s =>
        f.comparison.Relates s.weight.toNat f.threshold.toNat := by
  rw [Sheet.selectors, Sheet.blocks_eq_filterMap_nodes]
  congr 1
  funext s
  rw [Option.all_some, Bool.eq_iff_iff, accepts_iff, decide_eq_true_iff]

theorem selectorsMatching_eq_error {e : Error} {ns : List Node} :
    Sheet.selectorsMatching text ns = .error e ↔ read text = .error e := by
  rw [Sheet.selectorsMatching]
  cases read text <;> simp [Except.map]

theorem selectorsMatching_eq_ok {found : List Selector} {ns : List Node} :
    Sheet.selectorsMatching text ns = .ok found ↔
      ∃ f, read text = .ok f ∧ found = Sheet.selectors (some f) ns := by
  rw [Sheet.selectorsMatching]
  cases read text <;> simp [Except.map, eq_comm]

/-- A text is read as a filter exactly if it spells one, every other text is an error that
keeps it, and the texts of filters are among the spellings. Collecting selectors by a text
fails on the same texts and with the same error, and by the spelling of a filter it gives the
selectors of all blocks whose weight is related to the threshold, in document order. -/
theorem read_iff_spelled (text : String) :
    (∀ f, read text = .ok f ↔ ∃ s : Spelling, s.text = text.toList ∧ s.filter = f) ∧
      (∀ e, read text = .error e ↔
        e = .invalidFilter text ∧ ¬∃ s : Spelling, s.text = text.toList) ∧
      (∀ f : SpecificityFilter, read f.text = .ok f) ∧
      ∀ ns : List Node,
        (∀ e, Sheet.selectorsMatching text ns = .error e ↔
          e = .invalidFilter text ∧ ¬∃ s : Spelling, s.text = text.toList) ∧
        ∀ found, Sheet.selectorsMatching text ns = .ok found ↔
          ∃ s : Spelling, s.text = text.toList ∧
            found = (((Sheet.nodes ns).filterMap Node.block?).flatMap (·.selectors)).filter
              fun selector =>
                s.filter.comparison.Relates selector.weight.toNat s.filter.threshold.toNat := by
  refine ⟨fun f => read_eq_ok_iff, fun e => read_eq_error_iff, read_text, fun ns => ⟨?_, ?_⟩⟩
  · intro e
    rw [selectorsMatching_eq_error, read_eq_error_iff]
  · intro found
    simp only [selectorsMatching_eq_ok, read_eq_ok_iff, selectors_eq_filter]
    constructor
    · rintro ⟨f, ⟨s, spelled, rfl⟩, rfl⟩
      exact ⟨s, spelled, rfl⟩
    · rintro ⟨s, spelled, rfl⟩
      exact ⟨s.filter, ⟨s, spelled, rfl⟩, rfl⟩

end SpecificityFilter

end Stylesheet
