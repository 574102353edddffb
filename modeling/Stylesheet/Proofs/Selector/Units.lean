import Stylesheet.Proofs.Lists
import Stylesheet.Proofs.Selector.Nesting
import Stylesheet.Selector.Tally

/-!
# The units of a text

A character of ASCII is its own only unit, and every other character has units that are
outside ASCII. So brackets, quotes and commas stand for themselves, a text is well
nested in its units if it is in its characters, and a name is one of the words that the
scanner knows exactly if its units are.
-/

namespace Stylesheet.Selector

/-- The UTF-8 units of one character. -/
def charUnits (c : Char) : List Char :=
  (String.utf8EncodeChar c).map fun unit => Char.ofNat unit.toNat

/-- The units of a list of characters. -/
def textUnits (cs : List Char) : List Char := cs.flatMap charUnits

theorem units_ofList (cs : List Char) : units (String.ofList cs) = textUnits cs := by
  rw [units, String.toList_ofList]
  rfl

variable {c u : Char} {cs ds : List Char}

@[simp] theorem textUnits_nil : textUnits [] = [] := rfl

@[simp] theorem textUnits_append (cs ds : List Char) :
    textUnits (cs ++ ds) = textUnits cs ++ textUnits ds :=
  List.flatMap_append ..

theorem textUnits_cons (c : Char) (cs : List Char) :
    textUnits (c :: cs) = charUnits c ++ textUnits cs :=
  List.flatMap_cons ..

theorem charUnits_of_ascii (h : c.toNat < 0x80) : charUnits c = [c] := by
  have small : c.val.toNat ≤ 0x7f := Nat.le_of_lt_succ h
  have byte : (UInt8.ofNat c.val.toNat).toNat = c.toNat := by
    rw [UInt8.toNat_ofNat', Nat.mod_eq_of_lt (by omega)]
    rfl
  simp only [charUnits, String.utf8EncodeChar, small, if_true, List.map_cons, List.map_nil, byte,
    Char.ofNat_toNat]

theorem high_of_mem_utf8EncodeChar {byte : UInt8} (h : 0x80 ≤ c.toNat)
    (hb : byte ∈ String.utf8EncodeChar c) : 0x80 ≤ byte.toNat := by
  have large : ¬ c.val.toNat ≤ 0x7f := by
    change 0x80 ≤ c.val.toNat at h
    omega
  simp only [String.utf8EncodeChar, large, if_false] at hb
  split at hb
  · simp only [List.mem_cons, List.not_mem_nil, or_false] at hb
    rcases hb with rfl | rfl <;> rw [UInt8.toNat_ofNat'] <;> omega
  · split at hb
    · simp only [List.mem_cons, List.not_mem_nil, or_false] at hb
      rcases hb with rfl | rfl | rfl <;> rw [UInt8.toNat_ofNat'] <;> omega
    · simp only [List.mem_cons, List.not_mem_nil, or_false] at hb
      rcases hb with rfl | rfl | rfl | rfl <;> rw [UInt8.toNat_ofNat'] <;> omega

theorem toNat_ofNat_byte (byte : UInt8) : (Char.ofNat byte.toNat).toNat = byte.toNat := by
  have small : byte.toNat < 256 := byte.toNat_lt
  have valid : Nat.isValidChar byte.toNat := Or.inl (by omega)
  rw [Char.ofNat, dif_pos valid]
  rfl

/-- The units of a character outside ASCII are outside ASCII. -/
theorem high_of_mem_charUnits (h : 0x80 ≤ c.toNat) (hu : u ∈ charUnits c) : 0x80 ≤ u.toNat := by
  obtain ⟨byte, hb, rfl⟩ := List.mem_map.1 hu
  rw [toNat_ofNat_byte]
  exact high_of_mem_utf8EncodeChar h hb

theorem charUnits_ne_nil (c : Char) : charUnits c ≠ [] := by
  simp [charUnits, String.utf8EncodeChar_ne_nil]

theorem textUnits_cons_of_ascii (h : c.toNat < 0x80) (cs : List Char) :
    textUnits (c :: cs) = c :: textUnits cs := by
  rw [textUnits_cons, charUnits_of_ascii h, List.singleton_append]

theorem textUnits_of_ascii (h : ∀ c ∈ cs, c.toNat < 0x80) : textUnits cs = cs := by
  induction cs with
  | nil => rfl
  | cons c cs ih =>
      rw [textUnits_cons_of_ascii (h c List.mem_cons_self),
        ih fun d hd => h d (List.mem_cons_of_mem _ hd)]

/-- A unit of ASCII is a character of the text. -/
theorem mem_of_mem_textUnits (h : u ∈ textUnits cs) (ascii : u.toNat < 0x80) : u ∈ cs := by
  obtain ⟨c, hc, hu⟩ := List.mem_flatMap.1 h
  by_cases small : c.toNat < 0x80
  · rw [charUnits_of_ascii small, List.mem_singleton] at hu
    rwa [hu]
  · have := high_of_mem_charUnits (Nat.le_of_not_lt small) hu
    omega

/-! ### Nesting -/

theorem ascii_of_mem_marks : ∀ c ∈ marks, c.toNat < 0x80 := forall_mem_of_all (by decide)

theorem Nested.units {commas : Bool} (h : Nested commas cs) : Nested commas (textUnits cs) := by
  induction h with
  | nil => exact .nil
  | @plain commas c cs unmarked comma _ ih =>
      by_cases small : c.toNat < 0x80
      · rw [textUnits_cons_of_ascii small]
        exact .plain unmarked comma ih
      · have high : ∀ u ∈ charUnits c, 0x80 ≤ u.toNat :=
          fun u hu => high_of_mem_charUnits (Nat.le_of_not_lt small) hu
        rw [textUnits_cons]
        refine Nested.append (.of_unmarked ?_ ?_) ih
        · intro u hu marked
          have := ascii_of_mem_marks u marked
          have := high u hu
          omega
        · rintro u hu rfl
          exact absurd (high _ hu) (by decide)
  | @quoted commas q inner cs quote inside _ ih =>
      have small : q.toNat < 0x80 := by rcases quote with rfl | rfl <;> decide
      rw [textUnits_cons_of_ascii small, textUnits_append, textUnits_cons_of_ascii small]
      exact .quoted quote (fun h => inside (mem_of_mem_textUnits h small)) ih
  | @group commas opening closing inner cs pair _ _ ihInner ih =>
      obtain ⟨openingMark, closingMark, -⟩ := of_mem_brackets pair
      rw [textUnits_cons_of_ascii (ascii_of_mem_marks _ openingMark), textUnits_append,
        textUnits_cons_of_ascii (ascii_of_mem_marks _ closingMark)]
      exact .group pair ihInner ih

/-! ### Letter case -/

theorem toLower_of_high (h : 0x80 ≤ c.toNat) : c.toLower = c := by
  unfold Char.toLower
  rw [dif_neg]
  rintro ⟨-, upper⟩
  have : c.toNat ≤ 90 := upper
  omega

theorem lower_ofList (cs : List Char) :
    Text.lower (String.ofList cs) = String.ofList (cs.map Char.toLower) := by
  rw [Text.lower, String.toList_ofList]

/-- Whether a word has characters of ASCII only. -/
def isAscii (word : String) : Bool := word.toList.all fun c => c.toNat < 0x80

theorem lower_ne_of_high {word : String} (ascii : isAscii word = true) (hc : c ∈ cs)
    (high : 0x80 ≤ c.toNat) : Text.lower (String.ofList cs) ≠ word := by
  rintro rfl
  have member : c ∈ cs.map Char.toLower :=
    List.mem_map.2 ⟨c, hc, toLower_of_high high⟩
  rw [isAscii, lower_ofList, String.toList_ofList] at ascii
  have := of_decide_eq_true (List.all_eq_true.1 ascii c member)
  omega

/-- A word of ASCII is recognized in the units of a text as it is in the text. -/
theorem lower_textUnits_eq_iff {word : String} (ascii : isAscii word = true) :
    Text.lower (String.ofList (textUnits cs)) = word ↔ Text.lower (String.ofList cs) = word := by
  by_cases outside : ∃ c ∈ cs, 0x80 ≤ c.toNat
  · obtain ⟨c, hc, high⟩ := outside
    obtain ⟨u, hu⟩ := List.exists_mem_of_ne_nil _ (charUnits_ne_nil c)
    have unit : u ∈ textUnits cs := List.mem_flatMap.2 ⟨c, hc, hu⟩
    exact iff_of_false (lower_ne_of_high ascii unit (high_of_mem_charUnits high hu))
      (lower_ne_of_high ascii hc high)
  · have small : ∀ c ∈ cs, c.toNat < 0x80 :=
      fun c hc => Nat.lt_of_not_le fun high => outside ⟨c, hc, high⟩
    rw [textUnits_of_ascii small]

end Stylesheet.Selector
