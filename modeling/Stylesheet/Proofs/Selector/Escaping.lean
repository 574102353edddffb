import Mathlib
import Stylesheet.Proofs.Selector.Pseudo

/-!
# Escaped names

A name is escaped by a backslash in front of every character of ASCII that may not stand in
a name by itself. The backslash belongs to the name, but not the character behind it: the
name ends there, and what is left is scanned as more parts of the selector. So an escaped
name is counted as one part exactly if what follows its first escaped foreign character is
passed over.
-/

namespace Stylesheet.Selector

/-- Whether a character has to be escaped in a name. -/
def isSpecial (c : Char) : Bool :=
  c.toNat < 0x80 && !(c.isAlphanum || c = '-' || c = '_')

/-- A name with a backslash before every special character. -/
def escaped : List Char → List Char
  | [] => []
  | c :: cs => if isSpecial c then '\\' :: c :: escaped cs else c :: escaped cs

/-- Whether nothing counts in some characters once they are escaped: none of them starts a
part, but for a `:where` at the end. -/
def silent : List Char → Bool
  | [] => true
  | c :: cs =>
    if c = ':' then Text.lower (String.ofList cs) = "where"
    else !isTypeStart c && c ∉ openers && silent cs

/-! ### Counts -/

namespace Tally

theorem add_eq_left_iff (s t : Tally) : s + t = s ↔ t = zero := by
  have same := add_left_cancel_iff s (t := t) (u := zero)
  rwa [add_zero] at same

theorem add_ne_zero {s : Tally} (h : s ≠ zero) (t : Tally) : s + t ≠ zero := by
  cases s
  cases t
  simp only [add_def, zero, ne_eq, mk.injEq] at h ⊢
  omega

/-- A count below the greatest 32-bit number is the count of no other tally. -/
theorem toSpecificity_eq_iff {s t : Tally} (ids : s.ids < 2 ^ 32 - 1)
    (classes : s.classes < 2 ^ 32 - 1) (types : s.types < 2 ^ 32 - 1) :
    t.toSpecificity = s.toSpecificity ↔ t = s := by
  have same {m n : ℕ} (small : n < 2 ^ 32 - 1) : saturate m = saturate n ↔ m = n := by
    have size : UInt32.size = 2 ^ 32 := rfl
    rw [← UInt32.toNat_inj, toNat_saturate, toNat_saturate]
    omega
  cases s
  cases t
  simp only [toSpecificity, Specificity.mk.injEq, mk.injEq, same ids, same classes, same types]

end Tally

/-! ### Where an escaped name ends -/

variable {c u : Char} {cs : List Char}

theorem isNameUnit_of_not_special (h : isSpecial c = false) : isNameUnit c = true := by
  by_cases small : c.toNat < 0x80
  · simp only [isSpecial, small, decide_true, Bool.true_and, Bool.not_eq_false'] at h
    rw [isNameUnit, h, Bool.true_or, Bool.true_or]
  · exact isNameUnit_of_high (Nat.le_of_not_lt small)

theorem ascii_of_special (h : isSpecial c = true) : c.toNat < 0x80 := by
  rw [isSpecial, Bool.and_eq_true] at h
  exact of_decide_eq_true h.1

theorem textUnits_special (h : isSpecial c = true) (cs : List Char) :
    textUnits (escaped (c :: cs)) = '\\' :: c :: textUnits (escaped cs) := by
  rw [escaped, if_pos h, textUnits_cons_of_ascii (by decide),
    textUnits_cons_of_ascii (ascii_of_special h)]

theorem textUnits_unescaped (h : isSpecial c = false) (cs : List Char) :
    textUnits (escaped (c :: cs)) = charUnits c ++ textUnits (escaped cs) := by
  rw [escaped, if_neg (by simp [h]), textUnits_cons]

/-- Outside a name the backslash is passed over. -/
theorem tally_escaped_cons (c : Char) (cs : List Char) :
    tally (textUnits (escaped (c :: cs))) = tally (charUnits c ++ textUnits (escaped cs)) := by
  by_cases special : isSpecial c = true
  · rw [textUnits_special special, tally_other (by decide) (by decide),
      charUnits_of_ascii (ascii_of_special special), List.singleton_append]
  · rw [textUnits_unescaped (Bool.eq_false_iff.2 special)]

theorem special_of_foreign (h : isNameUnit c = false) : isSpecial c = true := by
  by_contra plain
  rw [isNameUnit_of_not_special (Bool.eq_false_iff.2 plain)] at h
  cases h

/-- A character of a name stands for name units only, also if it is a backslash. -/
theorem exists_textUnits_named (h : isNameUnit c = true) (cs : List Char) :
    ∃ run, (∀ u ∈ run, isNameUnit u = true) ∧
      textUnits (escaped (c :: cs)) = run ++ textUnits (escaped cs) := by
  by_cases special : isSpecial c = true
  · refine ⟨['\\', c], ?_, textUnits_special special cs⟩
    simp only [List.mem_cons, List.not_mem_nil, or_false, forall_eq_or_imp, forall_eq]
    exact ⟨by decide, h⟩
  · exact ⟨charUnits c, fun u hu => isNameUnit_of_mem_charUnits h hu,
      textUnits_unescaped (Bool.eq_false_iff.2 special) cs⟩

/-- The name goes on up to the first character that is foreign to names. -/
theorem tally_dropWhile_escaped (cs : List Char) :
    tally ((textUnits (escaped cs)).dropWhile isNameUnit) =
      tally (textUnits (escaped (cs.dropWhile isNameUnit))) := by
  induction cs with
  | nil => rfl
  | cons c cs ih =>
      by_cases named : isNameUnit c = true
      · obtain ⟨run, units, split⟩ := exists_textUnits_named named cs
        rw [List.dropWhile_cons_of_pos named, split, List.dropWhile_append_of_pos units, ih]
      · have special := special_of_foreign (Bool.eq_false_iff.2 named)
        rw [List.dropWhile_cons_of_neg named, textUnits_special special,
          List.dropWhile_cons_of_pos (by decide), List.dropWhile_cons_of_neg named,
          tally_other (c := '\\') (by decide) (by decide)]

/-! ### The word behind an escaped colon -/

theorem head_escaped (cs : List Char) : (textUnits (escaped cs)).head? ≠ some ':' := by
  cases cs with
  | nil => simp [escaped]
  | cons c cs =>
      by_cases special : isSpecial c = true
      · rw [textUnits_special special, List.head?_cons]
        decide
      · have plain : isSpecial c = false := Bool.eq_false_iff.2 special
        rw [textUnits_unescaped plain]
        exact head_ne_colon
          (fun u hu => isNameUnit_of_mem_charUnits (isNameUnit_of_not_special plain) hu)
          (charUnits_ne_nil c) _

/-- An escaped text is a name as a whole, or the name in front of its first character that
is foreign to names ends with a backslash. -/
theorem escaped_named_or (cs : List Char) :
    ((∀ c ∈ cs, isNameUnit c = true) ∧ ∀ u ∈ textUnits (escaped cs), isNameUnit u = true) ∨
      (∃ c ∈ cs, isNameUnit c = false) ∧
        '\\' ∈ (textUnits (escaped cs)).takeWhile isNameUnit := by
  induction cs with
  | nil => exact Or.inl ⟨by simp, by simp [escaped]⟩
  | cons c cs ih =>
      by_cases named : isNameUnit c = true
      · obtain ⟨run, units, split⟩ := exists_textUnits_named named cs
        rw [split, List.takeWhile_append_of_pos units]
        rcases ih with ⟨chars, rest⟩ | ⟨⟨d, hd, foreign⟩, backslash⟩
        · refine Or.inl ⟨List.forall_mem_cons.2 ⟨named, chars⟩, fun u hu => ?_⟩
          exact (List.mem_append.1 hu).elim (units u) (rest u)
        · exact Or.inr ⟨⟨d, List.mem_cons_of_mem _ hd, foreign⟩, List.mem_append_right _ backslash⟩
      · have foreign : isNameUnit c = false := Bool.eq_false_iff.2 named
        refine Or.inr ⟨⟨c, List.mem_cons_self, foreign⟩, ?_⟩
        rw [textUnits_special (special_of_foreign foreign), List.takeWhile_cons_of_pos (by decide)]
        exact List.mem_cons_self

theorem toLower_of_foreign (h : isNameUnit c = false) : c.toLower = c := by
  unfold Char.toLower
  rw [dif_neg]
  rintro upper
  have letter : c.isUpper = true := by simpa [Char.isUpper] using upper
  rw [isNameUnit, Char.isAlphanum, Char.isAlpha, letter] at h
  cases h

/-- No word with a backslash is one that the scanner knows. -/
theorem lower_ne_of_backslash {word : String} (plain : '\\' ∉ word.toList) (h : '\\' ∈ cs) :
    Text.lower (String.ofList cs) ≠ word := by
  rintro rfl
  rw [lower_ofList, String.toList_ofList] at plain
  exact plain (List.mem_map.2 ⟨'\\', h, by decide⟩)

theorem lower_ne_where (hc : c ∈ cs) (foreign : isNameUnit c = false) :
    Text.lower (String.ofList cs) ≠ "where" := by
  intro same
  have letters : ∀ c ∈ "where".toList, isNameUnit c = true := forall_mem_of_all (by decide)
  have member : c ∈ "where".toList := by
    rw [← same, lower_ofList, String.toList_ofList]
    exact List.mem_map.2 ⟨c, hc, toLower_of_foreign foreign⟩
  rw [letters c member] at foreign
  cases foreign

theorem mem_escaped (hc : c ∈ cs) : c ∈ escaped cs := by
  induction cs with
  | nil => cases hc
  | cons d cs ih =>
      rw [escaped]
      rcases List.mem_cons.1 hc with rfl | hc
      · split <;> simp
      · split <;> simp [ih hc]

theorem escaped_eq_self (h : ∀ c ∈ cs, isSpecial c = false) : escaped cs = cs := by
  induction cs with
  | nil => rfl
  | cons c cs ih =>
      obtain ⟨plain, rest⟩ := List.forall_mem_cons.1 h
      rw [escaped, if_neg (by simp [plain]), ih rest]

theorem not_special_of_name (h : isNameUnit c = true) (other : c ≠ '\\') :
    isSpecial c = false := by
  simp only [isNameUnit, Bool.or_eq_true, decide_eq_true_eq, other, or_false] at h
  rw [isSpecial, Bool.and_eq_false_iff]
  rcases h with word | high
  · refine Or.inr ?_
    simp only [Bool.not_eq_false', Bool.or_eq_true, decide_eq_true_eq]
    exact word
  · exact Or.inl (decide_eq_false (Nat.not_lt.2 high))

/-- Of the names the word `where` alone is escaped as itself in the eyes of the scanner. -/
theorem lower_escaped_eq_where_iff (named : ∀ c ∈ cs, isNameUnit c = true) :
    Text.lower (String.ofList (textUnits (escaped cs))) = "where" ↔
      Text.lower (String.ofList cs) = "where" := by
  have plain : '\\' ∉ "where".toList := by decide
  rw [lower_textUnits_eq_iff (by decide_cbv)]
  by_cases backslash : '\\' ∈ cs
  · exact iff_of_false (lower_ne_of_backslash plain (mem_escaped backslash))
      (lower_ne_of_backslash plain backslash)
  · rw [escaped_eq_self fun c hc => not_special_of_name (named c hc) fun same =>
      backslash (same ▸ hc)]

/-- No known word ends with a backslash, so an escaped text is never a choice. -/
theorem pseudo_escaped_eq_zero_iff (cs : List Char) :
    (pseudo (textUnits (escaped cs))).tally = .zero ↔
      pseudoWord (textUnits (escaped cs)) = "where" := by
  apply tally_pseudo_eq_zero_iff (head_escaped cs)
  rw [pseudoWord, pseudoName_of_head (head_escaped cs)]
  intro argument known
  rcases escaped_named_or cs with ⟨-, units⟩ | ⟨-, backslash⟩
  · rw [List.dropWhile_eq_nil_iff.2 units] at argument
    cases argument
  · have plain : ∀ w ∈ transparentClasses, '\\' ∉ w.toList := forall_mem_of_all (by decide)
    exact lower_ne_of_backslash (plain _ known) backslash rfl

/-- An escaped colon counts a part unless `where` is all that follows. -/
theorem tally_colon_escaped_eq_zero_iff (cs : List Char) :
    tally (':' :: textUnits (escaped cs)) = .zero ↔ Text.lower (String.ofList cs) = "where" := by
  have single := pseudoName_of_head (head_escaped cs)
  have weightless := pseudo_escaped_eq_zero_iff cs
  rw [pseudoWord, single] at weightless
  rw [tally_colon]
  rcases escaped_named_or cs with ⟨chars, units⟩ | ⟨⟨c, hc, foreign⟩, backslash⟩
  · have behind : afterPseudo (textUnits (escaped cs)) = [] := by
      rw [afterPseudo, single, List.dropWhile_eq_nil_iff.2 units]
    rw [behind, tally_nil, Tally.add_zero, weightless, List.takeWhile_eq_self_iff.2 units,
      lower_escaped_eq_where_iff chars]
  · have counted := weightless.not.2 (lower_ne_of_backslash (by decide) backslash)
    exact iff_of_false (Tally.add_ne_zero counted _) (lower_ne_where hc foreign)

/-! ### Escaped texts -/

theorem exists_charUnits_of_isTypeStart (h : isTypeStart c = true) :
    ∃ u us, charUnits c = u :: us ∧ isTypeStart u = true := by
  obtain ⟨u, us, split⟩ := List.exists_cons_of_ne_nil (charUnits_ne_nil c)
  refine ⟨u, us, split, ?_⟩
  have unit : u ∈ charUnits c := by simp [split]
  by_cases small : c.toNat < 0x80
  · rw [charUnits_of_ascii small, List.mem_singleton] at unit
    rwa [unit]
  · exact isTypeStart_of_high (high_of_mem_charUnits (Nat.le_of_not_lt small) unit)

theorem tally_start_ne_zero (h : isTypeStart c = true) (us : List Char) :
    tally (charUnits c ++ us) ≠ .zero := by
  obtain ⟨u, others, split, start⟩ := exists_charUnits_of_isTypeStart h
  rw [split, List.cons_append, tally_type start (not_mem_openers start)]
  exact Tally.add_ne_zero (by decide) _

theorem tally_opener_ne_zero (h : c ∈ openers) (other : c ≠ ':') (us : List Char) :
    tally (c :: us) ≠ .zero := by
  simp only [openers, List.mem_cons, List.not_mem_nil, or_false, other] at h
  rcases h with rfl | rfl | rfl
  · rw [tally_hash]
    exact Tally.add_ne_zero (by decide) _
  · rw [tally_dot]
    exact Tally.add_ne_zero (by decide) _
  · rw [tally_bracket]
    exact Tally.add_ne_zero (by decide) _

/-- Nothing is counted in an escaped text exactly if none of its characters starts a part. -/
theorem tally_escaped_eq_zero_iff (cs : List Char) :
    tally (textUnits (escaped cs)) = .zero ↔ silent cs = true := by
  induction cs with
  | nil => simp [escaped, silent, tally_nil]
  | cons c cs ih =>
      rw [tally_escaped_cons, silent]
      by_cases colon : c = ':'
      · subst colon
        rw [charUnits_of_ascii (by decide), List.singleton_append, if_pos rfl,
          tally_colon_escaped_eq_zero_iff, decide_eq_true_eq]
      rw [if_neg colon]
      by_cases start : isTypeStart c = true
      · exact iff_of_false (tally_start_ne_zero start _) (by simp [start])
      have small : c.toNat < 0x80 := by
        by_contra high
        exact start (isTypeStart_of_high (Nat.le_of_not_lt high))
      rw [charUnits_of_ascii small, List.singleton_append]
      by_cases opener : c ∈ openers
      · exact iff_of_false (tally_opener_ne_zero opener colon _) (by simp [opener])
      · rw [tally_other (Bool.eq_false_iff.2 start) opener, ih]
        simp [start, opener]

/-- A part that is named by an escaped text counts as what its sign stands for, exactly if
nothing behind the name counts. -/
theorem specificity_of_escaped_iff {sign : Char} {part : Tally} (ascii : sign.toNat < 0x80)
    (small : part.ids < 2 ^ 32 - 1 ∧ part.classes < 2 ^ 32 - 1 ∧ part.types < 2 ^ 32 - 1)
    (counts : ∀ us, tally (sign :: us) = part + tally (us.dropWhile isNameUnit))
    (x : List Char) :
    Specificity.of (String.ofList (sign :: escaped x)) = part.toSpecificity ↔
      silent (x.dropWhile isNameUnit) = true := by
  obtain ⟨ids, classes, types⟩ := small
  rw [Specificity.of, units_ofList, textUnits_cons_of_ascii ascii, counts,
    tally_dropWhile_escaped, Tally.toSpecificity_eq_iff ids classes types,
    Tally.add_eq_left_iff, tally_escaped_eq_zero_iff]

/-- A class or an id with an escaped name counts as one class or one id exactly if the name
has no character foreign to names, or nothing that starts a part from the first of these on. -/
theorem escaped_name_counts_once_iff (x : List Char) :
    (Specificity.of (String.ofList ('.' :: escaped x)) = ⟨0, 1, 0⟩ ↔
      silent (x.dropWhile isNameUnit) = true) ∧
    (Specificity.of (String.ofList ('#' :: escaped x)) = ⟨1, 0, 0⟩ ↔
      silent (x.dropWhile isNameUnit) = true) :=
  ⟨specificity_of_escaped_iff (by decide) (by decide) tally_dot x,
    specificity_of_escaped_iff (by decide) (by decide) tally_hash x⟩

/-- The class in `.a\:b` has the name `a:b`, but its colon counts as one more class. -/
theorem escaped_colon_counts :
    String.ofList ('.' :: escaped ['a', ':', 'b']) = ".a\\:b" ∧
      Specificity.of ".a\\:b" = ⟨0, 2, 0⟩ := by
  refine ⟨rfl, ?_⟩
  have word : pseudoWord ['b'] = "b" := by decide_cbv
  have ordinary : pseudo ['b'] = .ordinary := by
    rw [pseudo_eq, word]
    rfl
  have behind : afterPseudo ['b'] = [] := by decide
  have counted : tally [':', 'b'] = .oneClass := by
    rw [tally_colon, ordinary, behind, tally_nil]
    rfl
  have text : units ".a\\:b" = ['.', 'a', '\\', ':', 'b'] := rfl
  have name : ['a', '\\', ':', 'b'].dropWhile isNameUnit = [':', 'b'] := by decide
  rw [Specificity.of, text, tally_dot, name, counted]
  rfl

end Stylesheet.Selector
