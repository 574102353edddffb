import Stylesheet.Proofs.Selector.Scanning

/-!
# What a colon introduces

What a colon introduces depends on the word behind it and on whether an argument follows,
and on nothing behind that. `:not`, `:is` and `:has` with an argument are choices.
-/

namespace Stylesheet.Selector

/-- The word behind a colon. -/
def pseudoWord (cs : List Char) : String :=
  Text.lower (String.ofList ((pseudoName cs).takeWhile isNameUnit))

/-- What a colon introduces, with the choice as one of the cases. -/
theorem pseudo_eq (cs : List Char) : pseudo cs =
    if cs.head? = some ':' ∨ pseudoWord cs ∈ singleColonElements then .element
    else if pseudoWord cs = "where" then .weightless
    else if ((pseudoName cs).dropWhile isNameUnit).head? = some '(' ∧
        pseudoWord cs ∈ transparentClasses then
      .oneOf (alternatives (argument ((pseudoName cs).dropWhile isNameUnit).tail))
    else .ordinary := by
  have word : Text.lower (String.ofList ((pseudoName cs).takeWhile isNameUnit)) = pseudoWord cs :=
    rfl
  simp only [pseudo, word, Bool.or_eq_true, decide_eq_true_eq]
  by_cases element : cs.head? = some ':' ∨ pseudoWord cs ∈ singleColonElements
  · rw [if_pos element, if_pos element]
  rw [if_neg element, if_neg element]
  congr 1
  cases (pseudoName cs).dropWhile isNameUnit with
  | nil => simp
  | cons c rest =>
      by_cases opens : c = '('
      · subst opens
        simp
      · simp [opens]

variable {cs name rest : List Char}

theorem pseudoName_of_head (h : cs.head? ≠ some ':') : pseudoName cs = cs := by
  unfold pseudoName
  split
  · exact absurd rfl h
  · rfl

theorem takeWhile_append_of_endsName (ends : EndsName rest) (cs : List Char) :
    (cs ++ rest).takeWhile isNameUnit = cs.takeWhile isNameUnit := by
  induction cs with
  | nil => exact Name.takeWhile_of_endsName ends
  | cons c cs ih => rw [List.cons_append, List.takeWhile_cons, List.takeWhile_cons, ih]

theorem dropWhile_append_of_endsName (ends : EndsName rest) (cs : List Char) :
    (cs ++ rest).dropWhile isNameUnit = cs.dropWhile isNameUnit ++ rest := by
  induction cs with
  | nil => exact Name.dropWhile_of_endsName ends
  | cons c cs ih =>
      rw [List.cons_append, List.dropWhile_cons, List.dropWhile_cons]
      split
      · exact ih
      · rfl

theorem isNameUnit_of_mem_charUnits {c u : Char} (h : isNameUnit c = true)
    (hu : u ∈ charUnits c) : isNameUnit u = true := by
  by_cases small : c.toNat < 0x80
  · rw [charUnits_of_ascii small, List.mem_singleton] at hu
    rwa [hu]
  · exact isNameUnit_of_high (high_of_mem_charUnits (Nat.le_of_not_lt small) hu)

theorem head_ne_colon (named : ∀ c ∈ name, isNameUnit c = true) (nonempty : name ≠ [])
    (rest : List Char) : (name ++ rest).head? ≠ some ':' := by
  obtain ⟨c, cs, rfl⟩ := List.exists_cons_of_ne_nil nonempty
  rintro ⟨⟩
  exact absurd (named ':' List.mem_cons_self) (by decide)

/-- Of all that is no choice `:where` alone has no weight. -/
theorem tally_pseudo_eq_zero_iff (single : cs.head? ≠ some ':')
    (plain : ((pseudoName cs).dropWhile isNameUnit).head? = some '(' →
      pseudoWord cs ∉ transparentClasses) :
    (pseudo cs).tally = .zero ↔ pseudoWord cs = "where" := by
  rw [pseudo_eq]
  by_cases old : pseudoWord cs ∈ singleColonElements
  · rw [if_pos (Or.inr old)]
    refine iff_of_false (by decide) fun same => ?_
    rw [same] at old
    exact absurd old (by decide)
  rw [if_neg (not_or.2 ⟨single, old⟩), if_neg (not_and.2 plain)]
  by_cases weightless : pseudoWord cs = "where"
  · rw [if_pos weightless]
    exact iff_of_true rfl weightless
  · rw [if_neg weightless]
    exact iff_of_false (by decide) weightless

/-! ### Choices -/

section Choices

variable {word : String} (transparent : word ∈ transparentClasses) (body : List Char)

include transparent

theorem of_mem_transparentClasses : (∀ c ∈ word.toList, isNameUnit c = true) ∧
    word.toList ≠ [] ∧ Text.lower word = word ∧ word ∉ singleColonElements ∧ word ≠ "where" := by
  simp only [transparentClasses, List.mem_cons, List.not_mem_nil, or_false] at transparent
  rcases transparent with rfl | rfl | rfl <;>
    exact ⟨forall_mem_of_all (by decide), by decide, by decide_cbv, by decide, by decide⟩

theorem pseudoName_choice :
    pseudoName (word.toList ++ '(' :: body) = word.toList ++ '(' :: body := by
  obtain ⟨named, nonempty, -⟩ := of_mem_transparentClasses transparent
  exact pseudoName_of_head (head_ne_colon named nonempty _)

theorem dropWhile_choice :
    (pseudoName (word.toList ++ '(' :: body)).dropWhile isNameUnit = '(' :: body := by
  obtain ⟨named, -⟩ := of_mem_transparentClasses transparent
  rw [pseudoName_choice transparent, dropWhile_append_of_endsName (endsName_parenthesis body),
    List.dropWhile_eq_nil_iff.2 named, List.nil_append]

theorem pseudo_choice :
    pseudo (word.toList ++ '(' :: body) = .oneOf (alternatives (argument body)) := by
  obtain ⟨named, nonempty, lower, newer, other⟩ := of_mem_transparentClasses transparent
  have same : pseudoWord (word.toList ++ '(' :: body) = word := by
    rw [pseudoWord, pseudoName_choice transparent,
      takeWhile_append_of_endsName (endsName_parenthesis body),
      List.takeWhile_eq_self_iff.2 named, String.ofList_toList, lower]
  have single : ¬((word.toList ++ '(' :: body).head? = some ':' ∨ word ∈ singleColonElements) :=
    not_or.2 ⟨head_ne_colon named nonempty _, newer⟩
  rw [pseudo_eq, same, if_neg single, if_neg other, dropWhile_choice transparent,
    if_pos ⟨rfl, transparent⟩, List.tail_cons]

theorem afterPseudo_choice :
    afterPseudo (word.toList ++ '(' :: body) = afterGroup '(' ')' body := by
  rw [afterPseudo, dropWhile_choice transparent]
  rfl

theorem tally_choice : tally (':' :: (word.toList ++ '(' :: body)) =
    .greatest ((alternatives (argument body)).map tally) + tally (afterGroup '(' ')' body) := by
  rw [tally_colon, pseudo_choice transparent, afterPseudo_choice transparent, Pseudo.tally]

end Choices

end Stylesheet.Selector
