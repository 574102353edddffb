import Mathlib
import Stylesheet.Proofs.Selector.Safety

/-!
# An argument that is left open

The argument of `:not`, `:is` or `:has` ends at the parenthesis that closes it. If none
does, it is read up to the end of the text, but without the last unit, as if that were the
parenthesis. A prefix whose groups are closed is counted by itself, whatever follows it.
-/

namespace Stylesheet.Selector

/-- The beginnings of selectors in which every group is closed: attributes and the arguments
of pseudo-classes and pseudo-elements are well nested, and outside of them no group opens. -/
inductive Closed : List Char → Prop where
  | nil : Closed []
  | plain {c : Char} {cs : List Char} (unopened : c ∉ [':', '[', '(']) :
      Closed cs → Closed (c :: cs)
  | bracketed {cs : List Char} (body : Body) : Closed cs → Closed ('[' :: (body.text ++ ']' :: cs))
  | pseudo {second name cs : List Char} (element : second = [] ∨ second = [':'])
      (nonempty : name ≠ []) (named : ∀ c ∈ name, isNameUnit c = true) (argument : Option Body) :
      Closed cs → Closed (':' :: (second ++ (name ++ (Body.argument argument ++ cs))))

/-- A selector that ends in the argument of a choice. -/
def opened (before : List Char) (word : String) (argument : List Char) : String :=
  String.ofList (before ++ ':' :: (word.toList ++ '(' :: argument))

/-- The count of a choice between the selectors of a list. -/
def choice (cs : List Char) : Tally := .greatest ((alternatives cs).map tally)

/-! ### Closed prefixes -/

variable {c : Char} {cs rest name second : List Char}

def Body.units (body : Body) : Body := ⟨textUnits body.text, body.nested.units⟩

theorem textUnits_argument (argument : Option Body) :
    textUnits (Body.argument argument) = Body.argument (argument.map Body.units) := by
  cases argument with
  | none => rfl
  | some body => exact textUnits_enclosed (by decide) body.text

namespace Closed

theorem of_unopened (unopened : ∀ c ∈ cs, c ∉ [':', '[', '(']) (h : Closed rest) :
    Closed (cs ++ rest) := by
  induction cs with
  | nil => exact h
  | cons c cs ih =>
      obtain ⟨first, others⟩ := List.forall_mem_cons.1 unopened
      exact .plain first (ih others)

theorem unopened_of_high {u : Char} (h : 0x80 ≤ u.toNat) : u ∉ [':', '[', '('] := by
  intro opens
  have ascii : ∀ c ∈ [':', '[', '('], c.toNat < 0x80 := forall_mem_of_all (by decide)
  have := ascii u opens
  omega

/-- A prefix that is closed in its characters is closed in its units. -/
theorem units (h : Closed cs) : Closed (textUnits cs) := by
  induction h with
  | nil => exact .nil
  | @plain c cs unopened _ ih =>
      rw [textUnits_cons]
      refine of_unopened (fun u hu => ?_) ih
      by_cases small : c.toNat < 0x80
      · rw [charUnits_of_ascii small, List.mem_singleton] at hu
        rwa [hu]
      · exact unopened_of_high (high_of_mem_charUnits (Nat.le_of_not_lt small) hu)
  | @bracketed cs body _ ih =>
      rw [textUnits_cons_of_ascii (by decide), textUnits_append,
        textUnits_cons_of_ascii (by decide)]
      exact .bracketed body.units ih
  | @pseudo second name cs element nonempty named argument _ ih =>
      have same : textUnits second = second := by rcases element with rfl | rfl <;> decide
      rw [textUnits_cons_of_ascii (by decide), textUnits_append, same, textUnits_append,
        textUnits_append, textUnits_argument]
      refine .pseudo element ?_ (fun u hu => ?_) _ ih
      · obtain ⟨c, others, rfl⟩ := List.exists_cons_of_ne_nil nonempty
        simp [textUnits_cons, charUnits_ne_nil]
      · obtain ⟨c, hc, hu⟩ := List.mem_flatMap.1 hu
        exact isNameUnit_of_mem_charUnits (named c hc) hu

theorem head_ne_parenthesis (h : Closed cs) : cs.head? ≠ some '(' := by
  cases h with
  | nil => simp
  | plain unopened _ =>
      rintro ⟨⟩
      exact unopened (by decide)
  | bracketed _ _ => simp
  | pseudo _ _ _ _ _ => simp

/-- What follows a name in a closed prefix is closed. -/
theorem dropWhile (h : Closed cs) : Closed (cs.dropWhile isNameUnit) := by
  induction h with
  | nil => exact .nil
  | @plain c cs unopened closed ih =>
      rw [List.dropWhile_cons]
      split
      · exact ih
      · exact .plain unopened closed
  | bracketed body closed _ => exact .bracketed body closed
  | pseudo element nonempty named argument closed _ =>
      exact .pseudo element nonempty named argument closed

/-- Where the word behind a colon ends, an argument stands whose end is known, or a closed
prefix without an argument goes on. -/
theorem follows_word (element : second = [] ∨ second = [':']) (nonempty : name ≠ [])
    (named : ∀ c ∈ name, isNameUnit c = true) (argument : Option Body) (h : Closed cs) :
    let introduced := second ++ (name ++ (Body.argument argument ++ cs))
    let after := (pseudoName introduced).dropWhile isNameUnit
    (∃ body : Body, ∃ behind, after = '(' :: (body.text ++ ')' :: behind) ∧ Closed behind) ∨
      Closed after := by
  intro introduced after
  have word : after = (Body.argument argument ++ cs).dropWhile isNameUnit := by
    rw [← List.dropWhile_append_of_pos named]
    rcases element with rfl | rfl
    · exact congrArg _ (pseudoName_of_head (head_ne_colon named nonempty _))
    · rfl
  cases argument with
  | none => exact Or.inr (word ▸ h.dropWhile)
  | some body =>
      refine Or.inl ⟨body, cs, ?_, h⟩
      rw [word, Body.argument, List.cons_append, List.append_assoc, List.singleton_append]
      exact List.dropWhile_cons_of_neg (by decide)

end Closed

/-! ### What a colon introduces in front of something else -/

section Introduced

variable (apart : pseudoName (cs ++ rest) = pseudoName cs ++ rest) (stops : Stops rest)

include apart stops

theorem dropWhile_pseudoName_append : (pseudoName (cs ++ rest)).dropWhile isNameUnit =
    (pseudoName cs).dropWhile isNameUnit ++ rest := by
  rw [apart, dropWhile_append_of_endsName stops.1]

theorem pseudoWord_append : pseudoWord (cs ++ rest) = pseudoWord cs := by
  rw [pseudoWord, apart, takeWhile_append_of_endsName stops.1, pseudoWord]

end Introduced

theorem head_append_ne_parenthesis (stops : Stops rest) (h : cs.head? ≠ some '(') :
    (cs ++ rest).head? ≠ some '(' := by
  cases cs with
  | nil => exact stops.2
  | cons c cs => exact h

theorem afterPseudo_of_head (h : ((pseudoName cs).dropWhile isNameUnit).head? ≠ some '(') :
    afterPseudo cs = (pseudoName cs).dropWhile isNameUnit := by
  rw [afterPseudo]
  split
  · next body split => simp [split] at h
  · rfl

/-- What a colon introduces in a closed prefix is not changed by what follows the prefix. -/
theorem introduced_append (element : second = [] ∨ second = [':']) (nonempty : name ≠ [])
    (named : ∀ c ∈ name, isNameUnit c = true) (argument : Option Body) (h : Closed cs)
    (stops : Stops rest) :
    let introduced := second ++ (name ++ (Body.argument argument ++ cs))
    pseudo (introduced ++ rest) = pseudo introduced ∧
      afterPseudo (introduced ++ rest) = afterPseudo introduced ++ rest ∧
      Closed (afterPseudo introduced) := by
  intro introduced
  have apart : pseudoName (introduced ++ rest) = pseudoName introduced ++ rest := by
    rcases element with rfl | rfl
    · have first (us : List Char) : pseudoName (name ++ us) = name ++ us :=
        pseudoName_of_head (head_ne_colon named nonempty us)
      simp only [introduced, List.nil_append, List.append_assoc, first]
    · rfl
  have head : (introduced ++ rest).head? = introduced.head? := by
    obtain ⟨c, others, rfl⟩ := List.exists_cons_of_ne_nil nonempty
    rcases element with rfl | rfl <;> rfl
  have word := pseudoWord_append apart stops
  have after := dropWhile_pseudoName_append apart stops
  rw [pseudo_eq, pseudo_eq introduced, head, word, after]
  rcases Closed.follows_word element nonempty named argument h with
    ⟨body, behind, split, closed⟩ | closed
  · have later : (pseudoName introduced).dropWhile isNameUnit ++ rest =
        '(' :: (body.text ++ ')' :: (behind ++ rest)) := by
      rw [split, List.cons_append, List.append_assoc, List.cons_append]
    have ends (us : List Char) : afterGroup '(' ')' (body.text ++ ')' :: us) = us :=
      afterGroup_body (by decide) body.nested
    have here : afterPseudo introduced = behind := by
      rw [afterPseudo, split]
      exact ends behind
    have there : afterPseudo (introduced ++ rest) = behind ++ rest := by
      rw [afterPseudo, after, later]
      exact ends (behind ++ rest)
    rw [later, split, here, there, List.tail_cons, List.tail_cons, argument_body body.nested,
      argument_body body.nested]
    exact ⟨rfl, rfl, closed⟩
  · change Closed ((pseudoName introduced).dropWhile isNameUnit) at closed
    have no_argument := closed.head_ne_parenthesis
    have none_later := head_append_ne_parenthesis stops no_argument
    rw [afterPseudo_of_head no_argument, afterPseudo_of_head (by rwa [after]), after]
    simp only [no_argument, none_later, false_and, if_false]
    exact ⟨trivial, trivial, closed⟩

/-- A closed prefix counts by itself. -/
theorem tally_append_of_closed {us rest : List Char} (h : Closed us) (stops : Stops rest) :
    tally (us ++ rest) = tally us + tally rest := by
  cases h with
  | nil => rw [List.nil_append, tally_nil, Tally.zero_add]
  | @plain c cs unopened closed =>
      have drop := dropWhile_append_of_endsName stops.1 cs
      have named := tally_append_of_closed closed.dropWhile stops
      have unlike : c ≠ ':' ∧ c ≠ '[' := by
        constructor <;> rintro rfl <;> exact unopened (by decide)
      rw [List.cons_append]
      by_cases hash : c = '#'
      · rw [hash, tally_hash, tally_hash, drop, named, Tally.add_assoc]
      by_cases dot : c = '.'
      · rw [dot, tally_dot, tally_dot, drop, named, Tally.add_assoc]
      have ordinary : c ∉ openers := by simp [openers, hash, dot, unlike]
      by_cases start : isTypeStart c = true
      · rw [tally_type start ordinary, tally_type start ordinary, drop, named, Tally.add_assoc]
      · have other : isTypeStart c = false := Bool.eq_false_iff.2 start
        rw [tally_other other ordinary, tally_other other ordinary,
          tally_append_of_closed closed stops]
  | @bracketed cs body closed =>
      have ends (us : List Char) : afterGroup '[' ']' (body.text ++ ']' :: us) = us :=
        afterGroup_body (by decide) body.nested
      rw [List.cons_append, List.append_assoc, List.cons_append, tally_bracket, tally_bracket,
        ends, ends, tally_append_of_closed closed stops, Tally.add_assoc]
  | @pseudo second name cs element nonempty named argument closed =>
      obtain ⟨kind, behind, rest_closed⟩ :=
        introduced_append element nonempty named argument closed stops
      have shorter := length_afterPseudo_le (second ++ (name ++ (Body.argument argument ++ cs)))
      rw [List.cons_append, tally_colon, tally_colon, kind, behind,
        tally_append_of_closed rest_closed stops, Tally.add_assoc]
termination_by us.length
decreasing_by
  · exact Nat.lt_succ_of_le (length_dropWhile_le isNameUnit cs)
  · exact Nat.lt_succ_self cs.length
  · simp only [List.length_cons, List.length_append]
    omega
  · exact Nat.lt_succ_of_le shorter

/-! ### Open arguments -/

/-- An argument that never closes is the rest of the text but its last unit. -/
theorem argument_of_nested {commas : Bool} (h : Nested commas cs) :
    argument cs = cs.dropLast ∧ afterGroup '(' ')' cs = [] := by
  have unclosed : closeGroup? '(' ')' 0 none cs = none := by
    rw [← List.append_nil cs, closeGroup?_nested (by decide) h]
    rfl
  simp [argument, afterGroup, unclosed]

variable {before : List Char} {word : String}

theorem units_opened (transparent : word ∈ transparentClasses) (before x : List Char) :
    units (opened before word x) =
      textUnits before ++ ':' :: (word.toList ++ '(' :: textUnits x) := by
  have known : ∀ w ∈ transparentClasses, isAscii w = true := by decide_cbv
  have ascii : ∀ c ∈ word.toList, c.toNat < 0x80 := by
    intro c hc
    exact of_decide_eq_true (List.all_eq_true.1 (known word transparent) c hc)
  rw [opened, units_ofList, textUnits_append, textUnits_cons_of_ascii (by decide),
    textUnits_append, textUnits_of_ascii ascii, textUnits_cons_of_ascii (by decide)]

/-- A choice behind a closed prefix. -/
theorem tally_opened (closed : Closed before) (transparent : word ∈ transparentClasses)
    (x : List Char) :
    tally (units (opened before word x)) = tally (textUnits before) +
      (choice (argument (textUnits x)) + tally (afterGroup '(' ')' (textUnits x))) := by
  rw [units_opened transparent, tally_append_of_closed closed.units
    (stops_cons (by decide) (by decide) _), tally_choice transparent, choice]

/-- The last unit of an argument that is left open is not counted. -/
theorem tally_open (closed : Closed before) (transparent : word ∈ transparentClasses)
    {x : List Char} (nested : Nested true x) :
    tally (units (opened before word x)) =
      tally (textUnits before) + choice (textUnits x).dropLast := by
  obtain ⟨body, nothing⟩ := argument_of_nested nested.units
  rw [tally_opened closed transparent, body, nothing, tally_nil, Tally.add_zero]

theorem textUnits_closed (x : List Char) : textUnits (x ++ [')']) = textUnits x ++ [')'] := by
  rw [textUnits_append, textUnits_cons_of_ascii (by decide), textUnits_nil]

theorem tally_closed (closed : Closed before) (transparent : word ∈ transparentClasses)
    {x : List Char} (nested : Nested true x) :
    tally (units (opened before word (x ++ [')']))) =
      tally (textUnits before) + choice (textUnits x) := by
  rw [tally_opened closed transparent, textUnits_closed, argument_body nested.units,
    afterGroup_body (by decide) nested.units, tally_nil, Tally.add_zero]

/-- Behind a closed prefix, a choice with an open argument counts without the last unit of the
argument. So it counts as if the argument were closed exactly if that unit does not matter to
the choice. -/
theorem open_argument_counts_iff {before x : List Char} {word : String} (closed : Closed before)
    (transparent : word ∈ transparentClasses) (nested : Nested true x) :
    Specificity.of (opened before word x) =
        (tally (textUnits before) + choice (textUnits x).dropLast).toSpecificity ∧
      Specificity.of (opened before word (x ++ [')'])) =
        (tally (textUnits before) + choice (textUnits x)).toSpecificity ∧
      ((units (opened before word (x ++ [')']))).length < 2 ^ 32 →
        (Specificity.of (opened before word x) =
            Specificity.of (opened before word (x ++ [')'])) ↔
          choice (textUnits x).dropLast = choice (textUnits x))) := by
  have left := tally_open closed transparent nested
  have right := tally_closed closed transparent nested
  refine ⟨congrArg _ left, congrArg _ right, fun short => ?_⟩
  have longer : (units (opened before word (x ++ [')']))).length =
      (units (opened before word x)).length + 1 := by
    rw [units_opened transparent, units_opened transparent, textUnits_closed]
    simp only [List.length_append, List.length_cons, List.length_nil]
    omega
  have opened_small := total_tally_le (units (opened before word x))
  have closed_small := total_tally_le (units (opened before word (x ++ [')'])))
  rw [Specificity.of, Specificity.of, Tally.toSpecificity_inj (by omega) (by omega), left, right,
    Tally.add_left_cancel_iff]

/-- The choice in `#b[d]:is(.c ` does without its space, so its class counts. -/
theorem open_space_is_dispensable :
    let before := ['#', 'b', '[', 'd', ']']
    let x := ['.', 'c', ' ']
    Closed before ∧ "is" ∈ transparentClasses ∧ Nested true x ∧
      (units (opened before "is" (x ++ [')']))).length < 2 ^ 32 ∧
      opened before "is" x = "#b[d]:is(.c " ∧
      Specificity.of "#b[d]:is(.c " = Specificity.of "#b[d]:is(.c )" := by
  intro before x
  have body : Nested true ['d'] := .plain (by decide) (fun _ => rfl) .nil
  have closed : Closed before :=
    .plain (by decide) (.plain (by decide) (.bracketed ⟨['d'], body⟩ .nil))
  have transparent : "is" ∈ transparentClasses := by decide
  have unmarked : ∀ c ∈ x, c ∉ marks := forall_mem_of_all (by decide)
  have nested : Nested true x := .of_unmarked unmarked fun _ _ _ => rfl
  have short : (units (opened before "is" (x ++ [')']))).length < 2 ^ 32 := by
    rw [units_opened transparent]
    decide
  have without : choice ['.', 'c'] = .oneClass := by
    have pieces : alternatives ['.', 'c'] = [['.', 'c']] := by decide
    rw [choice, pieces, List.map_singleton, Tally.greatest_singleton, tally_dot]
    exact congrArg _ tally_nil
  have whole : choice ['.', 'c', ' '] = .oneClass := by
    have pieces : alternatives ['.', 'c', ' '] = [['.', 'c', ' ']] := by decide
    have space : tally [' '] = .zero := by rw [tally_other (by decide) (by decide), tally_nil]
    rw [choice, pieces, List.map_singleton, Tally.greatest_singleton, tally_dot]
    exact congrArg _ space
  have counts := (open_argument_counts_iff closed transparent nested).2.2 short
  exact ⟨closed, transparent, nested, short, rfl, counts.2 (without.trans whole.symm)⟩

/-- The type in `:not(a` does not count, the one in `:not(a)` does. -/
theorem open_type_is_lost :
    opened [] "not" ['a'] = ":not(a" ∧ Nested true ['a'] ∧
      Specificity.of ":not(a" = ⟨0, 0, 0⟩ ∧ Specificity.of ":not(a)" = ⟨0, 0, 1⟩ := by
  have transparent : "not" ∈ transparentClasses := by decide
  have nested : Nested true ['a'] := .plain (by decide) (fun _ => rfl) .nil
  have nothing : choice [] = .zero := by
    have pieces : alternatives [] = [[]] := rfl
    rw [choice, pieces, List.map_singleton, Tally.greatest_singleton, tally_nil]
  have type_alone : choice ['a'] = .oneType := by
    have pieces : alternatives ['a'] = [['a']] := by decide
    rw [choice, pieces, List.map_singleton, Tally.greatest_singleton,
      tally_type (by decide) (by decide)]
    exact congrArg _ tally_nil
  have left := tally_open .nil transparent nested
  have right := tally_closed .nil transparent nested
  have open_text : opened [] "not" ['a'] = ":not(a" := rfl
  have closed_text : opened [] "not" (['a'] ++ [')']) = ":not(a)" := rfl
  have units_a : textUnits ['a'] = ['a'] := textUnits_of_ascii (forall_mem_of_all (by decide))
  rw [open_text, units_a, List.dropLast_singleton, nothing, textUnits_nil, tally_nil] at left
  rw [closed_text, units_a, type_alone, textUnits_nil, tally_nil] at right
  refine ⟨open_text, nested, ?_, ?_⟩
  · rw [Specificity.of, left]
    rfl
  · rw [Specificity.of, right]
    rfl

end Stylesheet.Selector
