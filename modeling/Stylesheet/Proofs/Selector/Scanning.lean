import Stylesheet.Proofs.Selector.Grammar
import Stylesheet.Proofs.Selector.Units

/-!
# The scanner on the grammar

A name is read up to the first unit that belongs to no name, so reading stops where the
next piece of a selector starts, and at the end. From this every piece is counted by its
kind and leaves exactly what follows it: first the simple selectors, then the compounds,
the complex selectors, and the lists in the arguments of a choice, which are cut into the
selectors they were joined from.
-/

namespace Stylesheet.Selector

/-! ### Texts are well nested -/

theorem unmarked_of_isNameChar {c : Char} (h : isNameChar c = true) : c ∉ ',' :: marks := by
  intro marked
  have none_named : ∀ c ∈ ',' :: marks, isNameChar c = false := forall_mem_of_all (by decide)
  rw [none_named c marked] at h
  cases h

theorem isNameChar_of_startsName {c : Char} (h : startsName c = true) : isNameChar c = true := by
  simp only [startsName, isNameChar, Char.isAlphanum, Bool.or_eq_true, decide_eq_true_eq] at h ⊢
  tauto

namespace Name

variable (name : Name)

theorem isNameChar_of_mem : ∀ c ∈ name.text, isNameChar c = true := by
  intro c hc
  rcases List.mem_cons.1 hc with rfl | hc
  · exact isNameChar_of_startsName name.starts
  · exact List.all_eq_true.1 name.continues c hc

theorem nested {commas : Bool} : Nested commas name.text := by
  apply Nested.of_unmarked
  · intro c hc marked
    exact unmarked_of_isNameChar (name.isNameChar_of_mem c hc) (List.mem_cons_of_mem _ marked)
  · rintro c hc rfl
    exact absurd List.mem_cons_self (unmarked_of_isNameChar (name.isNameChar_of_mem _ hc))

end Name

theorem Nested.cons_plain {commas : Bool} {c : Char} {cs : List Char} (plain : c ∉ ',' :: marks)
    (h : Nested commas cs) : Nested commas (c :: cs) := by
  rw [List.mem_cons, not_or] at plain
  exact .plain plain.2 (fun comma => absurd comma plain.1) h

/-- A group stands for itself, whatever follows it. -/
theorem Nested.enclosed {commas : Bool} {opening closing : Char} {inner : List Char}
    (pair : (opening, closing) ∈ brackets) (h : Nested true inner) :
    Nested commas (opening :: (inner ++ [closing])) :=
  .group pair h .nil

theorem Body.nested_argument {commas : Bool} (body : Option Body) :
    Nested commas (Body.argument body) := by
  cases body with
  | none => exact .nil
  | some body => exact .enclosed (by decide) body.nested

theorem Combinator.nested (combinator : Combinator) : Nested false combinator.text := by
  have spaces (n : Nat) : Nested false (List.replicate n ' ') := by
    induction n with
    | zero => exact .nil
    | succ n ih => exact .cons_plain (by decide) ih
  cases combinator with
  | descendant more => exact spaces (more + 1)
  | signed before sign after =>
      apply (spaces before).append
      cases sign <;> exact .cons_plain (by decide) (spaces after)

mutual

theorem Simple.nested : ∀ simple : Simple, Nested false simple.text
  | .id name => .cons_plain (by decide) name.nested
  | .ofClass name => .cons_plain (by decide) name.nested
  | .bracketed body => .enclosed (by decide) body.nested
  | .pseudoClass name _ => .cons_plain (by decide) name.nested
  | .function name _ _ argument =>
    .cons_plain (by decide) (name.nested.append (Body.nested_argument (some argument)))
  | .pseudoElement name argument =>
    .cons_plain (by decide)
      (.cons_plain (by decide) (name.nested.append (Body.nested_argument argument)))
  | .choice name _ arguments =>
    .cons_plain (by decide) (name.nested.append (.enclosed (by decide) arguments.nested))
  | .weightless name _ arguments =>
    .cons_plain (by decide) (name.nested.append (.enclosed (by decide) arguments.nested))

theorem Compound.nested : ∀ compound : Compound, Nested false compound.text
  | .empty => .nil
  | .universal => .cons_plain (by decide) .nil
  | .type name => name.nested
  | .and compound simple => compound.nested.append simple.nested

theorem Complex.nested : ∀ complex : Complex, Nested false complex.text
  | .compound compound => compound.nested
  | .combine left combinator right => left.nested.append (combinator.nested.append right.nested)

theorem Arguments.nested : ∀ arguments : Arguments, Nested true arguments.text
  | .last selector => selector.nested.weaken
  | .cons selector others =>
    selector.nested.weaken.append (.plain (by decide) (fun _ => rfl) others.nested)

end

/-! ### Where a name ends -/

/-- Whether a name that stands in front of these units ends there. -/
def EndsName (rest : List Char) : Prop := ∀ c ∈ rest.head?, isNameUnit c = false

/-- Whether moreover no argument follows. -/
def Stops (rest : List Char) : Prop := EndsName rest ∧ rest.head? ≠ some '('

theorem stops_nil : Stops [] := ⟨by rintro c ⟨⟩, by simp⟩

theorem stops_cons {c : Char} (foreign : isNameUnit c = false) (other : c ≠ '(')
    (cs : List Char) : Stops (c :: cs) := by
  refine ⟨?_, by simpa using other⟩
  rintro _ ⟨⟩
  exact foreign

theorem endsName_parenthesis (cs : List Char) : EndsName ('(' :: cs) := by
  rintro _ ⟨⟩
  decide

theorem isNameUnit_of_isNameChar {c : Char} (h : isNameChar c = true) : isNameUnit c = true := by
  simp only [isNameChar, isNameUnit, Bool.or_eq_true] at h ⊢
  tauto

theorem isNameUnit_of_high {u : Char} (h : 0x80 ≤ u.toNat) : isNameUnit u = true := by
  simp [isNameUnit, h]

theorem isTypeStart_of_high {u : Char} (h : 0x80 ≤ u.toNat) : isTypeStart u = true := by
  simp [isTypeStart, h]

theorem not_mem_openers {c : Char} (h : isTypeStart c = true) : c ∉ openers := by
  intro member
  have none_starts : ∀ c ∈ openers, isTypeStart c = false := forall_mem_of_all (by decide)
  rw [none_starts c member] at h
  cases h

namespace Name

variable (name : Name) {rest : List Char}

theorem isNameUnit_of_mem : ∀ u ∈ textUnits name.text, isNameUnit u = true := by
  intro u hu
  obtain ⟨c, hc, hu⟩ := List.mem_flatMap.1 hu
  by_cases small : c.toNat < 0x80
  · rw [charUnits_of_ascii small, List.mem_singleton] at hu
    rw [hu]
    exact isNameUnit_of_isNameChar (name.isNameChar_of_mem c hc)
  · exact isNameUnit_of_high (high_of_mem_charUnits (Nat.le_of_not_lt small) hu)

theorem exists_units : ∃ u us, textUnits name.text = u :: us ∧ isTypeStart u = true := by
  obtain ⟨u, us, split⟩ := List.exists_cons_of_ne_nil (charUnits_ne_nil name.first)
  refine ⟨u, us ++ textUnits name.others, ?_, ?_⟩
  · rw [text, textUnits_cons, split, List.cons_append]
  · by_cases small : name.first.toNat < 0x80
    · rw [charUnits_of_ascii small] at split
      rw [← (List.cons.inj split).1]
      exact name.starts
    · have unit : u ∈ charUnits name.first := by simp [split]
      exact isTypeStart_of_high (high_of_mem_charUnits (Nat.le_of_not_lt small) unit)

theorem dropWhile_of_endsName (ends : EndsName rest) : rest.dropWhile isNameUnit = rest := by
  cases rest with
  | nil => rfl
  | cons c cs => rw [List.dropWhile_cons_of_neg (by simp [ends c rfl])]

theorem takeWhile_of_endsName (ends : EndsName rest) : rest.takeWhile isNameUnit = [] := by
  cases rest with
  | nil => rfl
  | cons c cs => rw [List.takeWhile_cons_of_neg (by simp [ends c rfl])]

theorem dropWhile_units (ends : EndsName rest) :
    (textUnits name.text ++ rest).dropWhile isNameUnit = rest := by
  rw [List.dropWhile_append_of_pos name.isNameUnit_of_mem, dropWhile_of_endsName ends]

theorem takeWhile_units (ends : EndsName rest) :
    (textUnits name.text ++ rest).takeWhile isNameUnit = textUnits name.text := by
  rw [List.takeWhile_append_of_pos name.isNameUnit_of_mem, takeWhile_of_endsName ends,
    List.append_nil]

/-- A type counts, and is read to its end. -/
theorem tally_units (ends : EndsName rest) :
    tally (textUnits name.text ++ rest) = .oneType + tally rest := by
  obtain ⟨u, us, split, start⟩ := name.exists_units
  have named : ∀ v ∈ us, isNameUnit v = true := by
    intro v hv
    exact name.isNameUnit_of_mem v (split ▸ List.mem_cons_of_mem _ hv)
  rw [split, List.cons_append, tally_type start (not_mem_openers start),
    List.dropWhile_append_of_pos named, dropWhile_of_endsName ends]

/-! ### What a colon introduces -/

theorem head_units (rest : List Char) : (textUnits name.text ++ rest).head? ≠ some ':' := by
  obtain ⟨u, us, split, start⟩ := name.exists_units
  rw [split]
  intro colon
  rw [Option.some.inj colon] at start
  exact absurd start (by decide)

theorem pseudoName_units (rest : List Char) :
    pseudoName (textUnits name.text ++ rest) = textUnits name.text ++ rest := by
  have head := name.head_units rest
  unfold pseudoName
  split
  · next h => simp [h] at head
  · rfl

theorem lower_units_mem_iff {words : List String}
    (ascii : ∀ w ∈ words, isAscii w = true) :
    Text.lower (String.ofList (textUnits name.text)) ∈ words ↔ name.word ∈ words := by
  constructor
  · intro h
    rwa [word, (lower_textUnits_eq_iff (ascii _ h)).1 rfl]
  · intro h
    rwa [(lower_textUnits_eq_iff (ascii _ h)).2 rfl]

theorem mem_elements_iff :
    Text.lower (String.ofList (textUnits name.text)) ∈ singleColonElements ↔
      name.word ∈ ["before", "after", "first-line", "first-letter"] :=
  name.lower_units_mem_iff (by decide_cbv)

theorem eq_where_iff :
    Text.lower (String.ofList (textUnits name.text)) = "where" ↔ name.word = "where" :=
  lower_textUnits_eq_iff (by decide_cbv)

theorem mem_transparent_iff :
    Text.lower (String.ofList (textUnits name.text)) ∈ transparentClasses ↔
      name.word ∈ ["not", "is", "has"] :=
  name.lower_units_mem_iff (by decide_cbv)

/-- A colon and a name with nothing behind it. -/
theorem pseudo_alone (stops : Stops rest) (ordinary : name.word ≠ "where") :
    pseudo (textUnits name.text ++ rest) =
      if name.word ∈ ["before", "after", "first-line", "first-letter"] then .element
      else .ordinary := by
  simp only [pseudo, name.pseudoName_units, name.takeWhile_units stops.1,
    name.dropWhile_units stops.1, name.head_units, decide_false, Bool.false_or, decide_eq_true_eq,
    name.mem_elements_iff, name.eq_where_iff, ordinary, if_false]
  split
  · rfl
  · split
    · next body => exact absurd rfl stops.2
    · rfl

/-- A colon and a name with an argument. -/
theorem pseudo_argument (newer : name.word ∉ ["before", "after", "first-line", "first-letter"])
    (body : List Char) :
    pseudo (textUnits name.text ++ '(' :: body) =
      if name.word = "where" then .weightless
      else if name.word ∈ ["not", "is", "has"] then .oneOf (alternatives (argument body))
      else .ordinary := by
  have ends := endsName_parenthesis body
  simp only [pseudo, name.pseudoName_units, name.takeWhile_units ends, name.dropWhile_units ends,
    name.head_units, decide_false, Bool.false_or, name.mem_elements_iff, newer, Bool.false_eq_true,
    if_false, name.eq_where_iff, name.mem_transparent_iff]

variable {cs : List Char}

theorem afterPseudo_alone (named : pseudoName cs = textUnits name.text ++ rest)
    (stops : Stops rest) : afterPseudo cs = rest := by
  rw [afterPseudo, named, name.dropWhile_units stops.1]
  split
  · next body => exact absurd rfl stops.2
  · rfl

theorem afterPseudo_argument {inner : List Char} {commas : Bool} (inside : Nested commas inner)
    (named : pseudoName cs = textUnits name.text ++ '(' :: (inner ++ ')' :: rest)) :
    afterPseudo cs = rest := by
  rw [afterPseudo, named, name.dropWhile_units (endsName_parenthesis _)]
  exact afterGroup_body (by decide) inside

end Name

theorem pseudo_colon (cs : List Char) : pseudo (':' :: cs) = .element := by
  simp [pseudo]

/-! ### Pieces of a selector -/

theorem textUnits_enclosed {opening closing : Char} (pair : (opening, closing) ∈ brackets)
    (inner : List Char) :
    textUnits (opening :: (inner ++ [closing])) = opening :: (textUnits inner ++ [closing]) := by
  obtain ⟨openingMark, closingMark, -⟩ := of_mem_brackets pair
  rw [textUnits_cons_of_ascii (ascii_of_mem_marks _ openingMark), textUnits_append,
    textUnits_cons_of_ascii (ascii_of_mem_marks _ closingMark), textUnits_nil]

/-- The units of a name with an argument, in front of what follows. -/
theorem textUnits_called (name : Name) (inner rest : List Char) :
    textUnits (name.text ++ '(' :: (inner ++ [')'])) ++ rest =
      textUnits name.text ++ '(' :: (textUnits inner ++ ')' :: rest) := by
  rw [textUnits_append, textUnits_enclosed (by decide), List.append_assoc, List.cons_append,
    List.append_assoc, List.singleton_append]

/-- No name in front of a simple selector runs on into it. -/
theorem Simple.stops (simple : Simple) (rest : List Char) :
    Stops (textUnits simple.text ++ rest) := by
  cases simple
  all_goals
    rw [text, textUnits_cons_of_ascii (by decide), List.cons_append]
    exact stops_cons (by decide) (by decide) _

/-- The characters of combinators. -/
def joints : List Char := [' ', '>', '+', '~']

theorem Combinator.mem_joints (combinator : Combinator) : ∀ c ∈ combinator.text, c ∈ joints := by
  have space (n : Nat) : ∀ c ∈ List.replicate n ' ', c ∈ joints := by
    intro c hc
    rw [(List.mem_replicate.1 hc).2]
    decide
  cases combinator with
  | descendant more => exact space (more + 1)
  | signed before sign after =>
      intro c hc
      rcases List.mem_append.1 hc with hc | hc
      · exact space before c hc
      · rcases List.mem_cons.1 hc with rfl | hc
        · cases sign <;> decide
        · exact space after c hc

theorem Combinator.textUnits_text (combinator : Combinator) :
    textUnits combinator.text = combinator.text := by
  apply textUnits_of_ascii
  intro c hc
  have ascii : ∀ c ∈ joints, c.toNat < 0x80 := forall_mem_of_all (by decide)
  exact ascii c (combinator.mem_joints c hc)

theorem Combinator.text_ne_nil (combinator : Combinator) : combinator.text ≠ [] := by
  cases combinator <;> simp [text, List.replicate_succ]

theorem Combinator.stops (combinator : Combinator) (rest : List Char) :
    Stops (textUnits combinator.text ++ rest) := by
  obtain ⟨c, cs, split⟩ := List.exists_cons_of_ne_nil combinator.text_ne_nil
  have foreign : ∀ c ∈ joints, isNameUnit c = false ∧ c ≠ '(' := forall_mem_of_all (by decide)
  have joint := foreign c (combinator.mem_joints c (by simp [split]))
  rw [combinator.textUnits_text, split, List.cons_append]
  exact stops_cons joint.1 joint.2 _

theorem tally_joints {cs : List Char} (h : ∀ c ∈ cs, c ∈ joints) (rest : List Char) :
    tally (cs ++ rest) = tally rest := by
  induction cs with
  | nil => rfl
  | cons c cs ih =>
      have other : ∀ c ∈ joints, isTypeStart c = false ∧ c ∉ openers :=
        forall_mem_of_all (by decide)
      have joint := other c (h c List.mem_cons_self)
      rw [List.cons_append, tally_other joint.1 joint.2,
        ih fun d hd => h d (List.mem_cons_of_mem _ hd)]

/-- Combinators count nothing. -/
theorem Combinator.tally_units (combinator : Combinator) (rest : List Char) :
    tally (textUnits combinator.text ++ rest) = tally rest := by
  rw [combinator.textUnits_text]
  exact tally_joints combinator.mem_joints rest

/-! ### Whole selectors -/

mutual

theorem Simple.tally_units : ∀ (simple : Simple) {rest : List Char}, Stops rest →
    tally (textUnits simple.text ++ rest) = simple.rank + tally rest
  | .id name, rest, stops => by
      rw [Simple.text, textUnits_cons_of_ascii (by decide), List.cons_append, tally_hash,
        name.dropWhile_units stops.1]
      rfl
  | .ofClass name, rest, stops => by
      rw [Simple.text, textUnits_cons_of_ascii (by decide), List.cons_append, tally_dot,
        name.dropWhile_units stops.1]
      rfl
  | .bracketed body, rest, stops => by
      rw [Simple.text, textUnits_enclosed (by decide), List.cons_append, List.append_assoc,
        tally_bracket, List.singleton_append, afterGroup_body (by decide) body.nested.units]
      rfl
  | .pseudoClass name ordinary, rest, stops => by
      have class_or_element : name.word ≠ "where" := by
        intro weightless
        simp [weightless] at ordinary
      rw [Simple.text, textUnits_cons_of_ascii (by decide), List.cons_append, tally_colon,
        name.afterPseudo_alone (name.pseudoName_units _) stops,
        name.pseudo_alone stops class_or_element, Simple.rank]
      split <;> rfl
  | .function name ordinary newer argument, rest, stops => by
      simp only [List.mem_cons, List.not_mem_nil, or_false, not_or] at ordinary
      rw [Simple.text, Body.argument, textUnits_cons_of_ascii (by decide), List.cons_append,
        textUnits_called, tally_colon,
        name.afterPseudo_argument argument.nested.units (name.pseudoName_units _),
        name.pseudo_argument newer, if_neg (by simp [ordinary]), if_neg (by simp [ordinary])]
      rfl
  | .pseudoElement name none, rest, stops => by
      rw [Simple.text, Body.argument, List.append_nil, textUnits_cons_of_ascii (by decide),
        textUnits_cons_of_ascii (by decide), List.cons_append, List.cons_append, tally_colon,
        pseudo_colon, name.afterPseudo_alone rfl stops]
      rfl
  | .pseudoElement name (some argument), rest, stops => by
      rw [Simple.text, Body.argument, textUnits_cons_of_ascii (by decide),
        textUnits_cons_of_ascii (by decide), List.cons_append, List.cons_append, textUnits_called,
        tally_colon, pseudo_colon, name.afterPseudo_argument argument.nested.units rfl]
      rfl
  | .choice name transparent arguments, rest, stops => by
      have newer : name.word ∉ ["before", "after", "first-line", "first-letter"] := by
        intro element
        simp only [List.mem_cons, List.not_mem_nil, or_false] at transparent element
        rcases transparent with h | h | h <;> simp [h] at element
      have choice : name.word ≠ "where" ∧ name.word ∈ ["not", "is", "has"] := by
        simp only [List.mem_cons, List.not_mem_nil, or_false] at transparent ⊢
        rcases transparent with h | h | h <;> simp [h]
      rw [Simple.text, textUnits_cons_of_ascii (by decide), List.cons_append, textUnits_called,
        tally_colon, name.afterPseudo_argument arguments.nested.units (name.pseudoName_units _),
        name.pseudo_argument newer, if_neg choice.1, if_pos choice.2,
        argument_body arguments.nested.units, Pseudo.tally, arguments.greatest_units]
      rfl
  | .weightless name named arguments, rest, stops => by
      rw [Simple.text, textUnits_cons_of_ascii (by decide), List.cons_append, textUnits_called,
        tally_colon, name.afterPseudo_argument arguments.nested.units (name.pseudoName_units _),
        name.pseudo_argument (by simp [named]), if_pos named]
      rfl

theorem Compound.tally_units : ∀ (compound : Compound) {rest : List Char}, Stops rest →
    tally (textUnits compound.text ++ rest) = compound.rank + tally rest
  | .empty, rest, _ => (Tally.zero_add _).symm
  | .universal, rest, _ => by
      rw [Compound.text, textUnits_cons_of_ascii (by decide), textUnits_nil, List.singleton_append,
        tally_other (by decide) (by decide)]
      exact (Tally.zero_add _).symm
  | .type name, rest, stops => name.tally_units stops.1
  | .and compound simple, rest, stops => by
      rw [Compound.text, textUnits_append, List.append_assoc,
        compound.tally_units (simple.stops rest), simple.tally_units stops, ← Tally.add_assoc]
      rfl

theorem Complex.tally_units : ∀ (complex : Complex) {rest : List Char}, Stops rest →
    tally (textUnits complex.text ++ rest) = complex.rank + tally rest
  | .compound compound, rest, stops => compound.tally_units stops
  | .combine left combinator right, rest, stops => by
      rw [Complex.text, textUnits_append, textUnits_append, List.append_assoc, List.append_assoc,
        left.tally_units (combinator.stops _), combinator.tally_units, right.tally_units stops,
        ← Tally.add_assoc]
      rfl

/-- The lists in the arguments of a choice are cut into the selectors they consist of,
and the greatest of these is taken. -/
theorem Arguments.greatest_units : ∀ arguments : Arguments,
    Tally.greatest ((alternatives (textUnits arguments.text)).map tally) = arguments.rank
  | .last selector => by
      have alone := selector.tally_units stops_nil
      rw [List.append_nil, tally_nil, Tally.add_zero] at alone
      rw [Arguments.text, alternatives_single selector.nested.units, List.map_singleton,
        Tally.greatest_singleton, alone]
      rfl
  | .cons selector others => by
      have alone := selector.tally_units stops_nil
      rw [List.append_nil, tally_nil, Tally.add_zero] at alone
      rw [Arguments.text, textUnits_append, textUnits_cons_of_ascii (by decide),
        alternatives_cons selector.nested.units, List.map_cons, Tally.greatest_cons, alone,
        others.greatest_units, Arguments.rank, Tally.max_eq]

end

end Stylesheet.Selector
