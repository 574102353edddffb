import Mathlib
import Stylesheet.Block
import Stylesheet.Proofs.Lists
import Stylesheet.Proofs.Selector.Nesting
import Stylesheet.Proofs.Text.Blank

/-!
# Lists of selectors

A list of selectors is cut at every comma, so the selectors of texts that are joined by
commas are those of the texts, one after the other. A text without commas names one
selector. In a well-nested text whose commas all stand inside of brackets and quotes,
something opens in front of each comma and something closes behind it. No piece of such
a text is blank, so it names more than one selector as soon as it has a comma. Hence a
list names the selectors that it was joined from exactly if none of them has a comma
anywhere.
-/

namespace Stylesheet.Selector

variable {cs ds before after : List Char}

/-! ### Commas and the marks around them -/

theorem of_mem_marks : ∀ c ∈ marks, Text.isBlank c = false ∧ c ≠ ',' :=
  forall_mem_of_all (by decide)

/-- A comma inside or behind something that opens and closes has marks on both sides, if
one behind it has. -/
theorem marks_around_enclosed {m n : Char} {inner : List Char} (opens : m ∈ marks)
    (closes : n ∈ marks)
    (behind : ∀ before after, cs = before ++ ',' :: after → ∃ c ∈ after, c ∈ marks)
    (split : m :: (inner ++ n :: cs) = before ++ ',' :: after) :
    (∃ c ∈ before, c ∈ marks) ∧ ∃ c ∈ after, c ∈ marks := by
  cases before with
  | nil => exact absurd (List.cons.inj split).1 (of_mem_marks m opens).2
  | cons b before =>
      obtain ⟨rfl, others⟩ := List.cons.inj split
      refine ⟨⟨m, List.mem_cons_self, opens⟩, ?_⟩
      rcases List.append_eq_append_iff.1 others with ⟨rest, -, tail⟩ | ⟨rest, -, tail⟩
      · cases rest with
        | nil => exact absurd (List.cons.inj tail).1 (of_mem_marks n closes).2
        | cons r rest => exact behind rest after (List.cons.inj tail).2
      · cases rest with
        | nil => exact absurd (List.cons.inj tail).1.symm (of_mem_marks n closes).2
        | cons r rest =>
            obtain ⟨-, rfl⟩ := List.cons.inj tail
            exact ⟨n, by simp, closes⟩

/-- In a well-nested text without commas of its own every comma has marks on both
sides. -/
theorem Nested.marks_around {commas : Bool} (h : Nested commas cs) (none_outside : commas = false)
    (split : cs = before ++ ',' :: after) :
    (∃ c ∈ before, c ∈ marks) ∧ ∃ c ∈ after, c ∈ marks := by
  induction h generalizing before after with
  | nil => simp at split
  | @plain commas d cs unmarked comma _ ih =>
      cases before with
      | nil =>
          have outside := comma (List.cons.inj split).1
          rw [none_outside] at outside
          cases outside
      | cons b before =>
          obtain ⟨⟨m, hm, mark⟩, behind⟩ := ih none_outside (List.cons.inj split).2
          exact ⟨⟨m, List.mem_cons_of_mem _ hm, mark⟩, behind⟩
  | @quoted commas q inner cs quote inside _ ih =>
      have mark : q ∈ marks := by rcases quote with rfl | rfl <;> decide
      exact marks_around_enclosed mark mark (fun _ _ split => (ih none_outside split).2) split
  | @group commas opening closing inner cs pair _ _ _ ih =>
      obtain ⟨opens, closes, -⟩ := of_mem_brackets pair
      exact marks_around_enclosed opens closes (fun _ _ split => (ih none_outside split).2) split

/-! ### The selectors in a text -/

/-- The blanks around a text do not show in its selector. -/
theorem ofText_congr (h : Text.trim cs = Text.trim ds) :
    ofText (String.ofList cs) = ofText (String.ofList ds) := by
  simp only [ofText, String.toList_ofList, h]

theorem listOfText_append_comma (cs ds : List Char) :
    listOfText (String.ofList (cs ++ ',' :: ds)) =
      listOfText (String.ofList cs) ++ listOfText (String.ofList ds) := by
  simp only [listOfText, String.toList_ofList, List.splitOn_append_cons_self, List.map_append,
    List.filter_append]

theorem listOfText_of_no_comma (whole : ',' ∉ cs) :
    listOfText (String.ofList cs) =
      if Text.trim cs = [] then [] else [ofText (String.ofList cs)] := by
  have single := ofText_congr (Text.trim_trim cs)
  simp only [listOfText, String.toList_ofList, List.splitOn_eq_singleton whole, List.map_cons,
    List.map_nil]
  split
  · next blank => simp [blank]
  · next some_left => simp [some_left, single]

/-- A text in which something is written names a selector. -/
theorem listOfText_ne_nil {c : Char} {cs : List Char} (hc : c ∈ cs)
    (visible : Text.isBlank c = false) (other : c ≠ ',') :
    listOfText (String.ofList cs) ≠ [] := by
  by_cases cut : ',' ∈ cs
  · obtain ⟨before, after, rfl⟩ := List.append_of_mem cut
    rw [listOfText_append_comma]
    rcases List.mem_append.1 hc with hc | hc
    · exact List.append_ne_nil_of_left_ne_nil (listOfText_ne_nil hc visible other) _
    · have hc : c ∈ after := (List.mem_cons.1 hc).resolve_left other
      exact List.append_ne_nil_of_right_ne_nil _ (listOfText_ne_nil hc visible other)
  · have some_left : Text.trim cs ≠ [] := by
      intro empty
      rw [Text.trim_eq_nil_iff.1 empty c hc] at visible
      cases visible
    rw [listOfText_of_no_comma cut, if_neg some_left]
    exact List.cons_ne_nil _ _
termination_by cs.length

/-! ### Joined texts -/

/-- A selector in a list, as a well-nested text without commas of its own, and the blanks
that stand around it. -/
structure Entry where
  before : List Char
  text : List Char
  after : List Char
  front : ∀ c ∈ before, Text.isBlank c = true
  behind : ∀ c ∈ after, Text.isBlank c = true
  nested : Nested false text
  inhabited : Text.trim text ≠ []

namespace Entry

variable (e : Entry)

def written : List Char := e.before ++ (e.text ++ e.after)

/-- The selector that the text is by itself. -/
def selector : Selector := .ofText (String.ofList e.text)

theorem listOfText_whole (whole : ',' ∉ e.text) :
    listOfText (String.ofList e.written) = [e.selector] := by
  have same : Text.trim e.written = Text.trim e.text := Text.trim_surrounded e.front e.behind
  have blank : Text.isBlank ',' = false := by decide
  have uncut : ',' ∉ e.written := by
    rw [written, List.mem_append, List.mem_append]
    rintro (comma | comma | comma)
    · exact absurd (e.front _ comma) (Bool.eq_false_iff.1 blank)
    · exact whole comma
    · exact absurd (e.behind _ comma) (Bool.eq_false_iff.1 blank)
  rw [listOfText_of_no_comma uncut, if_neg (same ▸ e.inhabited), selector, ofText_congr same]

/-- A comma anywhere cuts the selector to pieces. -/
theorem two_le_length_listOfText (comma : ',' ∈ e.text) :
    2 ≤ (listOfText (String.ofList e.written)).length := by
  obtain ⟨front, behind, split⟩ := List.append_of_mem comma
  obtain ⟨⟨m, hm, opens⟩, n, hn, closes⟩ := e.nested.marks_around rfl split
  have pieces : e.written = (e.before ++ front) ++ ',' :: (behind ++ e.after) := by
    simp [written, split]
  have first : listOfText (String.ofList (e.before ++ front)) ≠ [] :=
    listOfText_ne_nil (List.mem_append_right _ hm) (of_mem_marks m opens).1 (of_mem_marks m opens).2
  have second : listOfText (String.ofList (behind ++ e.after)) ≠ [] :=
    listOfText_ne_nil (List.mem_append_left _ hn) (of_mem_marks n closes).1
      (of_mem_marks n closes).2
  have one := List.length_pos_iff.2 first
  have other := List.length_pos_iff.2 second
  rw [pieces, listOfText_append_comma, List.length_append]
  omega

theorem length_listOfText_eq_one_iff :
    (listOfText (String.ofList e.written)).length = 1 ↔ ',' ∉ e.text := by
  constructor
  · intro one comma
    have two := e.two_le_length_listOfText comma
    omega
  · intro whole
    rw [e.listOfText_whole whole, List.length_singleton]

theorem listOfText_written_ne_nil : listOfText (String.ofList e.written) ≠ [] := by
  by_cases comma : ',' ∈ e.text
  · have two := e.two_le_length_listOfText comma
    exact List.ne_nil_of_length_pos (by omega)
  · rw [e.listOfText_whole comma]
    exact List.cons_ne_nil _ _

end Entry

/-- The entries of a list, joined by commas. -/
def joined (entries : List Entry) : String :=
  String.ofList ([','].intercalate (entries.map Entry.written))

theorem listOfText_joined (entries : List Entry) :
    listOfText (joined entries) =
      entries.flatMap fun e => listOfText (String.ofList e.written) := by
  match entries with
  | [] => rfl
  | [e] => simp [joined, List.intercalate_singleton]
  | e :: f :: entries =>
      rw [List.flatMap_cons, ← listOfText_joined (f :: entries), joined, joined, List.map_cons,
        List.map_cons, List.intercalate_cons_cons, ← List.map_cons, List.append_assoc,
        List.singleton_append, listOfText_append_comma]

theorem listOfText_joined_eq_iff (entries : List Entry) :
    listOfText (joined entries) = entries.map Entry.selector ↔ ∀ e ∈ entries, ',' ∉ e.text := by
  rw [listOfText_joined]
  constructor
  · intro same e he
    have lengths := congrArg List.length same
    rw [List.length_map] at lengths
    have one := length_eq_one_of_length_flatMap (fun e _ => e.listOfText_written_ne_nil) lengths
    exact e.length_listOfText_eq_one_iff.1 (one e he)
  · intro whole
    rw [List.map_eq_flatMap]
    exact List.flatMap_congr fun e he => e.listOfText_whole (whole e he)

/-- A block for one selector has its weight, unless a comma cuts the selector to pieces. -/
theorem weight_joined_singleton (e : Entry) (ds : List Declaration) :
    (Block.ofSelectorText (joined [e]) ds).weight =
      if ',' ∈ e.text then 0 else e.selector.weight := by
  have selectors : (Block.ofSelectorText (joined [e]) ds).selectors =
      listOfText (String.ofList e.written) := by
    rw [Block.ofSelectorText, listOfText_joined, List.flatMap_singleton]
  split
  · next comma =>
      have two := e.two_le_length_listOfText comma
      rw [Block.weight, selectors]
      split
      · next single =>
          rw [single] at two
          simp at two
      · rfl
  · next whole => rw [Block.weight, selectors, e.listOfText_whole whole]

/-- The selectors of a block are those of the texts that its list was joined from, cut at
every comma. They are the joined selectors themselves exactly if no comma stands inside
of their brackets and quotes, and a block for a single selector that has such a comma
weighs nothing. -/
theorem selectors_joined_iff (entries : List Entry) (ds : List Declaration) :
    let b := Block.ofSelectorText (joined entries) ds
    b.selectors = entries.flatMap (fun e => listOfText (String.ofList e.written)) ∧
      (b.selectors = entries.map Entry.selector ↔ ∀ e ∈ entries, ',' ∉ e.text) ∧
      ∀ e : Entry, (Block.ofSelectorText (joined [e]) ds).weight =
        if ',' ∈ e.text then 0 else e.selector.weight := by
  refine ⟨listOfText_joined entries, listOfText_joined_eq_iff entries, ?_⟩
  intro e
  exact weight_joined_singleton e ds

/-- The commas between the arguments of a choice cut it in two, and the weight of the
block is lost. -/
theorem choice_is_cut :
    let text := ":not(#a, #b)"
    Nested false text.toList ∧ Text.trim text.toList ≠ [] ∧
      (Block.ofSelectorText text []).selectors =
        [⟨":not(#a", ⟨1, 0, 0⟩⟩, ⟨"#b)", ⟨1, 0, 0⟩⟩] ∧
      (Block.ofSelectorText text []).weight = 0 ∧
      ofText text = ⟨text, ⟨1, 0, 0⟩⟩ ∧ (ofText text).weight = 100 := by
  intro text
  have split : text.toList = ":not".toList ++ '(' :: ("#a, #b".toList ++ ')' :: []) := by
    decide +kernel
  have arguments : Nested true "#a, #b".toList :=
    .of_unmarked (forall_mem_of_all (by decide)) (fun _ _ _ => rfl)
  have name : Nested false ":not".toList :=
    .of_unmarked (forall_mem_of_all (by decide)) (forall_mem_of_all (by decide))
  refine ⟨split ▸ name.append (.group (by decide) arguments .nil), ?_, ?_, ?_, ?_, ?_⟩
  · decide +kernel
  · decide +kernel
  · decide +kernel
  · decide +kernel
  · decide +kernel

end Stylesheet.Selector
