import Mathlib
import Stylesheet.Proofs.Text.Quoting
import Stylesheet.Value.Basic

/-!
# Series and calls of quoted texts

A quoted text ends by itself, so the members of a series of quoted texts can be told apart
whatever they contain: its text says which they are, and with two members or more also by
what they are separated. The arguments of a call end at its closing parenthesis, so the same
holds of a call, whatever comes behind it.

The name of a call is no obstacle either, although it may contain any characters. A
parenthesis among the arguments stands inside quotes. If the arguments began there, then what
follows it would be a series read from inside quotes as well as from outside, and each
quote in it would close for one reading what it opens for the other, so the two cannot both
end outside.
-/

namespace Stylesheet

namespace Separator

def sign : Separator → Char
  | .comma => ','
  | .space => ' '
  | .slash => '/'

theorem toList_text (s : Separator) : s.text.toList = [s.sign] := by
  cases s <;> rfl

theorem sign_inj {s t : Separator} : s.sign = t.sign ↔ s = t := by
  cases s <;> cases t <;> decide

theorem sign_ne (s : Separator) : s.sign ≠ '"' ∧ s.sign ≠ '\\' ∧ s.sign ≠ '(' ∧ s.sign ≠ ')' := by
  cases s <;> decide

end Separator

namespace Value

variable {s t : Separator} {xs ys : List String} {cs rest rest' : List Char}

/-- Further members of a series of quoted texts, each behind the separator. -/
def further (s : Separator) : List String → List Char
  | [] => []
  | x :: xs => s.sign :: ((Text.quoted x).toList ++ further s xs)

/-- The members of a series of quoted texts. -/
def listing (s : Separator) : List String → List Char
  | [] => []
  | x :: xs => (Text.quoted x).toList ++ further s xs

theorem toList_text_series (s : Separator) (xs : List String) :
    (series s (xs.map .quoted)).text.toList = listing s xs := by
  rw [text, texts_eq_map, List.map_map, String.toList_intercalate, Separator.toList_text,
    List.map_map]
  induction xs with
  | nil => rfl
  | cons x xs ih =>
      cases xs with
      | nil => simp [listing, further, text]
      | cons y ys =>
          rw [List.map_cons, List.map_cons, List.intercalate_cons_cons, ← List.map_cons, ih]
          simp [listing, further, text]

theorem toList_text_call (name : String) (s : Separator) (xs : List String) :
    (call name s (xs.map .quoted)).text.toList =
      name.toList ++ '(' :: (listing s xs ++ [')']) := by
  have members := toList_text_series s xs
  rw [text] at members
  simp [text, members]

/-! ### Members in a row -/

/-- A text that does not go on with members of a series. -/
def Ends (cs : List Char) : Prop := ∀ c ∈ cs.head?, c ≠ '"' ∧ ∀ s : Separator, c ≠ s.sign

theorem ends_nil : Ends [] := by
  simp [Ends]

theorem ends_parenthesis (cs : List Char) : Ends (')' :: cs) := by
  simp only [Ends, List.head?_cons, Option.mem_some, forall_eq']
  exact ⟨by decide, fun s => (s.sign_ne.2.2.2).symm⟩

theorem further_append_inj (left : Ends rest) (right : Ends rest')
    (same : further s xs ++ rest = further t ys ++ rest') :
    xs = ys ∧ rest = rest' ∧ (s = t ∨ xs = []) := by
  induction xs generalizing ys with
  | nil =>
      cases ys with
      | nil => exact ⟨rfl, same, Or.inr rfl⟩
      | cons y ys =>
          obtain rfl : rest = _ := same
          exact absurd rfl ((left t.sign rfl).2 t)
  | cons x xs ih =>
      cases ys with
      | nil =>
          obtain rfl : _ = rest' := same
          exact absurd rfl ((right s.sign rfl).2 s)
      | cons y ys =>
          simp only [further, List.cons_append, List.append_assoc, List.cons.injEq,
            Separator.sign_inj, Text.quoted_append_inj] at same
          obtain ⟨rfl, rfl, same⟩ := same
          obtain ⟨rfl, rfl, -⟩ := ih same
          exact ⟨rfl, rfl, Or.inl rfl⟩

theorem listing_congr (xs : List String) (h : s = t ∨ xs.length ≤ 1) :
    listing s xs = listing t xs := by
  obtain rfl | short := h
  · rfl
  · cases xs with
    | nil => rfl
    | cons x xs =>
        have single : xs = [] := by simpa using short
        rw [single]
        rfl

/-- What stands in a row of quoted texts, and what follows the row, can be read off. -/
theorem listing_append_inj (left : Ends rest) (right : Ends rest') :
    listing s xs ++ rest = listing t ys ++ rest' ↔
      xs = ys ∧ rest = rest' ∧ (s = t ∨ xs.length ≤ 1) := by
  constructor
  · intro same
    cases xs with
    | nil =>
        cases ys with
        | nil => exact ⟨rfl, same, Or.inr (Nat.zero_le 1)⟩
        | cons y ys =>
            obtain rfl : rest = _ := same
            rw [listing, List.append_assoc, Text.toList_quoted_append] at left
            exact absurd rfl (left '"' rfl).1
    | cons x xs =>
        cases ys with
        | nil =>
            obtain rfl : _ = rest' := same
            rw [listing, List.append_assoc, Text.toList_quoted_append] at right
            exact absurd rfl (right '"' rfl).1
        | cons y ys =>
            simp only [listing, List.append_assoc, Text.quoted_append_inj] at same
            obtain ⟨rfl, rfl, only⟩ := further_append_inj left right same.2
            obtain rfl := same.1
            exact ⟨rfl, rfl, only.imp_right fun single => by simp [single]⟩
  · rintro ⟨rfl, rfl, same⟩
    rw [listing_congr xs same]

/-! ### Inside and outside of quotes -/

/-- Where a reader is among quoted texts. -/
inductive Phase where
  | outside
  | inside
  | escaped
deriving DecidableEq

namespace Phase

/-- Read one character. Outside of quotes no backslash and no parenthesis is expected. -/
def step : Phase → Char → Option Phase
  | outside, c =>
    if c = '"' then some inside else if c = '\\' ∨ c = '(' then none else some outside
  | inside, c =>
    if c = '"' then some outside else if c = '\\' then some escaped else some inside
  | escaped, _ => some inside

/-- Read a text. -/
def run (p : Phase) (cs : List Char) : Option Phase := cs.foldlM step p

theorem run_cons (p : Phase) (c : Char) (cs : List Char) :
    p.run (c :: cs) = (p.step c).bind (·.run cs) := rfl

theorem run_escape (cs rest : List Char) :
    inside.run (Text.escape cs ++ rest) = inside.run rest := by
  induction cs with
  | nil => rfl
  | cons c cs ih =>
      cases special : Text.needsBackslash c with
      | true => simp [Text.escape, special, run_cons, step, ih]
      | false =>
          have others : c ≠ '"' ∧ c ≠ '\\' := by simpa [Text.needsBackslash] using special
          simp [Text.escape, special, run_cons, step, others, ih]

theorem run_quoted (x : String) (rest : List Char) :
    outside.run ((Text.quoted x).toList ++ rest) = outside.run rest := by
  rw [Text.toList_quoted_append, run_cons]
  exact run_escape x.toList ('"' :: rest)

theorem run_further (s : Separator) (xs : List String) (rest : List Char) :
    outside.run (further s xs ++ rest) = outside.run rest := by
  induction xs with
  | nil => rfl
  | cons x xs ih =>
      obtain ⟨quote, backslash, parenthesis, -⟩ := s.sign_ne
      rw [further, List.cons_append, List.append_assoc, run_cons]
      simp [step, quote, backslash, parenthesis, run_quoted, ih]

theorem run_listing (s : Separator) (xs : List String) (rest : List Char) :
    outside.run (listing s xs ++ rest) = outside.run rest := by
  cases xs with
  | nil => rfl
  | cons x xs => rw [listing, List.append_assoc, run_quoted, run_further]

/-- Readers that start on different sides of a quote do not end on the same side: each
further quote opens for one of them and closes for the other. -/
theorem run_ne_run {p q : Phase} (fromOutside : outside.run cs = some p)
    (fromInside : inside.run cs = some q) : p ≠ q := by
  induction cs generalizing p q with
  | nil =>
      cases fromOutside
      cases fromInside
      decide
  | cons c cs ih =>
      rw [run_cons] at fromOutside fromInside
      by_cases quote : c = '"'
      · -- the readers change sides
        simp only [step, if_pos quote, Option.bind_some] at fromOutside fromInside
        exact (ih fromInside fromOutside).symm
      · by_cases other : c = '\\' ∨ c = '('
        · simp [step, quote, other] at fromOutside
        · have letter : c ≠ '\\' := fun backslash => other (Or.inl backslash)
          simp only [step, if_neg quote, if_neg other, if_neg letter, Option.bind_some]
            at fromOutside fromInside
          exact ih fromOutside fromInside

end Phase

open Phase

/-- The arguments of a call are not what is left of the arguments of another call behind a
parenthesis in them. -/
theorem arguments_ne (cs : List Char) :
    listing s xs ++ [')'] ≠ cs ++ '(' :: (listing t ys ++ [')']) := by
  intro same
  have whole : outside.run (listing s xs ++ [')']) = some outside := run_listing s xs [')']
  have part : outside.run (listing t ys ++ [')']) = some outside := run_listing t ys [')']
  rw [same, run, List.foldlM_append] at whole
  obtain ⟨p, -, reached⟩ := Option.bind_eq_some_iff.1 whole
  -- the parenthesis stands inside quotes, so the rest is read from inside as well
  cases p with
  | outside => cases reached
  | inside => exact run_ne_run part reached rfl
  | escaped => exact run_ne_run part reached rfl

theorem name_eq_of_text_eq {n m : List Char}
    (same : n ++ '(' :: (listing s xs ++ [')']) = m ++ '(' :: (listing t ys ++ [')'])) :
    n = m := by
  obtain ⟨cs, rfl, behind⟩ | ⟨cs, rfl, behind⟩ := List.append_eq_append_iff.1 same
  · cases cs with
    | nil => simp
    | cons c cs => exact absurd (List.cons.inj behind).2 (arguments_ne cs)
  · cases cs with
    | nil => simp
    | cons c cs => exact absurd (List.cons.inj behind).2 (arguments_ne cs)

/-! ### What the texts say -/

theorem text_series_eq_iff :
    (series s (xs.map .quoted)).text = (series t (ys.map .quoted)).text ↔
      xs = ys ∧ (s = t ∨ xs.length ≤ 1) := by
  rw [← String.toList_inj, toList_text_series, toList_text_series,
    ← List.append_nil (listing s xs), ← List.append_nil (listing t ys),
    listing_append_inj ends_nil ends_nil]
  simp only [true_and]

theorem text_call_append_eq_iff (name : String) :
    (call name s (xs.map .quoted)).text.toList ++ rest =
        (call name t (ys.map .quoted)).text.toList ++ rest' ↔
      xs = ys ∧ rest = rest' ∧ (s = t ∨ xs.length ≤ 1) := by
  simp only [toList_text_call, List.append_assoc, List.cons_append, List.nil_append,
    List.append_cancel_left_eq, List.cons.injEq, true_and]
  rw [listing_append_inj (ends_parenthesis rest) (ends_parenthesis rest')]
  simp only [List.cons.injEq, true_and]

theorem text_call_eq_iff {n m : String} :
    (call n s (xs.map .quoted)).text = (call m t (ys.map .quoted)).text ↔
      n = m ∧ xs = ys ∧ (s = t ∨ xs.length ≤ 1) := by
  constructor
  · intro same
    have texts := congrArg String.toList same
    rw [toList_text_call, toList_text_call] at texts
    obtain rfl := String.toList_inj.1 (name_eq_of_text_eq texts)
    have arguments := (text_call_append_eq_iff n).1 (congrArg (·.toList ++ []) same)
    exact ⟨rfl, arguments.1, arguments.2.2⟩
  · rintro ⟨rfl, rfl, only⟩
    rw [← String.toList_inj, toList_text_call, toList_text_call, listing_congr xs only]

/-- A quoted text is read back in front of anything, so no two texts are quoted alike. A
series of quoted texts tells its members, and its separator where it has one. A call with
quoted arguments tells them in front of anything, and it tells its name. -/
theorem quoted_texts_read_off :
    (∀ (x : String) (rest : List Char),
        Text.readQuoted? ((quoted x).text.toList ++ rest) = some (x.toList, rest)) ∧
      Function.Injective (fun x => (quoted x).text) ∧
      (∀ (s t : Separator) (xs ys : List String),
        (series s (xs.map .quoted)).text = (series t (ys.map .quoted)).text ↔
          xs = ys ∧ (s = t ∨ xs.length ≤ 1)) ∧
      (∀ (n m : String) (s t : Separator) (xs ys : List String),
        (call n s (xs.map .quoted)).text = (call m t (ys.map .quoted)).text ↔
          n = m ∧ xs = ys ∧ (s = t ∨ xs.length ≤ 1)) ∧
      ∀ (name : String) (s t : Separator) (xs ys : List String) (rest rest' : List Char),
        (call name s (xs.map .quoted)).text.toList ++ rest =
            (call name t (ys.map .quoted)).text.toList ++ rest' ↔
          xs = ys ∧ rest = rest' ∧ (s = t ∨ xs.length ≤ 1) := by
  refine ⟨Text.readQuoted?_quoted_append, Text.quoted_injective, ?_, ?_, ?_⟩
  · exact fun _ _ _ _ => text_series_eq_iff
  · exact fun _ _ _ _ _ _ => text_call_eq_iff
  · exact fun name _ _ _ _ _ _ => text_call_append_eq_iff name

end Value

end Stylesheet
