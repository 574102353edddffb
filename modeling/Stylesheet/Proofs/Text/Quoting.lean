import Mathlib
import Stylesheet.Text.Quoted

/-!
# Reading quoted text back

A quoted text ends where it was meant to: read from the front of any text, it gives the
characters that were quoted and leaves what follows. So two quoted texts with something
behind them agree only if they quote the same and the same follows.

A text that is put between quotes as it stands is read back only if nothing in it needs a
backslash. A reader takes two characters for each that has one, so it cannot come out where
it should with all of them, and a quote that has none stops it early.
-/

namespace Stylesheet.Text

variable {c : Char} {cs read rest rest' : List Char} {t u : String}

theorem needsBackslash_iff : needsBackslash c = true ↔ c = '"' ∨ c = '\\' := by
  simp [needsBackslash]

theorem readEscaped?_cons_plain (plain : needsBackslash c = false) :
    readEscaped? (c :: cs) = (readEscaped? cs).map fun (read, rest) => (c :: read, rest) := by
  have others : c ≠ '"' ∧ c ≠ '\\' := by simpa [needsBackslash] using plain
  rw [readEscaped?]
  · exact others.1
  · intro d ds h
    exact absurd h others.2

/-- What is written between quotes is read back, whatever follows the closing quote. -/
theorem readEscaped?_escape_append (cs rest : List Char) :
    readEscaped? (escape cs ++ '"' :: rest) = some (cs, rest) := by
  induction cs with
  | nil => rfl
  | cons c cs ih =>
      cases special : needsBackslash c with
      | true => simp [escape, special, readEscaped?, ih]
      | false => simp [escape, special, readEscaped?_cons_plain, ih]

theorem toList_quoted (t : String) : (quoted t).toList = '"' :: (escape t.toList ++ ['"']) := by
  simp [quoted]

theorem toList_quoted_append (t : String) (rest : List Char) :
    (quoted t).toList ++ rest = '"' :: (escape t.toList ++ '"' :: rest) := by
  simp [toList_quoted]

theorem readQuoted?_quoted_append (t : String) (rest : List Char) :
    readQuoted? ((quoted t).toList ++ rest) = some (t.toList, rest) := by
  rw [toList_quoted_append, readQuoted?, readEscaped?_escape_append]

theorem quoted_append_inj :
    (quoted t).toList ++ rest = (quoted u).toList ++ rest' ↔ t = u ∧ rest = rest' := by
  constructor
  · intro same
    have reads := readQuoted?_quoted_append t rest
    rw [same, readQuoted?_quoted_append] at reads
    simp only [Option.some.injEq, Prod.mk.injEq, String.toList_inj] at reads
    exact ⟨reads.1.symm, reads.2.symm⟩
  · rintro ⟨rfl, rfl⟩
    rfl

theorem quoted_injective : Function.Injective quoted := by
  intro t u same
  exact (quoted_append_inj.1 (congrArg (·.toList ++ []) same)).1

/-! ### Texts that are quoted as they stand -/

/-- Nothing in a text needs a backslash. -/
def Plain (cs : List Char) : Prop := ∀ c ∈ cs, needsBackslash c = false

instance decidablePlain (cs : List Char) : Decidable (Plain cs) :=
  inferInstanceAs (Decidable (∀ c ∈ cs, needsBackslash c = false))

theorem length_escape (cs : List Char) :
    (escape cs).length = cs.length + cs.countP needsBackslash := by
  induction cs with
  | nil => rfl
  | cons c cs ih =>
      cases special : needsBackslash c with
      | true =>
          simp only [escape, special, if_true, List.length_cons, ih, List.countP_cons]
          omega
      | false =>
          simp only [escape, special, Bool.false_eq_true, if_false, List.length_cons, ih,
            List.countP_cons]
          omega

theorem escape_of_plain (plain : Plain cs) : escape cs = cs := by
  induction cs with
  | nil => rfl
  | cons c cs ih =>
      rw [Plain, List.forall_mem_cons] at plain
      simp [escape, plain.1, ih plain.2]

/-- A text is quoted as it stands exactly if it is plain: every backslash makes it longer. -/
theorem escape_eq_self_iff : escape cs = cs ↔ Plain cs := by
  refine ⟨fun same => ?_, escape_of_plain⟩
  have lengths := congrArg List.length same
  rw [length_escape, Nat.add_eq_left, List.countP_eq_zero] at lengths
  simpa [Plain] using lengths

theorem length_lt_of_readEscaped? (h : readEscaped? cs = some (read, rest)) :
    read.length + rest.length < cs.length := by
  fun_induction readEscaped? cs generalizing read with
  | case1 => cases h
  | case2 rest => cases h; simp
  | case3 c cs ih =>
      obtain ⟨⟨read', rest'⟩, found, same⟩ := Option.map_eq_some_iff.1 h
      cases same
      have := ih found
      simp only [List.length_cons]
      omega
  | case4 c cs _ _ ih =>
      obtain ⟨⟨read', rest'⟩, found, same⟩ := Option.map_eq_some_iff.1 h
      cases same
      have := ih found
      simp only [List.length_cons]
      omega

/-- A text that stands between quotes as it is, is read back exactly if it is plain. -/
theorem readEscaped?_append_eq_iff :
    readEscaped? (cs ++ '"' :: rest) = some (cs, rest) ↔ Plain cs := by
  constructor
  · intro back
    induction cs with
    | nil => simp [Plain]
    | cons c cs ih =>
        cases special : needsBackslash c with
        | false =>
            rw [List.cons_append, readEscaped?_cons_plain special, Option.map_eq_some_iff] at back
            obtain ⟨⟨read, rest'⟩, found, same⟩ := back
            cases same
            exact List.forall_mem_cons.2 ⟨special, ih found⟩
        | true =>
            obtain rfl | rfl := needsBackslash_iff.1 special
            · simp [readEscaped?] at back
            · -- the backslash takes a character with it, so what is read falls short by one
              obtain ⟨d, ds, behind⟩ := List.exists_cons_of_ne_nil
                (List.append_ne_nil_of_right_ne_nil cs (List.cons_ne_nil '"' rest))
              rw [List.cons_append, behind, readEscaped?, Option.map_eq_some_iff] at back
              obtain ⟨⟨read, rest'⟩, found, same⟩ := back
              cases same
              have short := length_lt_of_readEscaped? found
              have lengths := congrArg List.length behind
              simp only [List.length_append, List.length_cons] at lengths
              omega
  · intro plain
    conv => lhs; rw [← escape_of_plain plain]
    exact readEscaped?_escape_append cs rest

/-- Quotes around a text as it stands are its quotes exactly if it is plain. -/
theorem bare_eq_quoted_iff :
    '"' :: (t.toList ++ '"' :: rest) = (quoted t).toList ++ rest ↔ Plain t.toList := by
  simp only [toList_quoted_append, List.cons.injEq, true_and, List.append_cancel_right_eq,
    eq_comm (a := t.toList), escape_eq_self_iff]

end Stylesheet.Text
