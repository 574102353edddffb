import Mathlib
import Stylesheet.Text.Blank

/-!
# Blanks around a text

Trimming takes blanks away at both ends and nothing else, so a text is trimmed to the
same characters whatever blanks stand around it, and trimming again changes nothing.
-/

namespace Stylesheet.Text

variable {before cs after : List Char}

theorem trim_blank_append (blank : ∀ c ∈ before, isBlank c = true) :
    trim (before ++ cs) = trim cs := by
  rw [trim, trim, trimStart, trimStart, List.dropWhile_append_of_pos blank]

theorem trimEnd_append_blank (blank : ∀ c ∈ after, isBlank c = true) :
    trimEnd (cs ++ after) = trimEnd cs := by
  have reversed : ∀ c ∈ after.reverse, isBlank c = true := by simpa using blank
  rw [trimEnd, trimEnd, List.reverse_append, List.dropWhile_append_of_pos reversed]

theorem trimStart_eq_nil_iff : trimStart cs = [] ↔ ∀ c ∈ cs, isBlank c = true := by
  rw [trimStart, List.dropWhile_eq_nil_iff]

theorem trim_append_blank (blank : ∀ c ∈ after, isBlank c = true) :
    trim (cs ++ after) = trim cs := by
  by_cases empty : trimStart cs = []
  · -- then all of it is blank, and so is what stands behind it
    have front := trimStart_eq_nil_iff.1 empty
    have behind : trimStart after = [] := trimStart_eq_nil_iff.2 blank
    rw [trim_blank_append front, trim, trim, empty, behind]
  · have start : trimStart (cs ++ after) = trimStart cs ++ after := by
      rw [trimStart] at empty
      rw [trimStart, trimStart, List.dropWhile_append, if_neg (by simpa using empty)]
    rw [trim, trim, start, trimEnd_append_blank blank]

/-- Blanks around a text are no part of it. -/
theorem trim_surrounded (front : ∀ c ∈ before, isBlank c = true)
    (behind : ∀ c ∈ after, isBlank c = true) : trim (before ++ (cs ++ after)) = trim cs := by
  rw [trim_blank_append front, trim_append_blank behind]

theorem trimStart_of_head (solid : ∀ c ∈ cs.head?, isBlank c = false) : trimStart cs = cs := by
  cases cs with
  | nil => rfl
  | cons c cs => rw [trimStart, List.dropWhile_cons_of_neg (by simp [solid c rfl])]

/-- Only the ends of a text count. -/
theorem trim_of_ends (first : ∀ c ∈ cs.head?, isBlank c = false)
    (last : ∀ c ∈ cs.getLast?, isBlank c = false) : trim cs = cs := by
  have reversed : trimStart cs.reverse = cs.reverse := trimStart_of_head (by simpa using last)
  rw [trim, trimStart_of_head first, trimEnd, ← trimStart, reversed, List.reverse_reverse]

/-- A text without blanks stays as it is. -/
theorem trim_of_not_blank (solid : ∀ c ∈ cs, isBlank c = false) : trim cs = cs :=
  trim_of_ends (fun c hc => solid c (List.mem_of_mem_head? hc))
    fun c hc => solid c (List.mem_of_getLast? hc)

/-- Trimming leaves out nothing but blanks. -/
theorem exists_surrounded (cs : List Char) : ∃ before after,
    cs = before ++ (trim cs ++ after) ∧ (∀ c ∈ before, isBlank c = true) ∧
      ∀ c ∈ after, isBlank c = true := by
  have ending (ds : List Char) : ds = trimEnd ds ++ (ds.reverse.takeWhile isBlank).reverse := by
    rw [trimEnd, ← List.reverse_append, List.takeWhile_append_dropWhile, List.reverse_reverse]
  refine ⟨cs.takeWhile isBlank, ((trimStart cs).reverse.takeWhile isBlank).reverse, ?_, ?_, ?_⟩
  · rw [trim, ← ending, trimStart, List.takeWhile_append_dropWhile]
  · intro c hc
    exact List.mem_takeWhile_imp hc
  · intro c hc
    exact List.mem_takeWhile_imp (List.mem_reverse.1 hc)

theorem trim_trim (cs : List Char) : trim (trim cs) = trim cs := by
  obtain ⟨before, after, split, front, behind⟩ := exists_surrounded cs
  conv_rhs => rw [split, trim_surrounded front behind]

theorem trim_eq_nil_iff : trim cs = [] ↔ ∀ c ∈ cs, isBlank c = true := by
  constructor
  · intro empty
    obtain ⟨before, after, split, front, behind⟩ := exists_surrounded cs
    rw [empty, List.nil_append] at split
    rw [split, List.forall_mem_append]
    exact ⟨front, behind⟩
  · intro blank
    rw [trim, trimStart_eq_nil_iff.2 blank]
    rfl

/-- A blank has no letter case. -/
theorem toLower_of_blank {c : Char} (h : isBlank c = true) : c.toLower = c := by
  unfold Char.toLower
  rw [dif_neg]
  rintro ⟨lower, upper⟩
  have least : 65 ≤ c.toNat := lower
  have most : c.toNat ≤ 90 := upper
  simp only [isBlank, Bool.or_eq_true, Bool.and_eq_true, decide_eq_true_eq] at h
  omega

/-- A word that has no blanks in lower case has none at all. -/
theorem not_blank_of_lower {word : String}
    (solid : ∀ c ∈ (lower word).toList, isBlank c = false) :
    ∀ c ∈ word.toList, isBlank c = false := by
  intro c hc
  rw [Bool.eq_false_iff]
  intro blank
  have member : c ∈ (lower word).toList := by
    rw [lower, String.toList_ofList]
    exact List.mem_map.2 ⟨c, hc, toLower_of_blank blank⟩
  rw [solid c member] at blank
  cases blank

end Stylesheet.Text
