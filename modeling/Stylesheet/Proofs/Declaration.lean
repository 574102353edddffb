import Stylesheet.Declaration

/-!
# The last declaration of a property

The last declaration of a property is found in its declarations alone, so lists can be
joined, and declarations of other properties added or taken away, without looking at
anything else.
-/

namespace Stylesheet.Declaration

variable {property : String} {ds es : List Declaration}

theorem last?_eq_getLast? (property : String) (ds : List Declaration) :
    last? property ds = (ds.filter (·.property = property)).getLast? := by
  rw [last?, ← List.head?_filter, List.filter_reverse, List.head?_reverse]

theorem last?_congr
    (h : ds.filter (·.property = property) = es.filter (·.property = property)) :
    last? property ds = last? property es := by
  rw [last?_eq_getLast?, last?_eq_getLast?, h]

theorem last?_append :
    last? property (ds ++ es) = (last? property es).or (last? property ds) := by
  simp only [last?_eq_getLast?, List.filter_append, List.getLast?_append]

theorem last?_eq_none_iff :
    last? property ds = none ↔ ∀ d ∈ ds, d.property ≠ property := by
  simp [last?_eq_getLast?]

theorem exists_last?_iff : (∃ d, last? property ds = some d) ↔ ∃ d ∈ ds, d.property = property := by
  rw [← Option.isSome_iff_exists, Option.isSome_iff_ne_none, ne_eq, last?_eq_none_iff]
  simp

theorem mem_of_last? {d : Declaration} (h : last? property ds = some d) : d ∈ ds := by
  rw [last?_eq_getLast?] at h
  exact (List.mem_filter.1 (List.mem_of_getLast? h)).1

theorem property_of_last? {d : Declaration} (h : last? property ds = some d) :
    d.property = property := by
  rw [last?_eq_getLast?] at h
  simpa using (List.mem_filter.1 (List.mem_of_getLast? h)).2

theorem value?_eq_none_iff {d : Declaration} : d.value? = none ↔ d.values = [] := by
  unfold value?
  split
  · next empty => exact iff_of_true rfl empty
  · next other => exact iff_of_false (fun h => by cases h) other

/-- A declaration without a rival is the only one of its property. -/
theorem filter_eq_singleton_of_once {d : Declaration}
    (once : (ds.filter (·.property = property)).length ≤ 1) (hd : d ∈ ds)
    (same : d.property = property) : ds.filter (·.property = property) = [d] := by
  have member : d ∈ ds.filter (·.property = property) := by simp [hd, same]
  obtain ⟨e, only⟩ := List.length_eq_one_iff.1
    (Nat.le_antisymm once (List.length_pos_of_mem member))
  rw [only, List.mem_singleton] at member
  rw [only, member]

theorem last?_of_once {d : Declaration} (once : (ds.filter (·.property = property)).length ≤ 1)
    (hd : d ∈ ds) (same : d.property = property) : last? property ds = some d := by
  rw [last?_eq_getLast?, filter_eq_singleton_of_once once hd same, List.getLast?_singleton]

section Filtered

variable {test : Declaration → Bool}

/-- A test that every declaration of a property passes leaves all of them. -/
theorem filter_filter_of_passed (h : ∀ d ∈ ds, d.property = property → test d = true) :
    (ds.filter test).filter (·.property = property) = ds.filter (·.property = property) := by
  rw [List.filter_filter]
  apply List.filter_congr
  intro d hd
  by_cases same : d.property = property
  · rw [h d hd same, Bool.and_true]
  · simp [same]

/-- A test that no declaration of a property passes leaves none of them. -/
theorem filter_filter_of_failed (h : ∀ d ∈ ds, d.property = property → test d = false) :
    (ds.filter test).filter (·.property = property) = [] := by
  rw [List.filter_filter, List.filter_eq_nil_iff]
  intro d hd
  by_cases same : d.property = property
  · simp [h d hd same]
  · simp [same]

end Filtered

end Stylesheet.Declaration
