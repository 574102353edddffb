import Stylesheet.Proofs.Value.Series
import Stylesheet.Shorthand.Part

/-!
# Reading values by their parts

A part that takes one value gives that value back, or its initial value, and both are
of the part's kind. So a longhand can only be restored if its value is of that kind;
and when every value is of the kind of its longhand, each part finds the value of its
own longhand and no other.
-/

namespace Stylesheet.Shorthand

/-- Whether each part of an expansion is the value that its longhand had. A longhand
without a value may be given any. -/
def Restored (parts : List Value) (vs : List (Option Value)) : Prop :=
  List.Forall₂ (fun part held => ∀ v ∈ held, part.Agrees v) parts vs

/-- The values that are there are in pieces longhand by longhand. -/
theorem flattenSpaces_present (held : Option Value) (vs : List (Option Value)) :
    Value.flattenSpaces ((held :: vs).filterMap id) =
      Value.flattenSpaces held.toList ++ Value.flattenSpaces (vs.filterMap id) := by
  cases held with
  | none => rfl
  | some v => exact Value.flattenSpaces_cons v _

section Parts

variable {κ : Type} {part? : Value → Option κ} {k : κ} {vs : List Value}

theorem allKnown_append (vs ws : List Value) :
    allKnown part? (vs ++ ws) = (allKnown part? vs && allKnown part? ws) :=
  List.all_append ..

theorem allKnown_of_forall (h : ∀ v ∈ vs, part? v = some k) : allKnown part? vs = true := by
  rw [allKnown, List.all_eq_true]
  intro v hv
  rw [h v hv, Option.isSome_some]

theorem allKnown_slots {slots : List (κ × Option Value)}
    (kinds : ∀ slot ∈ slots, ∀ w ∈ Value.flattenSpaces slot.2.toList, part? w = some slot.1) :
    allKnown part? (Value.flattenSpaces ((slots.map Prod.snd).filterMap id)) = true := by
  induction slots with
  | nil => rfl
  | cons slot slots ih =>
      rw [List.map_cons, flattenSpaces_present, allKnown_append,
        allKnown_of_forall (kinds slot List.mem_cons_self),
        ih fun other h => kinds other (List.mem_cons_of_mem _ h), Bool.and_self]

@[simp] theorem single?_nil (initial : Value) : single? initial [] = some initial := rfl

@[simp] theorem single?_singleton (initial v : Value) : single? initial [v] = some v := rfl

@[simp] theorem single?_toList (initial : Value) (held : Option Value) :
    single? initial held.toList = some (held.getD initial) := by
  cases held <;> rfl

/-- A value that is there is restored, whatever stands for one that is not. -/
theorem agrees_getD (held : Option Value) (initial : Value) :
    ∀ v ∈ held, (held.getD initial).Agrees v := by
  rintro v rfl
  exact .refl v

theorem eq_initial_or_mem_of_single? {initial v : Value} (h : single? initial vs = some v) :
    v = initial ∨ v ∈ vs := by
  unfold single? at h
  split at h
  · exact Or.inl (Option.some.inj h).symm
  · obtain rfl := Option.some.inj h
    exact Or.inr (List.mem_singleton_self _)
  · cases h

variable [DecidableEq κ]

theorem mem_valuesOf {v : Value} : v ∈ valuesOf part? k vs ↔ v ∈ vs ∧ part? v = some k := by
  simp [valuesOf]

theorem valuesOf_append (vs ws : List Value) :
    valuesOf part? k (vs ++ ws) = valuesOf part? k vs ++ valuesOf part? k ws :=
  List.filter_append ..

theorem valuesOf_eq_self (h : ∀ v ∈ vs, part? v = some k) : valuesOf part? k vs = vs := by
  rw [valuesOf, List.filter_eq_self]
  simpa using h

theorem valuesOf_eq_nil {j k : κ} (h : ∀ v ∈ vs, part? v = some j) (other : j ≠ k) :
    valuesOf part? k vs = [] := by
  rw [valuesOf, List.filter_eq_nil_iff]
  intro v hv
  simp [h v hv, other]

/-- The value that a part takes is of the part's kind, if its initial value is. -/
theorem part?_of_single? {initial v : Value} (own : part? initial = some k)
    (h : single? initial (valuesOf part? k vs) = some v) : part? v = some k := by
  rcases eq_initial_or_mem_of_single? h with rfl | member
  · exact own
  · exact (mem_valuesOf.1 member).2

/-- So is the value of a longhand that comes back from such a part. -/
theorem part?_of_restored {initial found : Value} {held : Option Value}
    (congr : ∀ {v w : Value}, v.Agrees w → part? v = part? w) (own : part? initial = some k)
    (h : single? initial (valuesOf part? k vs) = some found)
    (back : ∀ v ∈ held, found.Agrees v) : ∀ v ∈ held, part? v = some k := by
  intro v hv
  rw [← congr (back v hv)]
  exact part?_of_single? own h

section Slots

variable {slots : List (κ × Option Value)}
  (kinds : ∀ slot ∈ slots, ∀ w ∈ Value.flattenSpaces slot.2.toList, part? w = some slot.1)

include kinds

theorem valuesOf_slots_eq_nil (missing : k ∉ slots.map Prod.fst) :
    valuesOf part? k (Value.flattenSpaces ((slots.map Prod.snd).filterMap id)) = [] := by
  induction slots with
  | nil => rfl
  | cons slot slots ih =>
      rw [List.map_cons, List.mem_cons, not_or] at missing
      rw [List.map_cons, flattenSpaces_present, valuesOf_append,
        valuesOf_eq_nil (kinds slot List.mem_cons_self) (Ne.symm missing.1),
        ih (fun other h => kinds other (List.mem_cons_of_mem _ h)) missing.2, List.append_nil]

/-- When the pieces of every slot are of its kind, and no two slots are of one kind,
then sorting all pieces by kind finds those of each slot. -/
theorem valuesOf_slots (distinct : (slots.map Prod.fst).Nodup) {slot : κ × Option Value}
    (h : slot ∈ slots) :
    valuesOf part? slot.1 (Value.flattenSpaces ((slots.map Prod.snd).filterMap id)) =
      Value.flattenSpaces slot.2.toList := by
  induction slots with
  | nil => cases h
  | cons first slots ih =>
      obtain ⟨missing, distinct⟩ := List.nodup_cons.1 distinct
      have others : ∀ other ∈ slots, ∀ w ∈ Value.flattenSpaces other.2.toList,
          part? w = some other.1 :=
        fun other ho => kinds other (List.mem_cons_of_mem _ ho)
      rw [List.map_cons, flattenSpaces_present, valuesOf_append]
      rcases List.mem_cons.1 h with rfl | h
      · rw [valuesOf_eq_self (kinds slot List.mem_cons_self),
          valuesOf_slots_eq_nil others missing, List.append_nil]
      · have other : first.1 ≠ slot.1 := by
          intro same
          exact missing (same ▸ List.mem_map_of_mem h)
        rw [valuesOf_eq_nil (kinds first List.mem_cons_self) other, ih others distinct h,
          List.nil_append]

end Slots

end Parts

end Stylesheet.Shorthand
