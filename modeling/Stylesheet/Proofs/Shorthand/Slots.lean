import Mathlib
import Stylesheet.Proofs.Shorthand.Part

/-!
# One token after the other

Sorting by part looks at all tokens at once. A shorthand may also be read by going through
its tokens one after the other, with a slot for each part: a token is put behind those that
are in its slot, and the reader gives up at a token that belongs to no part, and at a second
one for a slot that takes only one. What is in the slots in the end is what sorting finds.
-/

namespace Stylesheet.Shorthand

variable {κ : Type} {part? : Value → Option κ} {several : κ → Bool} {slots after : κ → List Value}
  {k : κ} {v : Value} {vs : List Value}

theorem allKnown_iff : allKnown part? vs = true ↔ ∀ v ∈ vs, ∃ k, part? v = some k := by
  simp [allKnown, Option.isSome_iff_exists]

variable [DecidableEq κ]

/-- When every value belongs to one of these parts, sorting by part keeps them all. -/
theorem perm_flatMap_valuesOf {kinds : List κ} (distinct : kinds.Nodup)
    (known : ∀ v ∈ vs, ∃ k ∈ kinds, part? v = some k) :
    vs.Perm (kinds.flatMap fun k => valuesOf part? k vs) := by
  induction kinds generalizing vs with
  | nil =>
      cases vs with
      | nil => exact .nil
      | cons v vs => exact absurd (known v List.mem_cons_self) (by simp)
  | cons k kinds ih =>
      obtain ⟨fresh, distinct⟩ := List.nodup_cons.1 distinct
      -- the values of the other parts are those that are left without the first part
      let rest := vs.filter fun v => !decide (part? v = some k)
      have others : ∀ j ∈ kinds, valuesOf part? j rest = valuesOf part? j vs := by
        intro j hj
        rw [valuesOf, valuesOf, List.filter_filter]
        apply List.filter_congr
        intro v _
        by_cases h : part? v = some j
        · have other : j ≠ k := fun same => fresh (same ▸ hj)
          simp [h, other]
        · simp [h]
      have left : rest.Perm (kinds.flatMap fun j => valuesOf part? j rest) := by
        apply ih distinct
        intro v hv
        obtain ⟨hv, other⟩ := List.mem_filter.1 hv
        obtain ⟨j, hj, kind⟩ := known v hv
        rcases List.mem_cons.1 hj with rfl | hj
        · simp [kind] at other
        · exact ⟨j, hj, kind⟩
      rw [List.flatMap_congr others] at left
      rw [List.flatMap_cons]
      exact (List.filter_append_perm _ vs).symm.trans (left.append_left _)

theorem perm_of_allKnown {kinds : List κ} (distinct : kinds.Nodup) (all : ∀ k, k ∈ kinds)
    (known : allKnown part? vs = true) : vs.Perm (kinds.flatMap fun k => valuesOf part? k vs) :=
  perm_flatMap_valuesOf distinct fun v hv =>
    (allKnown_iff.1 known v hv).imp fun k kind => ⟨all k, kind⟩

/-- Put a token into the slot of its part. -/
def place? (part? : Value → Option κ) (several : κ → Bool) (slots : κ → List Value) (v : Value) :
    Option (κ → List Value) := do
  let k ← part? v
  guard (several k || (slots k).isEmpty)
  return Function.update slots k (slots k ++ [v])

/-- Put all tokens into slots that are empty at first. -/
def placeAll? (part? : Value → Option κ) (several : κ → Bool) (vs : List Value) :
    Option (κ → List Value) :=
  vs.foldlM (place? part? several) fun _ => []

/-- No slot that takes one token has two. -/
def Within (several : κ → Bool) (slots : κ → List Value) : Prop :=
  ∀ k, several k = false → (slots k).length ≤ 1

theorem place?_eq_some :
    place? part? several slots v = some after ↔ ∃ k, part? v = some k ∧
      (several k = true ∨ slots k = []) ∧ Function.update slots k (slots k ++ [v]) = after := by
  simp only [place?, Option.bind_eq_bind, Option.bind_eq_some_iff, Option.guard_eq_some',
    Bool.or_eq_true, List.isEmpty_iff]
  constructor
  · rintro ⟨k, kind, -, free, placed⟩
    exact ⟨k, kind, free, Option.some.inj placed⟩
  · rintro ⟨k, kind, free, rfl⟩
    exact ⟨k, kind, (), free, rfl⟩

/-- A token that is put into its slot leaves no slot with too many. -/
theorem Within.place? (within : Within several slots)
    (h : place? part? several slots v = some after) : Within several after := by
  obtain ⟨k, -, free, rfl⟩ := place?_eq_some.1 h
  intro j single
  by_cases same : j = k
  · subst same
    rcases free with free | free
    · rw [single] at free
      cases free
    · simp [free]
  · rw [Function.update_of_ne same]
    exact within j single

/-- Sorting finds a token in the slot of its part. -/
theorem append_valuesOf_cons (kind : part? v = some k) (j : κ) :
    slots j ++ valuesOf part? j (v :: vs) =
      Function.update slots k (slots k ++ [v]) j ++ valuesOf part? j vs := by
  by_cases same : j = k
  · subst same
    simp [valuesOf, kind]
  · rw [Function.update_of_ne same, valuesOf, valuesOf, List.filter_cons_of_neg]
    simpa [kind] using Ne.symm same

/-- Going on from slots that hold no more than they take, the reader succeeds if all tokens
are known and find room, and finds in each slot what sorting adds to it. -/
theorem foldlM_place?_eq_some (within : Within several slots) :
    vs.foldlM (place? part? several) slots = some after ↔
      allKnown part? vs = true ∧ (fun k => slots k ++ valuesOf part? k vs) = after ∧
        Within several after := by
  induction vs generalizing slots with
  | nil =>
      simp only [List.foldlM_nil, Option.pure_def, Option.some.injEq, allKnown, List.all_nil,
        valuesOf, List.filter_nil, List.append_nil, true_and]
      exact ⟨fun same => ⟨same, same ▸ within⟩, And.left⟩
  | cons v vs ih =>
      rw [List.foldlM_cons, Option.bind_eq_bind, Option.bind_eq_some_iff]
      constructor
      · rintro ⟨mid, placed, rest⟩
        obtain ⟨known, rfl, room⟩ := (ih (within.place? placed)).1 rest
        obtain ⟨k, kind, -, rfl⟩ := place?_eq_some.1 placed
        refine ⟨?_, funext fun j => append_valuesOf_cons kind j, room⟩
        rw [allKnown, List.all_cons, kind]
        exact known
      · rintro ⟨known, rfl, room⟩
        rw [allKnown, List.all_cons, Bool.and_eq_true] at known
        obtain ⟨k, kind⟩ := Option.isSome_iff_exists.1 known.1
        have free : several k = true ∨ slots k = [] := by
          cases one : several k with
          | true => exact Or.inl rfl
          | false =>
              have few : (slots k ++ valuesOf part? k (v :: vs)).length ≤ 1 := room k one
              rw [append_valuesOf_cons kind, Function.update_self] at few
              simp only [List.length_append, List.length_singleton] at few
              exact Or.inr (List.length_eq_zero_iff.1 (by omega))
        have placed := place?_eq_some.2 ⟨k, kind, free, rfl⟩
        refine ⟨_, placed, (ih (within.place? placed)).2 ⟨known.2, ?_, room⟩⟩
        exact funext fun j => (append_valuesOf_cons kind j).symm

/-- Every token belongs to a part, and no part that takes one token is given two. -/
structure Admits (part? : Value → Option κ) (several : κ → Bool) (tokens : List Value) :
    Prop where
  known : ∀ v ∈ tokens, ∃ k, part? v = some k
  once : ∀ k, several k = false → (valuesOf part? k tokens).length ≤ 1

/-- From empty slots the reader succeeds exactly on tokens that the parts admit. -/
theorem placeAll?_eq_some :
    placeAll? part? several vs = some after ↔
      Admits part? several vs ∧ (fun k => valuesOf part? k vs) = after := by
  have empty : Within several (fun _ : κ => []) := fun _ _ => Nat.zero_le 1
  rw [placeAll?, foldlM_place?_eq_some empty, allKnown_iff]
  constructor
  · rintro ⟨known, rfl, room⟩
    exact ⟨⟨known, room⟩, rfl⟩
  · rintro ⟨admitted, rfl⟩
    exact ⟨admitted.known, rfl, admitted.once⟩

theorem exists_placeAll?_iff :
    (∃ slots, placeAll? part? several vs = some slots) ↔ Admits part? several vs := by
  simp [placeAll?_eq_some]

end Stylesheet.Shorthand
