import Mathlib

/-!
# Lists of related members

A partial function on every member of a list gives a list that is related to it member
by member. A function to lists may be determined by what it does to a single member, and
if it gives every member something, then it gives as much as there are members only by
giving each one thing. Members may be left out only where it gives them nothing. Where the
members of a list have different keys, no order of them matters to a search by the key. And
what is to hold of the members of a closed list is decided by going through them.
-/

namespace Stylesheet

/-- A property of the members of a closed list is decided member by member. -/
theorem forall_mem_of_all {α : Type} {p : α → Prop} [DecidablePred p] {xs : List α}
    (h : xs.all (fun x => p x) = true) : ∀ x ∈ xs, p x := by
  intro x hx
  exact of_decide_eq_true (List.all_eq_true.1 h x hx)

theorem exists_of_forall₂ {α β : Type} {R : α → β → Prop} {xs : List α} {ys : List β} {x : α}
    (h : List.Forall₂ R xs ys) (hx : x ∈ xs) : ∃ y ∈ ys, R x y := by
  induction h with
  | nil => cases hx
  | cons related _ ih =>
      rcases List.mem_cons.1 hx with rfl | hx
      · exact ⟨_, List.mem_cons_self, related⟩
      · obtain ⟨y, hy, hxy⟩ := ih hx
        exact ⟨y, List.mem_cons_of_mem _ hy, hxy⟩

theorem mapM_congr_of_mem {α β : Type} {f g : α → Option β} {xs : List α}
    (h : ∀ x ∈ xs, f x = g x) : xs.mapM f = xs.mapM g := by
  induction xs with
  | nil => rfl
  | cons x xs ih =>
      rw [List.mapM_cons, List.mapM_cons, h x List.mem_cons_self,
        ih fun y hy => h y (List.mem_cons_of_mem _ hy)]

theorem mapM_eq_some_iff {α β : Type} {f : α → Option β} {xs : List α} {ys : List β} :
    xs.mapM f = some ys ↔ List.Forall₂ (fun x y => f x = some y) xs ys := by
  induction xs generalizing ys with
  | nil => simp [eq_comm]
  | cons x xs ih =>
      rw [List.forall₂_cons_left_iff]
      simp only [List.mapM_cons, Option.bind_eq_bind, Option.bind_eq_some_iff, ih]
      constructor
      · rintro ⟨y, hy, rest, hrest, equal⟩
        exact ⟨y, rest, hy, hrest, (Option.some.inj equal).symm⟩
      · rintro ⟨y, rest, hy, hrest, rfl⟩
        exact ⟨y, hy, rest, hrest, rfl⟩

theorem exists_mapM_eq_some_iff {α β : Type} {f : α → Option β} {xs : List α} :
    (∃ ys, xs.mapM f = some ys) ↔ ∀ x ∈ xs, ∃ y, f x = some y := by
  simp only [mapM_eq_some_iff]
  induction xs with
  | nil => simp
  | cons x xs ih =>
      rw [List.forall_mem_cons, ← ih]
      constructor
      · rintro ⟨ys, each⟩
        obtain ⟨y, rest, hy, hrest, rfl⟩ := List.forall₂_cons_left_iff.1 each
        exact ⟨⟨y, hy⟩, rest, hrest⟩
      · rintro ⟨⟨y, hy⟩, rest, hrest⟩
        exact ⟨y :: rest, .cons hy hrest⟩

theorem exists_mem_zip {α β : Type} {xs : List α} {ys : List β} {y : β}
    (h : xs.length = ys.length) (hy : y ∈ ys) : ∃ x, (x, y) ∈ xs.zip ys := by
  obtain ⟨i, hi, rfl⟩ := List.mem_iff_getElem.1 hy
  have both : i < (xs.zip ys).length := by
    rw [List.length_zip]
    omega
  refine ⟨xs[i], ?_⟩
  rw [← List.getElem_zip (h := both)]
  exact List.getElem_mem both

theorem exists_of_mem_zipWith {α β γ : Type} {f : α → β → γ} {xs : List α} {ys : List β} {z : γ}
    (h : z ∈ List.zipWith f xs ys) : ∃ x ∈ xs, ∃ y ∈ ys, f x y = z := by
  obtain ⟨i, hi⟩ := List.mem_iff_getElem?.1 h
  rw [List.getElem?_zipWith_eq_some] at hi
  obtain ⟨x, y, hx, hy, equal⟩ := hi
  exact ⟨x, List.mem_of_getElem? hx, y, List.mem_of_getElem? hy, equal⟩

theorem pair_sublist {α : Type} {xs : List α} {i j : Nat} {x y : α} (hx : xs[i]? = some x)
    (hy : xs[j]? = some y) (before : i < j) : [x, y].Sublist xs := by
  induction xs generalizing i j with
  | nil => cases hx
  | cons z zs ih =>
      obtain ⟨j, rfl⟩ : ∃ n, j = n + 1 := ⟨j - 1, by omega⟩
      rw [List.getElem?_cons_succ] at hy
      cases i with
      | zero =>
          obtain rfl := Option.some.inj hx
          exact (List.singleton_sublist.2 (List.mem_of_getElem? hy)).cons_cons _
      | succ i =>
          rw [List.getElem?_cons_succ] at hx
          exact (ih hx hy (Nat.lt_of_succ_lt_succ before)).cons z

/-- When all members but one give nothing, that one gives everything. -/
theorem flatMap_of_unique {α β : Type} {f : α → List β} {xs : List α} {x : α} (nodup : xs.Nodup)
    (hx : x ∈ xs) (others : ∀ y ∈ xs, y ≠ x → f y = []) : xs.flatMap f = f x := by
  induction xs with
  | nil => cases hx
  | cons y ys ih =>
      obtain ⟨fresh, nodup⟩ := List.nodup_cons.1 nodup
      rw [List.flatMap_cons]
      rcases List.mem_cons.1 hx with rfl | hx
      · have rest : ys.flatMap f = [] := by
          rw [List.flatMap_eq_nil_iff]
          intro z hz
          exact others z (List.mem_cons_of_mem _ hz) fun same => fresh (same ▸ hz)
        rw [rest, List.append_nil]
      · have silent : f y = [] := others y List.mem_cons_self fun same => fresh (same ▸ hx)
        rw [silent, List.nil_append,
          ih nodup hx fun z hz other => others z (List.mem_cons_of_mem _ hz) other]

theorem filter_key_eq_of_perm {α κ : Type} [DecidableEq κ] {key : α → κ} {xs ys : List α}
    (perm : xs.Perm ys) (distinct : (xs.map key).Nodup) (k : κ) :
    xs.filter (key · = k) = ys.filter (key · = k) := by
  induction perm with
  | nil => rfl
  | cons x _ ih => rw [List.filter_cons, List.filter_cons, ih (List.nodup_cons.1 distinct).2]
  | swap x y l =>
      have other : key y ≠ key x := fun same =>
        (List.nodup_cons.1 distinct).1 (same ▸ List.mem_cons_self)
      by_cases first : key x = k
      · have second : key y ≠ k := fun same => other (same.trans first.symm)
        simp [first, second]
      · simp [List.filter_cons, first]
  | trans front _ ihFront ihBack =>
      exact (ihFront distinct).trans (ihBack ((front.map key).nodup_iff.1 distinct))

theorem length_le_length_flatMap {α β : Type} {f : α → List β} {xs : List α}
    (h : ∀ x ∈ xs, f x ≠ []) : xs.length ≤ (xs.flatMap f).length := by
  induction xs with
  | nil => exact Nat.le_refl _
  | cons x xs ih =>
      have first := List.length_pos_iff.2 (h x List.mem_cons_self)
      have rest := ih fun y hy => h y (List.mem_cons_of_mem _ hy)
      rw [List.flatMap_cons, List.length_append, List.length_cons]
      omega

theorem length_eq_one_of_length_flatMap {α β : Type} {f : α → List β} {xs : List α}
    (h : ∀ x ∈ xs, f x ≠ []) (same : (xs.flatMap f).length = xs.length) :
    ∀ x ∈ xs, (f x).length = 1 := by
  induction xs with
  | nil => exact fun x hx => nomatch hx
  | cons x xs ih =>
      have first := List.length_pos_iff.2 (h x List.mem_cons_self)
      have others : ∀ y ∈ xs, f y ≠ [] := fun y hy => h y (List.mem_cons_of_mem _ hy)
      have least := length_le_length_flatMap others
      rw [List.flatMap_cons, List.length_append, List.length_cons] at same
      rw [List.forall_mem_cons]
      exact ⟨by omega, ih others (by omega)⟩

/-- Leaving members out changes nothing exactly if they have nothing to give. -/
theorem flatMap_filter_eq_iff {α β : Type} {p : α → Prop} [DecidablePred p] {f : α → List β}
    {xs : List α} :
    (xs.filter p).flatMap f = xs.flatMap f ↔ ∀ x ∈ xs, p x ∨ f x = [] := by
  induction xs with
  | nil => simp
  | cons x xs ih =>
      rw [List.forall_mem_cons, ← ih, List.flatMap_cons]
      by_cases passed : p x
      · simp [passed]
      · constructor
        · intro same
          rw [List.filter_cons_of_neg (by simpa using passed)] at same
          have lengths := congrArg List.length same
          rw [List.length_append] at lengths
          have fewer : (xs.filter p).Sublist xs := List.filter_sublist
          have least := (fewer.flatMap f).length_le
          have nothing : f x = [] := List.length_eq_zero_iff.1 (by omega)
          rw [nothing, List.nil_append] at same
          exact ⟨Or.inr nothing, same⟩
        · rintro ⟨passes | nothing, same⟩
          · exact absurd passes passed
          · simp [passed, nothing, same]

end Stylesheet
