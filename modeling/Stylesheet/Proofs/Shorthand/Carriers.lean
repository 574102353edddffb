import Mathlib
import Stylesheet.Proofs.Shorthand.Firing

/-!
# Which declaration stands for which after compaction

Compaction is followed here with every declaration marked by the places of those it
stands for: at first each by its own, and a created shorthand by the places of the
longhands it absorbs. No pass loses a place or marks two declarations with it, so every
place is carried by exactly one declaration of the result.

A created shorthand stands behind all that is left. So two declarations that set a
property in common keep their order unless the first one is absorbed and the second is
not, and the second one is then a shorthand of the first that did not prevent this:
a `border` behind a side of it.
-/

namespace Stylesheet.Shorthand

variable {s t : Shorthand} {ds : List Declaration} {x y : Declaration} {p q : String}

/-- A declaration with the places of the declarations that it stands for. -/
structure Carrier where
  declaration : Declaration
  places : List Nat

namespace Carrier

variable {cs : List Carrier} {c e : Carrier} {i j k l : Nat}

def declarations (cs : List Carrier) : List Declaration := cs.map (·.declaration)

/-- The places that are carried, carrier by carrier. -/
def carried (cs : List Carrier) : List Nat := cs.flatMap (·.places)

/-- Every declaration stands for itself. -/
def start (ds : List Declaration) : List Carrier := ds.zipIdx.map fun (d, i) => ⟨d, [i]⟩

/-- Put one shorthand together and let it carry what its longhands carried. -/
def absorb (s : Shorthand) (cs : List Carrier) : List Carrier :=
  match s.combine? (declarations cs) with
  | some d =>
    cs.filter (fun c => c.declaration.property ∉ s.longhands) ++
      [⟨d, carried (cs.filter fun c => c.declaration.property ∈ s.longhands)⟩]
  | none => cs

/-- Compaction with the places that every declaration stands for. -/
def trace (ds : List Declaration) : List Carrier :=
  compactionOrder.foldl (fun cs s => absorb s cs) (start ds)

/-- Whether a carrier is one of the declarations it stands for, or a shorthand of them. -/
def Faithful (ds : List Declaration) (c : Carrier) : Prop :=
  ∀ i ∈ c.places, ∃ x, ds[i]? = some x ∧
    (c.declaration = x ∨ ∃ s ∈ compactionOrder, c.declaration.property = s.name ∧
      x.property ∈ s.longhands)

/-! ### One pass -/

theorem absorb_of_none (h : s.combine? (declarations cs) = none) : absorb s cs = cs := by
  rw [absorb, h]

theorem absorb_of_some {d : Declaration} (h : s.combine? (declarations cs) = some d) :
    absorb s cs = cs.filter (fun c => c.declaration.property ∉ s.longhands) ++
      [⟨d, carried (cs.filter fun c => c.declaration.property ∈ s.longhands)⟩] := by
  rw [absorb, h]

/-- The marks do not change what a pass does. -/
theorem declarations_absorb (s : Shorthand) (cs : List Carrier) :
    declarations (absorb s cs) = s.compactOne (declarations cs) := by
  cases created : s.combine? (declarations cs) with
  | none => rw [absorb_of_none created, compactOne_of_none created]
  | some d =>
      rw [absorb_of_some created, compactOne_of_some created, declarations, declarations,
        List.map_append, List.filter_map]
      rfl

/-- A pass neither loses nor doubles a place. -/
theorem carried_absorb (s : Shorthand) (cs : List Carrier) :
    (carried (absorb s cs)).Perm (carried cs) := by
  cases created : s.combine? (declarations cs) with
  | none => rw [absorb_of_none created]
  | some d =>
      have split := List.filter_append_perm (fun c => c.declaration.property ∈ s.longhands) cs
      have places := split.flatMap_right (·.places)
      rw [List.flatMap_append] at places
      rw [absorb_of_some created, carried, List.flatMap_append, List.flatMap_singleton]
      refine List.perm_append_comm.trans ?_
      simpa only [carried, decide_not] using places

theorem faithful_absorb (hs : s ∈ compactionOrder) (faithful : ∀ c ∈ cs, Faithful ds c) :
    ∀ c ∈ absorb s cs, Faithful ds c := by
  cases created : s.combine? (declarations cs) with
  | none =>
      rw [absorb_of_none created]
      exact faithful
  | some d =>
      rw [absorb_of_some created]
      intro c hc
      rcases List.mem_append.1 hc with kept | new
      · exact faithful c (List.mem_filter.1 kept).1
      · rw [List.mem_singleton.1 new]
        intro i hi
        obtain ⟨e, he, hi⟩ := List.mem_flatMap.1 hi
        rw [List.mem_filter, decide_eq_true_eq] at he
        obtain ⟨x, hx, same | ⟨t, ht, name, -⟩⟩ := faithful e he.1 i hi
        · exact ⟨x, hx, Or.inr ⟨s, hs, (combine?_eq_some created).1, same ▸ he.2⟩⟩
        · -- a created shorthand is a longhand of none, so it is not absorbed
          have unnamed := named?_longhand s hs _ (name ▸ he.2)
          exact absurd rfl
            (named?_eq_none_iff.1 unnamed t (mem_registry_of_compactionOrder t ht))

/-! ### All passes -/

theorem declarations_foldl (ss : List Shorthand) (cs : List Carrier) :
    declarations (ss.foldl (fun cs s => absorb s cs) cs) =
      ss.foldl (fun ds s => s.compactOne ds) (declarations cs) := by
  induction ss generalizing cs with
  | nil => rfl
  | cons s ss ih => rw [List.foldl_cons, List.foldl_cons, ih, declarations_absorb]

theorem carried_foldl (ss : List Shorthand) (cs : List Carrier) :
    (carried (ss.foldl (fun cs s => absorb s cs) cs)).Perm (carried cs) := by
  induction ss generalizing cs with
  | nil => exact .refl _
  | cons s ss ih => exact (ih (absorb s cs)).trans (carried_absorb s cs)

theorem faithful_foldl {ss : List Shorthand} (hss : ∀ s ∈ ss, s ∈ compactionOrder)
    (faithful : ∀ c ∈ cs, Faithful ds c) :
    ∀ c ∈ ss.foldl (fun cs s => absorb s cs) cs, Faithful ds c := by
  induction ss generalizing cs with
  | nil => exact faithful
  | cons s ss ih =>
      rw [List.forall_mem_cons] at hss
      exact ih hss.2 (faithful_absorb hss.1 faithful)

/-- The carriers that no pass absorbs stay in front, and all others are created. -/
theorem foldl_absorb {ss : List Shorthand} (apart : ss.Pairwise Apart) (cs : List Carrier) :
    ∃ created, ss.foldl (fun cs s => absorb s cs) cs =
      cs.filter (fun c => !ss.any (absorbs (declarations cs) c.declaration.property)) ++
        created := by
  induction ss generalizing cs with
  | nil => exact ⟨[], by simp⟩
  | cons s ss ih =>
      obtain ⟨apartHead, apartTail⟩ := List.pairwise_cons.1 apart
      obtain ⟨later, step⟩ := ih apartTail (absorb s cs)
      rw [List.foldl_cons, step, declarations_absorb]
      simp only [any_absorbs_compactOne apartHead, List.any_cons, Bool.not_or]
      cases created : s.combine? (declarations cs) with
      | none =>
          refine ⟨later, ?_⟩
          rw [absorb_of_none created]
          simp [absorbs, created]
      | some d =>
          rw [absorb_of_some created, List.filter_append, List.filter_filter, List.append_assoc]
          refine ⟨_, congrArg (· ++ _) (List.filter_congr fun c _ => ?_)⟩
          simp [absorbs, created, Bool.and_comm]

/-! ### The carriers of a list of declarations -/

theorem mem_start_iff : c ∈ start ds ↔ ∃ i, ds[i]? = some c.declaration ∧ c.places = [i] := by
  simp only [start, List.mem_map, Prod.exists, List.mem_zipIdx_iff_getElem?]
  constructor
  · rintro ⟨d, i, hd, rfl⟩
    exact ⟨i, hd, rfl⟩
  · rintro ⟨i, hd, places⟩
    exact ⟨c.declaration, i, hd, by rw [← places]⟩

theorem declarations_start (ds : List Declaration) : declarations (start ds) = ds := by
  rw [declarations, start, List.map_map]
  exact List.zipIdx_map_fst 0 ds

theorem carried_start (ds : List Declaration) : carried (start ds) = List.range ds.length := by
  calc carried (start ds)
      _ = ds.zipIdx.map Prod.snd := by rw [carried, start, List.flatMap_map, List.map_eq_flatMap]
      _ = List.range ds.length := by rw [List.zipIdx_map_snd, List.range_eq_range']

theorem declarations_trace (ds : List Declaration) : declarations (trace ds) = compact ds := by
  rw [trace, declarations_foldl, declarations_start, compact]

theorem carried_trace (ds : List Declaration) :
    (carried (trace ds)).Perm (List.range ds.length) :=
  carried_start ds ▸ carried_foldl compactionOrder (start ds)

theorem nodup_carried_trace (ds : List Declaration) : (carried (trace ds)).Nodup :=
  (carried_trace ds).nodup_iff.2 List.nodup_range

theorem faithful_trace (ds : List Declaration) : ∀ c ∈ trace ds, Faithful ds c := by
  apply faithful_foldl fun s hs => hs
  intro c hc i hi
  obtain ⟨j, hj, places⟩ := mem_start_iff.1 hc
  rw [places, List.mem_singleton] at hi
  exact ⟨c.declaration, hi ▸ hj, Or.inl rfl⟩

/-! ### Places in order -/

/-- Places of different carriers are related as the carried list says. -/
theorem related_places {R : Nat → Nat → Prop} (related : (carried cs).Pairwise R)
    (hc : cs[k]? = some c) (he : cs[l]? = some e) (before : k < l) (hi : i ∈ c.places)
    (hj : j ∈ e.places) : R i j := by
  obtain ⟨hk, rfl⟩ := List.getElem?_eq_some_iff.1 hc
  obtain ⟨hl, rfl⟩ := List.getElem?_eq_some_iff.1 he
  exact List.pairwise_iff_getElem.1 (List.pairwise_flatMap.1 related).2 k l hk hl before i hi j hj

theorem eq_of_nodup_places (nodup : (carried cs).Nodup) (hc : cs[k]? = some c)
    (he : cs[l]? = some e) (hi : i ∈ c.places) (hj : i ∈ e.places) : k = l := by
  rcases Nat.lt_trichotomy k l with before | same | after
  · exact absurd rfl (related_places nodup hc he before hi hj)
  · exact same
  · exact absurd rfl (related_places nodup he hc after hj hi)

end Carrier

open Carrier

/-- Whether the declaration at place `i` is carried by the one at place `k` after
compaction. -/
def CarriedAt (ds : List Declaration) (i k : Nat) : Prop :=
  ∃ c, (trace ds)[k]? = some c ∧ i ∈ c.places

section Order

variable {i j k l : Nat}

theorem exists_carriedAt (h : i < ds.length) : ∃ k, ∀ n, CarriedAt ds i n ↔ n = k := by
  obtain ⟨c, hc, hi⟩ := List.mem_flatMap.1 ((carried_trace ds).mem_iff.2 (List.mem_range.2 h))
  obtain ⟨k, hk⟩ := List.mem_iff_getElem?.1 hc
  refine ⟨k, fun n => ⟨?_, ?_⟩⟩
  · rintro ⟨e, he, hj⟩
    exact eq_of_nodup_places (nodup_carried_trace ds) he hk hj hi
  · rintro rfl
    exact ⟨c, hk, hi⟩

/-- The carriers that are not absorbed. -/
def remaining (ds : List Declaration) : List Carrier :=
  (start ds).filter fun c => !compactionOrder.any (absorbs ds c.declaration.property)

theorem trace_eq (ds : List Declaration) : ∃ created, trace ds = remaining ds ++ created := by
  have closed := foldl_absorb compactionOrder_apart (start ds)
  rwa [declarations_start] at closed

theorem mem_remaining_iff {c : Carrier} :
    c ∈ remaining ds ↔ ∃ i, ds[i]? = some c.declaration ∧ c.places = [i] ∧
      ¬ Absorbed ds c.declaration.property := by
  rw [remaining, List.mem_filter, mem_start_iff, not_any_absorbs_iff, ← exists_and_right]
  simp only [and_assoc]

theorem getElem?_trace (hk : k < (remaining ds).length) : (trace ds)[k]? = (remaining ds)[k]? := by
  obtain ⟨created, closed⟩ := trace_eq ds
  rw [closed, List.getElem?_append_left hk]

/-- The carrier of a declaration is among the remaining ones if that is not absorbed. -/
theorem lt_length_remaining_iff (hx : ds[i]? = some x) (carrier : CarriedAt ds i k) :
    k < (remaining ds).length ↔ ¬ Absorbed ds x.property := by
  obtain ⟨c, hc, hi⟩ := carrier
  constructor
  · intro hk
    rw [getElem?_trace hk] at hc
    obtain ⟨n, hn, places, free⟩ := mem_remaining_iff.1 (List.mem_of_getElem? hc)
    rw [places, List.mem_singleton] at hi
    rw [← hi, hx] at hn
    rw [Option.some.inj hn]
    exact free
  · intro free
    obtain ⟨n, hn⟩ := List.mem_iff_getElem?.1
      (mem_remaining_iff.2 ⟨i, hx, rfl, free⟩ : (⟨x, [i]⟩ : Carrier) ∈ remaining ds)
    have inside : n < (remaining ds).length := (List.getElem?_eq_some_iff.1 hn).1
    rw [eq_of_nodup_places (nodup_carried_trace ds) hc ((getElem?_trace inside).trans hn) hi
      (List.mem_singleton_self i)]
    exact inside

theorem sorted_carried_remaining (ds : List Declaration) :
    (carried (remaining ds)).Pairwise (· < ·) := by
  have sublist : (carried (remaining ds)).Sublist (carried (start ds)) :=
    List.filter_sublist.flatMap Carrier.places
  rw [carried_start] at sublist
  exact List.pairwise_lt_range.sublist sublist

/-- What remains is in the order that it had. -/
theorem lt_of_remaining (first : CarriedAt ds i k) (second : CarriedAt ds j l) (before : i < j)
    (hk : k < (remaining ds).length) (hl : l < (remaining ds).length) : k < l := by
  obtain ⟨c, hc, hi⟩ := first
  obtain ⟨e, he, hj⟩ := second
  rw [getElem?_trace hk] at hc
  rw [getElem?_trace hl] at he
  rcases Nat.lt_trichotomy k l with ordered | same | reversed
  · exact ordered
  · subst same
    obtain rfl := Option.some.inj (hc.symm.trans he)
    obtain ⟨n, -, places, -⟩ := mem_remaining_iff.1 (List.mem_of_getElem? hc)
    rw [places, List.mem_singleton] at hi hj
    omega
  · have := related_places (sorted_carried_remaining ds) he hc reversed hj hi
    omega

theorem border_not_absorbed (ds : List Declaration) : ¬ Absorbed ds border.name := by
  rintro ⟨s, hs, -, hp⟩
  exact border_not_longhand s (mem_registry_of_compactionOrder s hs) hp

/-- Only a border overlaps an absorbed declaration that it follows. -/
theorem border_of_overlap (hx : ds[i]? = some x) (hy : ds[j]? = some y) (before : i < j)
    (overlap : ∃ p, Sets x.property p ∧ Sets y.property p)
    (absorbed : Absorbed ds x.property) : y.property = border.name := by
  obtain ⟨s, hs, fires, hp⟩ := absorbed
  obtain ⟨p, hxp, hyp⟩ := overlap
  obtain rfl := hxp.eq_of_unnamed (named?_longhand s hs _ hp)
  rcases hyp.cases_longhand hs hp with same | name | border
  · have twice := ((pair_sublist hx hy before).filter (·.property = x.property)).length_le
    have once := fires.once _ hp
    simp only [same, decide_true, List.filter_cons_of_pos, List.filter_nil, List.length_cons,
      List.length_nil] at twice
    omega
  · exact absurd name (fires.undeclared y (List.mem_of_getElem? hy))
  · exact border

/-- Every declaration has one carrier after compaction, itself or a shorthand created
from it. Two declarations that set a property in common have their carriers in the same
order, unless the first one is absorbed and the second one is a border. -/
theorem carriers_keep_order_iff (hx : ds[i]? = some x) (hy : ds[j]? = some y) (before : i < j)
    (overlap : ∃ p, Sets x.property p ∧ Sets y.property p) :
    (trace ds).map (·.declaration) = compact ds ∧ (∀ c ∈ trace ds, Faithful ds c) ∧
      ∃ k l, (∀ n, CarriedAt ds i n ↔ n = k) ∧ (∀ n, CarriedAt ds j n ↔ n = l) ∧
        (k < l ↔ ¬ (Absorbed ds x.property ∧ y.property = border.name)) := by
  obtain ⟨k, hk⟩ := exists_carriedAt (List.getElem?_eq_some_iff.1 hx).1
  obtain ⟨l, hl⟩ := exists_carriedAt (List.getElem?_eq_some_iff.1 hy).1
  have first : CarriedAt ds i k := (hk k).2 rfl
  have second : CarriedAt ds j l := (hl l).2 rfl
  have front_x := lt_length_remaining_iff hx first
  have front_y := lt_length_remaining_iff hy second
  refine ⟨declarations_trace ds, faithful_trace ds, k, l, hk, hl, ?_⟩
  by_cases absorbed : Absorbed ds x.property
  · -- a border stays in front of the shorthand that is created behind it
    have border := border_of_overlap hx hy before overlap absorbed
    have stays : l < (remaining ds).length := front_y.2 (border ▸ border_not_absorbed ds)
    have moves : ¬ k < (remaining ds).length := fun h => front_x.1 h absorbed
    simp only [absorbed, border, and_self, not_true_eq_false, iff_false]
    omega
  · have stays : k < (remaining ds).length := front_x.2 absorbed
    simp only [absorbed, false_and, not_false_eq_true, iff_true]
    by_cases front : l < (remaining ds).length
    · exact lt_of_remaining first second before stays front
    · omega

/-- A border in front of its sides stays there when the widths are put together. -/
theorem border_stays_in_front :
    let ds : List Declaration :=
      [⟨"border", [.keyword "solid"], false⟩, ⟨"border-top-width", [.keyword "thin"], false⟩,
        ⟨"border-right-width", [.keyword "thick"], false⟩,
        ⟨"border-bottom-width", [.keyword "thin"], false⟩,
        ⟨"border-left-width", [.keyword "thin"], false⟩]
    (∃ p, Sets "border" p ∧ Sets "border-right-width" p) ∧
      ∃ k l, CarriedAt ds 0 k ∧ CarriedAt ds 2 l ∧ k < l := by
  intro ds
  have overlap : ∃ p, Sets "border" p ∧ Sets "border-right-width" p :=
    ⟨"border-right-width", .longhand (s := border) (q := "border-width") (by decide) (by decide)
      (.longhand (s := borderWidth) (by decide) (by decide) (.itself _)), .itself _⟩
  have first : ds[0]? = some ⟨"border", [.keyword "solid"], false⟩ := rfl
  have second : ds[2]? = some ⟨"border-right-width", [.keyword "thick"], false⟩ := rfl
  obtain ⟨-, -, k, l, hk, hl, order⟩ := carriers_keep_order_iff first second (by decide) overlap
  refine ⟨overlap, k, l, (hk k).2 rfl, (hl l).2 rfl, order.2 ?_⟩
  rintro ⟨-, border⟩
  exact absurd border (by decide)

/-- A border behind its sides is overtaken by the widths that are put together. -/
theorem widths_overtake_border :
    let ds : List Declaration :=
      [⟨"border-top-width", [.keyword "thin"], false⟩,
        ⟨"border-right-width", [.keyword "thin"], false⟩,
        ⟨"border-bottom-width", [.keyword "thin"], false⟩,
        ⟨"border-left-width", [.keyword "thin"], false⟩, ⟨"border", [.keyword "thick"], false⟩]
    (∃ p, Sets "border-top-width" p ∧ Sets "border" p) ∧
      ¬ ∃ k l, CarriedAt ds 0 k ∧ CarriedAt ds 4 l ∧ k < l := by
  intro ds
  have only (n : Nat) (ps : List Nat) (found : [[4], [0, 1, 2, 3]][n]? = some ps) (h : 4 ∈ ps) :
      n = 0 := by
    match n, found with
    | 0, _ => rfl
    | 1, rfl => exact absurd h (by decide)
  have places : (trace ds).map (·.places) = [[4], [0, 1, 2, 3]] := by decide +kernel
  have at_front (n : Nat) : CarriedAt ds 4 n → n = 0 := by
    rintro ⟨c, hc, h⟩
    apply only n c.places _ h
    rw [← places, List.getElem?_map, hc, Option.map_some]
  refine ⟨⟨"border-top-width", .itself _, .longhand (s := border) (q := "border-width") (by decide)
    (by decide) (.longhand (s := borderWidth) (by decide) (by decide) (.itself _))⟩, ?_⟩
  rintro ⟨k, l, -, second, before⟩
  rw [at_front l second] at before
  exact Nat.not_lt_zero k before

end Order

end Stylesheet.Shorthand
