import Mathlib
import Stylesheet.Proofs.Cascade.Order
import Stylesheet.Proofs.Declaration

/-!
# What takes effect after merging one block

For a property that effect is had by the last declaration that sets it, be it of the
property itself or of a shorthand. Merging a block keeps the last declaration of every
property, but leaves it in the place of the first one. So after merging, the effect is
that of the property which turns up last among those that set the given one, and it is
the effect that the block had exactly if that property is also the last to be declared.
Nothing changes where only one of them is declared at all.
-/

namespace Stylesheet.Cascade

open Shorthand (Sets)

/-- The declaration that takes effect for a property: the last one that sets it. -/
def effective? (p : String) (ds : List Declaration) : Option Declaration :=
  ds.reverse.find? fun d => Sets d.property p

/-- The property that sets `p` and is the last of those to be declared for the first
time. -/
def newest? (p : String) (ds : List Declaration) : Option String :=
  ((ds.map (·.property)).eraseDups.filter fun q => Sets q p).getLast?

variable {p : String} {ds : List Declaration} {d : Declaration} {b : Block} {expand : Bool}

/-! ### Effects in a list of declarations -/

theorem effective?_eq_getLast? (p : String) (ds : List Declaration) :
    effective? p ds = (ds.filter fun d => Sets d.property p).getLast? := by
  rw [effective?, ← List.head?_filter, List.filter_reverse, List.head?_reverse]

theorem of_effective? (h : effective? p ds = some d) : d ∈ ds ∧ Sets d.property p := by
  rw [effective?_eq_getLast?] at h
  simpa using List.mem_filter.1 (List.mem_of_getLast? h)

/-- What takes effect is the last declaration of its own property. -/
theorem last?_of_effective? (h : effective? p ds = some d) :
    Declaration.last? d.property ds = some d := by
  obtain ⟨-, sets⟩ := of_effective? h
  have own : ds.filter (·.property = d.property) =
      (ds.filter fun e => Sets e.property p).filter (·.property = d.property) := by
    rw [List.filter_filter]
    apply List.filter_congr
    intro e _
    by_cases same : e.property = d.property
    · simp [same, sets]
    · simp [same]
  rw [effective?_eq_getLast?] at h
  obtain ⟨earlier, split⟩ := List.getLast?_eq_some_iff.1 h
  rw [Declaration.last?_eq_getLast?, own, split]
  simp

theorem of_newest? {q : String} (h : newest? p ds = some q) :
    (∃ d ∈ ds, d.property = q) ∧ Sets q p := by
  have member := List.mem_of_getLast? h
  rw [List.mem_filter, List.mem_eraseDups, List.mem_map, decide_eq_true_eq] at member
  exact member

theorem effective?_eq_none_iff : effective? p ds = none ↔ ∀ d ∈ ds, ¬ Sets d.property p := by
  simp [effective?]

theorem newest?_eq_none_iff : newest? p ds = none ↔ effective? p ds = none := by
  rw [effective?_eq_getLast?, newest?, List.getLast?_eq_none_iff, List.getLast?_eq_none_iff,
    List.filter_eq_nil_iff, List.filter_eq_nil_iff]
  simp only [List.mem_eraseDups, List.forall_mem_map]

/-- Where a single one of the properties that set `p` is declared, it is the newest. -/
theorem newest?_of_unique
    (unique : ∀ d ∈ ds, ∀ e ∈ ds, Sets d.property p → Sets e.property p →
      d.property = e.property) :
    newest? p ds = (effective? p ds).map (·.property) := by
  cases effect : effective? p ds with
  | none => rw [newest?_eq_none_iff.2 effect, Option.map_none]
  | some e =>
      obtain ⟨q, newest⟩ : ∃ q, newest? p ds = some q := by
        rw [← Option.ne_none_iff_exists', ne_eq, newest?_eq_none_iff, effect]
        exact Option.some_ne_none e
      obtain ⟨⟨d, hd, rfl⟩, sets⟩ := of_newest? newest
      obtain ⟨he, sets'⟩ := of_effective? effect
      rw [newest, unique d hd e he sets sets', Option.map_some]

/-! ### Effects in a merged block -/

/-- Merging a block keeps the last declaration of each property. -/
theorem last?_of_mem_merge (plain : ∀ d ∈ b.declarations, d.important = false)
    (hd : d ∈ (merge ⟨expand, false⟩ [b]).declarations) :
    Declaration.last? d.property (prepare ⟨expand, false⟩ b).declarations = some d := by
  rw [merge_of_literal] at hd
  obtain ⟨c, hc, rfl⟩ := List.mem_map.1 hd
  have wins := (holds_survivors ⟨expand, false⟩ [b]).wins c hc
  have unimportant : ∀ x ∈ competitors ⟨expand, false⟩ [b], x.declaration.important = false :=
    plain_competitors (by simpa using plain)
  have last := wins.getLast?_weight fun x hx => unimportant x (List.mem_filter.1 hx).1
  have own : competitors ⟨expand, false⟩ [b] = candidates (prepare ⟨expand, false⟩ b) :=
    (competitors_eq ..).trans (List.flatMap_singleton ..)
  rw [own] at last wins
  -- all candidates of one block weigh the same
  have weight {x : Candidate} (hx : x ∈ candidates (prepare ⟨expand, false⟩ b)) :
      x.weight = (prepare ⟨expand, false⟩ b).weight := by
    obtain ⟨e, -, rfl⟩ := List.mem_map.1 hx
    rfl
  have alike : (rivals c.declaration.property (candidates (prepare ⟨expand, false⟩ b))).filter
      (·.weight = c.weight) =
        rivals c.declaration.property (candidates (prepare ⟨expand, false⟩ b)) := by
    rw [List.filter_eq_self]
    intro x hx
    simp [weight (List.mem_filter.1 hx).1, weight (List.mem_filter.1 wins.mem).1]
  rw [alike, rivals, candidates, List.filter_map, List.getLast?_map,
    Option.map_eq_some_iff] at last
  obtain ⟨e, found, rfl⟩ := last
  rw [Declaration.last?_eq_getLast?]
  exact found

/-- The effect in a merged block is that of the newest property. -/
theorem newest?_eq_map_effective?_merge (b : Block) (expand : Bool) (p : String) :
    newest? p (prepare ⟨expand, false⟩ b).declarations =
      (effective? p (merge ⟨expand, false⟩ [b]).declarations).map (·.property) := by
  have order := (holds_survivors ⟨expand, false⟩ [b]).order
  have own : (competitors ⟨expand, false⟩ [b]).map (·.declaration.property) =
      (prepare ⟨expand, false⟩ b).declarations.map (·.property) := by
    simp [competitors_eq, candidates]
  rw [effective?_eq_getLast?, merge_of_literal, ← List.getLast?_map, newest?, ← own, ← order,
    List.filter_map, List.filter_map, List.map_map]
  rfl

/-- What takes effect for a property after merging a block without important
declarations is the last declaration of the newest property that sets it. It is what took
effect in the block exactly if that property is the one that took effect, and so it is
wherever a single property that sets the given one is declared. Nothing takes effect only where
no such property is declared. -/
theorem effective?_merge_iff (expand : Bool) (plain : ∀ d ∈ b.declarations, d.important = false)
    (p : String) :
    let ds := (prepare ⟨expand, false⟩ b).declarations
    let merged := (merge ⟨expand, false⟩ [b]).declarations
    effective? p merged = (newest? p ds).bind (Declaration.last? · ds) ∧
      ((effective? p merged).map (fun d => (d.property, d.values)) =
          (effective? p ds).map (fun d => (d.property, d.values)) ↔
        newest? p ds = (effective? p ds).map (·.property)) ∧
      ((∀ d ∈ ds, ∀ e ∈ ds, Sets d.property p → Sets e.property p →
        d.property = e.property) → effective? p merged = effective? p ds) ∧
      (effective? p merged = none ↔ ∀ d ∈ ds, ¬ Sets d.property p) := by
  intro ds merged
  have newest : newest? p ds = (effective? p merged).map (·.property) :=
    newest?_eq_map_effective?_merge b expand p
  have effect : effective? p merged = (newest? p ds).bind (Declaration.last? · ds) := by
    rw [newest]
    cases found : effective? p merged with
    | none => rfl
    | some d => exact (last?_of_mem_merge plain (of_effective? found).1).symm
  have same (h : newest? p ds = (effective? p ds).map (·.property)) :
      effective? p merged = effective? p ds := by
    rw [effect, h]
    cases found : effective? p ds with
    | none => rfl
    | some d => exact last?_of_effective? found
  refine ⟨effect, ⟨?_, fun h => by rw [same h]⟩, fun unique => same (newest?_of_unique unique), ?_⟩
  · intro equal
    have properties := congrArg (Option.map Prod.fst) equal
    rw [Option.map_map, Option.map_map] at properties
    rw [newest]
    exact properties
  · have undeclared : newest? p ds = none ↔ ∀ d ∈ ds, ¬ Sets d.property p :=
      newest?_eq_none_iff.trans effective?_eq_none_iff
    rw [← undeclared, newest, Option.map_eq_none_iff]

/-- A side behind its shorthand keeps its effect. -/
theorem effective?_merge_of_side :
    let b : Block := ⟨[], [⟨"border-style", [.keyword "solid"], false⟩,
      ⟨"border-top-style", [.keyword "dotted"], false⟩,
      ⟨"border-top-style", [.keyword "dashed"], false⟩]⟩
    (∀ d ∈ b.declarations, d.important = false) ∧
      (effective? "border-top-style" (merge .literal [b]).declarations).map
          (fun d => (d.property, d.values)) =
        (effective? "border-top-style" b.declarations).map fun d => (d.property, d.values) := by
  intro b
  have plain : ∀ d ∈ b.declarations, d.important = false := by simp [b]
  exact ⟨plain, (effective?_merge_iff false plain "border-top-style").2.1.2 (by decide +kernel)⟩

/-- A side that is declared in front of its shorthand and again behind it loses its
effect to the shorthand. -/
theorem side_is_overridden :
    let b : Block := ⟨[], [⟨"border-top-style", [.keyword "dotted"], false⟩,
      ⟨"border-style", [.keyword "solid"], false⟩,
      ⟨"border-top-style", [.keyword "dashed"], false⟩]⟩
    (∀ d ∈ b.declarations, d.important = false) ∧
      (effective? "border-top-style" (prepare .literal b).declarations).map Declaration.text =
        some "border-top-style: dashed;" ∧
      (effective? "border-top-style" (merge .literal [b]).declarations).map Declaration.text =
        some "border-style: solid;" := by
  intro b
  exact ⟨by simp [b], by decide +kernel, by decide +kernel⟩

end Stylesheet.Cascade
