import Mathlib
import Stylesheet.Proofs.Shorthand.Font
import Stylesheet.Proofs.Shorthand.Slots

/-!
# What a font loses

The reader of a font takes any number of styles, variants and weights in front of the size
and keeps the last of each. The ones before it are lost, and nothing else is: whatever was
written, the size, the line height and the family included, is found in the longhands as
often as it was written, and the longhands hold nothing more than that but `normal`.
-/

namespace Stylesheet

namespace Value

mutual

/-- What a value is put together from, with every series in it taken apart. -/
def atoms : Value → List Value
  | .series _ items => allAtoms items
  | v => [v]

def allAtoms : List Value → List Value
  | [] => []
  | v :: vs => v.atoms ++ allAtoms vs

end

theorem allAtoms_append (vs ws : List Value) :
    allAtoms (vs ++ ws) = allAtoms vs ++ allAtoms ws := by
  induction vs with
  | nil => rfl
  | cons v vs ih => rw [List.cons_append, allAtoms, allAtoms, ih, List.append_assoc]

@[simp] theorem allAtoms_singleton (v : Value) : allAtoms [v] = v.atoms :=
  List.append_nil _

theorem atoms_series (s : Separator) (items : List Value) :
    (series s items).atoms = allAtoms items := rfl

theorem allAtoms_flattenSpaces (vs : List Value) : allAtoms (flattenSpaces vs) = allAtoms vs := by
  induction vs with
  | nil => rfl
  | cons v vs ih =>
      rw [flattenSpaces_cons, allAtoms_append, ih, allAtoms]
      congr 1
      by_cases space : ∃ items, v = .series .space items
      · obtain ⟨items, rfl⟩ := space
        rw [flattenSpaces_space, atoms_series]
      · rw [flattenSpaces_singleton (not_exists.1 space), allAtoms_singleton]

theorem atoms_joinSpaces (vs : List Value) : (joinSpaces vs).atoms = allAtoms vs := by
  by_cases single : vs.length = 1
  · obtain ⟨v, rfl⟩ := List.length_eq_one_iff.1 single
    rw [joinSpaces, allAtoms_singleton]
  · rw [joinSpaces_of_length_ne_one single, atoms_series]

end Value

namespace Shorthand.Font

variable {lead : Lead} {v : Value} {vs longhands : List Value}

/-- What a value in front of the size says something about. -/
inductive Aspect where
  | style
  | variant
  | weight
deriving DecidableEq

def aspect? (v : Value) : Option Aspect :=
  if v.isOneOf fontStyleWords then some .style
  else if v.isKeyword "small-caps" then some .variant
  else if isFontWeight v then some .weight
  else none

def Lead.get (lead : Lead) : Aspect → Option Value
  | .style => lead.style
  | .variant => lead.variant
  | .weight => lead.weight

/-! ### The last of each kind -/

theorem not_normal_of_aspect {k : Aspect} (h : aspect? v = some k) :
    v.isKeyword "normal" = false := by
  unfold aspect? at h
  split_ifs at h with style variant weight
  · exact not_normal_of_style style
  · exact not_normal_of_variant variant
  · exact not_normal_of_weight weight

theorem aspect?_of_normal (h : v.isKeyword "normal" = true) : aspect? v = none := by
  rw [Option.eq_none_iff_forall_ne_some]
  intro k kind
  rw [not_normal_of_aspect kind] at h
  cases h

theorem aspect?_of_style (h : v.isOneOf fontStyleWords = true) : aspect? v = some .style :=
  if_pos h

theorem aspect?_of_variant (h : v.isKeyword "small-caps" = true) : aspect? v = some .variant := by
  simp [aspect?, no_style_of_variant h, h]

theorem aspect?_of_weight (h : isFontWeight v = true) : aspect? v = some .weight := by
  have no_style : v.isOneOf fontStyleWords = false := isOneOf_of_isFontWeight h (by decide_cbv)
  have no_variant : v.isKeyword "small-caps" = false := isKeyword_of_isFontWeight h (by decide_cbv)
  simp [aspect?, no_style, no_variant, h]

theorem exists_aspect (h : leads v = true) (loud : v.isKeyword "normal" = false) :
    ∃ k, aspect? v = some k := by
  simp only [leads, Bool.or_eq_true] at h
  rcases h with ((quiet | style) | variant) | weight
  · rw [loud] at quiet
    cases quiet
  · exact ⟨_, aspect?_of_style style⟩
  · exact ⟨_, aspect?_of_variant variant⟩
  · exact ⟨_, aspect?_of_weight weight⟩

/-- A value that is taken overwrites what was known of its aspect, and nothing else. -/
theorem Lead.get_take (h : leads v = true) (k : Aspect) :
    (lead.take v).get k = if aspect? v = some k then some v else lead.get k := by
  simp only [leads, Bool.or_eq_true] at h
  rcases h with ((quiet | style) | variant) | weight
  · rw [aspect?_of_normal quiet, Lead.take, if_pos quiet, if_neg (by simp)]
  · rw [take_style style, aspect?_of_style style]
    cases k <;> simp [Lead.get]
  · rw [take_variant variant, aspect?_of_variant variant]
    cases k <;> simp [Lead.get]
  · rw [take_weight weight, aspect?_of_weight weight]
    cases k <;> simp [Lead.get]

/-- After all leading values the last one of each aspect is in force. -/
theorem Lead.get_foldl_take (h : ∀ v ∈ vs, leads v = true) (k : Aspect) :
    (vs.foldl Lead.take lead).get k = (valuesOf aspect? k vs).getLast?.or (lead.get k) := by
  induction vs generalizing lead with
  | nil => rfl
  | cons v vs ih =>
      rw [List.foldl_cons, ih fun w hw => h w (List.mem_cons_of_mem _ hw),
        Lead.get_take (h v List.mem_cons_self), valuesOf, valuesOf]
      by_cases kind : aspect? v = some k
      · rw [if_pos kind, List.filter_cons_of_pos (by simpa using kind), List.getLast?_cons]
        cases (vs.filter fun w => aspect? w = some k).getLast? <;> rfl
      · rw [if_neg kind, List.filter_cons_of_neg (by simpa using kind)]

/-- The aspects in the order of their longhands. -/
def aspects : List Aspect := [.style, .variant, .weight]

/-- Whether a value says something: it is not the keyword `normal`. -/
def loud (v : Value) : Bool := !v.isKeyword "normal"

/-- The values of an aspect that are followed by another one of the same aspect. -/
def overwritten (vs : List Value) : List Value :=
  aspects.flatMap fun k => (valuesOf aspect? k vs).dropLast

/-- The last value of an aspect. -/
def inForce (vs : List Value) (k : Aspect) : Value := (valuesOf aspect? k vs).getLast?.getD normal

theorem filter_loud_inForce (vs : List Value) (k : Aspect) :
    [inForce vs k].filter loud = (valuesOf aspect? k vs).getLast?.toList := by
  unfold inForce
  cases last : (valuesOf aspect? k vs).getLast? with
  | none => rfl
  | some v =>
      have kind := (mem_valuesOf.1 (List.mem_of_getLast? last)).2
      simp [loud, not_normal_of_aspect kind]

theorem dropLast_append_inForce (vs : List Value) (k : Aspect) :
    (valuesOf aspect? k vs).dropLast ++ [inForce vs k].filter loud = valuesOf aspect? k vs := by
  rw [filter_loud_inForce]
  cases last : (valuesOf aspect? k vs).getLast? with
  | none =>
      rw [List.getLast?_eq_none_iff.1 last]
      rfl
  | some v => exact List.dropLast_append_getLast? v last

theorem valuesOf_filter_loud (vs : List Value) (k : Aspect) :
    valuesOf aspect? k (vs.filter loud) = valuesOf aspect? k vs := by
  rw [valuesOf, valuesOf, List.filter_filter]
  apply List.filter_congr
  intro v _
  by_cases kind : aspect? v = some k
  · simp [kind, loud, not_normal_of_aspect kind]
  · simp [kind]

/-- Of the leading values that say something, those that are not overwritten are in force. -/
theorem perm_overwritten (h : ∀ v ∈ vs, leads v = true) :
    (vs.filter loud).Perm (overwritten vs ++ (aspects.map (inForce vs)).filter loud) := by
  -- the spoken values are sorted by aspect, and of each aspect the last one is split off
  have known : ∀ v ∈ vs.filter loud, ∃ k ∈ aspects, aspect? v = some k := by
    intro v hv
    obtain ⟨hv, spoken⟩ := List.mem_filter.1 hv
    obtain ⟨k, kind⟩ := exists_aspect (h v hv) (by simpa [loud] using spoken)
    exact ⟨k, by cases k <;> decide, kind⟩
  have last : (aspects.map (inForce vs)).filter loud =
      aspects.flatMap fun k => [inForce vs k].filter loud := by
    rw [List.map_eq_flatMap, List.filter_flatMap]
  have each : aspects.flatMap (fun k => valuesOf aspect? k (vs.filter loud)) =
      aspects.flatMap fun k => (valuesOf aspect? k vs).dropLast ++ [inForce vs k].filter loud := by
    apply List.flatMap_congr
    intro k _
    rw [dropLast_append_inForce, valuesOf_filter_loud]
  have sorted := perm_flatMap_valuesOf (by decide) known
  rw [each] at sorted
  rw [last]
  exact sorted.trans (List.flatMap_append_perm _ _ _).symm

/-! ### The other values -/

/-- The values in front of the size. -/
def front (vs : List Value) : List Value := (tokens vs).1.takeWhile leads

theorem leads_of_mem_front {w : Value} (h : w ∈ front vs) : leads w = true :=
  List.mem_takeWhile_imp h

theorem not_leads_of_front {rest : List Value} (h : (tokens vs).1 = front vs ++ v :: rest) :
    leads v = false := by
  have behind : (tokens vs).1.dropWhile leads = v :: rest :=
    List.append_cancel_left ((List.takeWhile_append_dropWhile).trans h)
  have first := List.head?_dropWhile_not leads (tokens vs).1
  rw [behind] at first
  simpa using first

/-- A font is taken apart if there is a size behind the leading values, and a family behind
the size. -/
theorem expand?_eq_some_iff :
    expand? vs = some longhands ↔ ∃ v rest size lineHeight,
      (tokens vs).1 = front vs ++ v :: rest ∧ size? v = some (size, lineHeight) ∧
      rest ++ (tokens vs).2 ≠ [] ∧ longhands = aspects.map (inForce (front vs)) ++
        [size, lineHeight.getD normal, .joinSpaces (rest ++ (tokens vs).2)] := by
  have held (k : Aspect) : inForce (front vs) k =
      (((front vs).foldl Lead.take ⟨none, none, none⟩).get k).getD normal := by
    rw [Lead.get_foldl_take fun w hw => leads_of_mem_front hw, inForce]
    cases k <;> simp [Lead.get]
  simp only [aspects, List.map_cons, List.map_nil, held, List.cons_append, List.nil_append]
  simp only [expand?, Option.bind_eq_bind, Option.bind_eq_some_iff, Option.guard_eq_some']
  constructor
  · rintro ⟨parts, found, -, some_left, rest⟩
    obtain rfl := Option.some.inj rest
    obtain ⟨before, v, split, all, stops, taken, size⟩ := read?_eq_some.1 found
    have same : front vs = before := by
      rw [front, split, List.takeWhile_append_of_pos all,
        List.takeWhile_cons_of_neg (by simp [stops]), List.append_nil]
    rw [← same] at split taken
    refine ⟨v, parts.family, parts.size, parts.lineHeight, split, size,
      by simpa using some_left, ?_⟩
    rw [taken]
    rfl
  · rintro ⟨v, rest, size, lineHeight, split, found, some_left, rfl⟩
    refine ⟨⟨(front vs).foldl Lead.take ⟨none, none, none⟩, size, lineHeight, rest⟩, ?_, (),
      by simpa using some_left, rfl⟩
    exact read?_eq_some.2 ⟨front vs, v, split, fun w hw => leads_of_mem_front hw,
      not_leads_of_front split, rfl, found⟩

/-- The tokens are all there is, unless there are none. -/
theorem allAtoms_tokens (some_left : (tokens vs).1 ≠ []) :
    Value.allAtoms (tokens vs).1 ++ Value.allAtoms (tokens vs).2 = Value.allAtoms vs := by
  unfold tokens at some_left ⊢
  split
  · rfl
  · next first others =>
      have pieces := Value.allAtoms_flattenSpaces [first]
      rw [Value.allAtoms_singleton] at pieces
      dsimp only at some_left ⊢
      cases last : (Value.flattenSpaces [first]).getLast? with
      | none =>
          rw [last] at some_left
          exact absurd rfl some_left
      | some family =>
          rw [← List.dropLast_append_getLast? family last, Value.allAtoms_append,
            Value.allAtoms_singleton] at pieces
          dsimp only
          rw [Value.allAtoms_singleton, Value.allAtoms_singleton, Value.atoms_series,
            Value.atoms_series, Value.allAtoms, Value.allAtoms, ← pieces, List.append_assoc]
  · simp [Value.allAtoms_flattenSpaces, Value.allAtoms]

theorem atoms_of_leads (h : leads v = true) : v.atoms = [v] := by
  cases v with
  | series s items =>
      rw [leads_series] at h
      cases h
  | _ => rfl

theorem allAtoms_of_leads (h : ∀ v ∈ vs, leads v = true) : Value.allAtoms vs = vs := by
  induction vs with
  | nil => rfl
  | cons v vs ih =>
      rw [Value.allAtoms, atoms_of_leads (h v List.mem_cons_self),
        ih fun w hw => h w (List.mem_cons_of_mem _ hw), List.singleton_append]

theorem leads_inForce (h : ∀ v ∈ vs, leads v = true) (k : Aspect) :
    leads (inForce vs k) = true := by
  unfold inForce
  cases last : (valuesOf aspect? k vs).getLast? with
  | none => rw [Option.getD_none, leads, normal, Value.isKeyword_self]; rfl
  | some v => exact h v (mem_valuesOf.1 (List.mem_of_getLast? last)).1

theorem atoms_of_size? {size : Value} {lineHeight : Option Value}
    (h : size? v = some (size, lineHeight)) :
    v.atoms = size.atoms ++ Value.allAtoms lineHeight.toList := by
  rcases size?_eq_some.1 h with ⟨height, rfl, rfl⟩ | ⟨rfl, rfl, -⟩
  · rfl
  · exact (List.append_nil _).symm

theorem filter_loud_lineHeight (lineHeight : Option Value) :
    (lineHeight.getD normal).atoms.filter loud =
      (Value.allAtoms lineHeight.toList).filter loud := by
  cases lineHeight with
  | none => rfl
  | some height => rw [Option.toList_some, Value.allAtoms_singleton, Option.getD_some]

/-- What a font was given is found in its longhands, what is overwritten apart. -/
theorem perm_of_expand? (h : expand? vs = some longhands) :
    ((Value.allAtoms vs).filter loud).Perm
      (overwritten (front vs) ++ (Value.allAtoms longhands).filter loud) := by
  obtain ⟨v, rest, size, lineHeight, split, found, -, rfl⟩ := expand?_eq_some_iff.1 h
  have all : ∀ w ∈ front vs, leads w = true := fun w hw => leads_of_mem_front hw
  have whole : Value.allAtoms (tokens vs).1 ++ Value.allAtoms (tokens vs).2 = Value.allAtoms vs :=
    allAtoms_tokens (by simp [split])
  let family := Value.allAtoms (rest ++ (tokens vs).2)
  -- behind the leading values both sides hold the same, only the line height may be filled in
  have given : Value.allAtoms vs =
      front vs ++ (size.atoms ++ (Value.allAtoms lineHeight.toList ++ family)) := by
    rw [← whole, split]
    simp only [family, Value.allAtoms_append, Value.allAtoms, atoms_of_size? found,
      allAtoms_of_leads all, List.append_assoc]
  have taken : Value.allAtoms (aspects.map (inForce (front vs)) ++
        [size, lineHeight.getD normal, .joinSpaces (rest ++ (tokens vs).2)]) =
      aspects.map (inForce (front vs)) ++
        (size.atoms ++ ((lineHeight.getD normal).atoms ++ family)) := by
    have quiet : ∀ w ∈ aspects.map (inForce (front vs)), leads w = true := by
      simpa using fun k _ => leads_inForce all k
    simp only [family, Value.allAtoms_append, Value.allAtoms, Value.atoms_joinSpaces,
      allAtoms_of_leads quiet, List.append_nil]
  rw [given, taken]
  simp only [List.filter_append, filter_loud_lineHeight]
  exact ((perm_overwritten all).append_right _).trans (.of_eq (List.append_assoc ..))

theorem overwritten_eq_nil_iff :
    overwritten vs = [] ↔ ∀ k, (valuesOf aspect? k vs).length ≤ 1 := by
  rw [overwritten, List.flatMap_eq_nil_iff]
  constructor
  · intro none_lost k
    have short := congrArg List.length (none_lost k (by cases k <;> decide))
    rw [List.length_dropLast, List.length_nil] at short
    omega
  · intro few k _
    rw [← List.length_eq_zero_iff, List.length_dropLast, Nat.sub_eq_zero_of_le (few k)]

/-- Everything is found exactly if nothing is overwritten. -/
theorem subperm_iff (h : expand? vs = some longhands) :
    ((Value.allAtoms vs).filter loud).Subperm (Value.allAtoms longhands) ↔
      overwritten (front vs) = [] := by
  have found := perm_of_expand? h
  constructor
  · intro kept
    have least := (kept.filter loud).length_le
    have sum := found.length_eq
    have again : ((Value.allAtoms vs).filter loud).filter loud =
        (Value.allAtoms vs).filter loud := by simp
    rw [again] at least
    rw [List.length_append] at sum
    exact List.length_eq_zero_iff.1 (by omega)
  · intro none_lost
    rw [none_lost, List.nil_append] at found
    exact found.subperm.trans List.filter_sublist.subperm

/-- A font is accepted for what stands behind its leading values, of which the last of each
aspect is in force. What it was given is found in its longhands, as often as it was given,
the overwritten leading values apart. So nothing is lost exactly if there is at most one
style, one variant and one weight. -/
theorem last_leading_in_force (vs : List Value) :
    ((∃ longhands, expand? vs = some longhands) ↔ ∃ v rest, (tokens vs).1 = front vs ++ v :: rest ∧
      (size? v).isSome = true ∧ rest ++ (tokens vs).2 ≠ []) ∧
    ∀ longhands, expand? vs = some longhands →
      (∃ others, longhands = aspects.map (inForce (front vs)) ++ others) ∧
      ((Value.allAtoms vs).filter loud).Perm
        (overwritten (front vs) ++ (Value.allAtoms longhands).filter loud) ∧
      (((Value.allAtoms vs).filter loud).Subperm (Value.allAtoms longhands) ↔
        ∀ k, (valuesOf aspect? k (front vs)).length ≤ 1) := by
  constructor
  · simp only [expand?_eq_some_iff]
    constructor
    · rintro ⟨-, v, rest, size, lineHeight, split, found, some_left, -⟩
      exact ⟨v, rest, split, by rw [found]; rfl, some_left⟩
    · rintro ⟨v, rest, split, found, some_left⟩
      obtain ⟨⟨size, lineHeight⟩, found⟩ := Option.isSome_iff_exists.1 found
      exact ⟨_, v, rest, size, lineHeight, split, found, some_left, rfl⟩
  · intro longhands h
    refine ⟨?_, perm_of_expand? h, (subperm_iff h).trans overwritten_eq_nil_iff⟩
    obtain ⟨-, -, -, -, -, -, -, rfl⟩ := expand?_eq_some_iff.1 h
    exact ⟨_, rfl⟩

/-- Of two weights in front of a font with several families the first is lost. -/
theorem second_weight_in_force :
    let size := Value.series .slash [.size (.ofNumber 12 (some "px")), .keyword "small"]
    let vs : List Value := [.series .comma [.series .space
      [.keyword "bold", .keyword "italic", .keyword "lighter", size, .keyword "Arial"],
      .keyword "serif"]]
    ∃ longhands, expand? vs = some longhands ∧
      ((Value.allAtoms vs).filter loud).Perm
        (.keyword "bold" :: (Value.allAtoms longhands).filter loud) ∧
      ¬ ((Value.allAtoms vs).filter loud).Subperm (Value.allAtoms longhands) := by
  intro size vs
  have read : ∃ longhands, expand? vs = some longhands := ⟨_, rfl⟩
  obtain ⟨longhands, read⟩ := read
  obtain ⟨-, found, all⟩ := (last_leading_in_force vs).2 longhands read
  refine ⟨longhands, read, found, ?_⟩
  rw [all]
  intro once
  exact absurd (once .weight) (by decide)

/-- A second style is taken, and the first is lost. -/
theorem second_style_overwrites :
    let vs : List Value :=
      [.keyword "italic", .keyword "oblique", .size (.ofNumber 12 (some "px")), .keyword "x"]
    ∃ longhands, expand? vs = some longhands ∧ .keyword "italic" ∉ Value.allAtoms longhands := by
  refine ⟨[.keyword "oblique", normal, normal, .size (.ofNumber 12 (some "px")), normal,
    .keyword "x"], rfl, ?_⟩
  simp [Value.allAtoms, Value.atoms, normal]

end Shorthand.Font

end Stylesheet
