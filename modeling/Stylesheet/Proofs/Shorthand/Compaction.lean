import Stylesheet.Proofs.Declaration
import Stylesheet.Proofs.Lists
import Stylesheet.Proofs.Shorthand.Registry
import Stylesheet.Shorthand.Compaction

/-!
# Compaction, seen from the declarations it starts from

A shorthand is put together from the declarations of its longhands and of itself
alone, and no two of the shorthands that are put together share a property. So each
of them is put together, or not, by what the original list says, whatever has been
put together before: compaction takes the absorbed declarations away, and appends
the created ones in the order of compaction.
-/

namespace Stylesheet.Shorthand

/-! ### One shorthand -/

theorem all_ne_congr {name : String} {ds es : List Declaration}
    (h : ds.filter (·.property = name) = es.filter (·.property = name)) :
    (ds.all fun d => d.property ≠ name) = es.all fun d => d.property ≠ name := by
  have count (l : List Declaration) :
      (l.all fun d => d.property ≠ name) = (l.filter (·.property = name)).isEmpty := by
    rw [Bool.eq_iff_iff]
    simp [List.filter_eq_nil_iff]
  rw [count, count, h]

/-- What is put together depends on the declarations of the shorthand and of its
longhands. -/
theorem combine?_congr {s : Shorthand} {ds es : List Declaration}
    (h : ∀ p ∈ s.name :: s.longhands,
      ds.filter (·.property = p) = es.filter (·.property = p)) :
    s.combine? ds = s.combine? es := by
  have same : s.longhands.mapM (longhand? ds) = s.longhands.mapM (longhand? es) := by
    apply mapM_congr_of_mem
    intro p hp
    rw [longhand?, longhand?, h p (List.mem_cons_of_mem _ hp)]
  rw [combine?, combine?, all_ne_congr (h s.name List.mem_cons_self), same]

/-- The values that the longhands of a shorthand have by their last declarations. -/
def held (s : Shorthand) (ds : List Declaration) : List (Option Value) :=
  s.longhands.map fun p => (Declaration.last? p ds).bind Declaration.value?

/-- A longhand that is accepted stands for its last declaration. -/
theorem longhand?_eq_some {ds : List Declaration} {p : String} {found : Option (Value × Bool)}
    (h : longhand? ds p = some found) :
    found.map Prod.fst = (Declaration.last? p ds).bind Declaration.value? ∧
      found.map Prod.snd = (Declaration.last? p ds).map (·.important) := by
  rw [Declaration.last?_eq_getLast?]
  unfold longhand? at h
  split at h
  · next none_left =>
      obtain rfl := Option.some.inj h
      simp [none_left]
  · next d only =>
      obtain ⟨v, hv, rfl⟩ := Option.map_eq_some_iff.1 h
      simp [only, hv]
  · cases h

theorem values_of_longhands {ds : List Declaration} {ps : List String}
    {found : List (Option (Value × Bool))}
    (each : List.Forall₂ (fun p entry => longhand? ds p = some entry) ps found) :
    found.map (fun entry => entry.map Prod.fst) =
      ps.map fun p => (Declaration.last? p ds).bind Declaration.value? := by
  induction each with
  | nil => rfl
  | cons accepted _ ih => rw [List.map_cons, List.map_cons, (longhand?_eq_some accepted).1, ih]

/-- The importance that the longhands of a shorthand have by their last declarations. -/
def flags (s : Shorthand) (ds : List Declaration) : List Bool :=
  s.longhands.filterMap fun p => (Declaration.last? p ds).map (·.important)

theorem flags_of_longhands {ds : List Declaration} {ps : List String}
    {found : List (Option (Value × Bool))}
    (each : List.Forall₂ (fun p entry => longhand? ds p = some entry) ps found) :
    found.filterMap (fun entry => entry.map Prod.snd) =
      ps.filterMap fun p => (Declaration.last? p ds).map (·.important) := by
  induction each with
  | nil => rfl
  | cons accepted _ ih =>
      rw [List.filterMap_cons, List.filterMap_cons, (longhand?_eq_some accepted).2, ih]

theorem commonImportance?_eq_some_iff {flags : List Bool} {important : Bool} :
    commonImportance? flags = some important ↔ flags ≠ [] ∧ ∀ flag ∈ flags, flag = important := by
  cases flags with
  | nil => simp [commonImportance?]
  | cons first others =>
      simp only [commonImportance?, Option.ite_none_right_eq_some, List.all_eq_true,
        decide_eq_true_eq, Option.some.injEq, ne_eq, reduceCtorEq, not_false_eq_true, true_and,
        List.forall_mem_cons]
      constructor
      · rintro ⟨same, rfl⟩
        exact ⟨rfl, same⟩
      · rintro ⟨rfl, same⟩
        exact ⟨same, rfl⟩

/-- The steps by which a shorthand is put together, each as a condition of its own. -/
theorem combine?_eq_some_iff {s : Shorthand} {ds : List Declaration} {d : Declaration} :
    s.combine? ds = some d ↔
      (s.isCompactable = true ∧ ∀ e ∈ ds, e.property ≠ s.name) ∧
        (∀ p ∈ s.longhands, ∃ found, longhand? ds p = some found) ∧
        commonImportance? (s.flags ds) = some d.important ∧
        s.join? (s.held ds) = some d.values ∧ d.property = s.name := by
  simp only [combine?, Bool.and_eq_true, List.all_eq_true, decide_eq_true_eq,
    Option.bind_eq_bind, Option.bind_eq_some_iff, Option.guard_eq_some',
    ← exists_mapM_eq_some_iff]
  constructor
  · rintro ⟨-, free, found, all, important, common, values, joined, rest⟩
    obtain rfl := Option.some.inj rest
    have each := mapM_eq_some_iff.1 all
    rw [flags_of_longhands each] at common
    rw [values_of_longhands each] at joined
    exact ⟨free, ⟨found, all⟩, common, joined, rfl⟩
  · rintro ⟨free, ⟨found, all⟩, common, joined, name⟩
    have each := mapM_eq_some_iff.1 all
    refine ⟨(), free, found, all, d.important, ?_, d.values, ?_, ?_⟩
    · rw [flags_of_longhands each]
      exact common
    · rw [values_of_longhands each]
      exact joined
    · rw [← name]
      rfl

/-- What a created shorthand says: it has the values into which those of the longhands
are joined, and every absorbed declaration has a value and the importance of the
created one. -/
theorem combine?_eq_some {s : Shorthand} {ds : List Declaration} {d : Declaration}
    (h : s.combine? ds = some d) :
    d.property = s.name ∧ s.join? (s.held ds) = some d.values ∧
      ∀ p ∈ s.longhands, ∀ e, Declaration.last? p ds = some e →
        e.important = d.important ∧ ∃ v, e.value? = some v := by
  obtain ⟨-, sound, common, joined, name⟩ := combine?_eq_some_iff.1 h
  refine ⟨name, joined, ?_⟩
  intro p hp e last
  obtain ⟨entry, accepted⟩ := sound p hp
  obtain ⟨value, flag⟩ := longhand?_eq_some accepted
  rw [last, Option.map_some, Option.map_eq_some_iff] at flag
  obtain ⟨⟨v, b⟩, rfl, -⟩ := flag
  rw [last, Option.bind_some, Option.map_some] at value
  refine ⟨(commonImportance?_eq_some_iff.1 common).2 _ ?_, v, value.symm⟩
  exact List.mem_filterMap.2 ⟨p, hp, by rw [last, Option.map_some]⟩

/-- A shorthand is only created where one of its longhands is declared. -/
theorem exists_longhand_of_combine? {s : Shorthand} {ds : List Declaration} {d : Declaration}
    (h : s.combine? ds = some d) : ∃ p ∈ s.longhands, ∃ e, Declaration.last? p ds = some e := by
  obtain ⟨-, -, common, -⟩ := combine?_eq_some_iff.1 h
  obtain ⟨_, member⟩ := List.exists_mem_of_ne_nil _ (commonImportance?_eq_some_iff.1 common).1
  obtain ⟨p, hp, flag⟩ := List.mem_filterMap.1 member
  obtain ⟨e, last, -⟩ := Option.map_eq_some_iff.1 flag
  exact ⟨p, hp, e, last⟩

theorem compactOne_of_none {s : Shorthand} {ds : List Declaration} (h : s.combine? ds = none) :
    s.compactOne ds = ds := by
  rw [compactOne, h]

theorem compactOne_of_some {s : Shorthand} {ds : List Declaration} {d : Declaration}
    (h : s.combine? ds = some d) :
    s.compactOne ds = ds.filter (fun e => e.property ∉ s.longhands) ++ [d] := by
  rw [compactOne, h]

/-- A pass leaves the declarations of other properties alone. -/
theorem filter_compactOne {s : Shorthand} {ds : List Declaration} {p : String}
    (other : p ∉ s.name :: s.longhands) :
    (s.compactOne ds).filter (·.property = p) = ds.filter (·.property = p) := by
  rw [List.mem_cons, not_or] at other
  cases created : s.combine? ds with
  | none => rw [compactOne_of_none created]
  | some d =>
      have apart : [d].filter (·.property = p) = [] := by
        simp [(combine?_eq_some created).1, Ne.symm other.1]
      rw [compactOne_of_some created, List.filter_append, apart, List.append_nil]
      apply Declaration.filter_filter_of_passed
      intro e _ same
      rw [decide_eq_true_eq, same]
      exact other.2

/-! ### All shorthands -/

/-- Whether a property is absorbed by a shorthand that is put together. -/
def absorbs (ds : List Declaration) (p : String) (s : Shorthand) : Bool :=
  (s.combine? ds).isSome && p ∈ s.longhands

/-- A created shorthand is absorbed by none that is apart from it. -/
theorem not_absorbs_created {s : Shorthand} {ss : List Shorthand} {ds : List Declaration}
    {d : Declaration} (apart : ∀ t ∈ ss, s.Apart t) (created : s.combine? ds = some d) :
    ss.any (absorbs ds d.property) = false := by
  rw [List.any_eq_false]
  intro t ht absorbed
  rw [absorbs, Bool.and_eq_true, decide_eq_true_eq, (combine?_eq_some created).1] at absorbed
  exact apart t ht s.name List.mem_cons_self (List.mem_cons_of_mem _ absorbed.2)

/-- What one pass does is out of sight for the passes of shorthands that are apart. -/
theorem combine?_compactOne {s t : Shorthand} (apart : s.Apart t) (ds : List Declaration) :
    t.combine? (s.compactOne ds) = t.combine? ds := by
  apply combine?_congr
  intro p hp
  exact filter_compactOne fun shared => apart p shared hp

theorem any_absorbs_compactOne {s : Shorthand} {ss : List Shorthand}
    (apart : ∀ t ∈ ss, s.Apart t) (ds : List Declaration) (p : String) :
    ss.any (absorbs (s.compactOne ds) p) = ss.any (absorbs ds p) := by
  rw [Bool.eq_iff_iff, List.any_eq_true, List.any_eq_true]
  refine exists_congr fun t => and_congr_right fun ht => ?_
  rw [absorbs, absorbs, combine?_compactOne (apart t ht)]

/-- The passes of several shorthands that are apart, each seen from the original list. -/
theorem foldl_compactOne {ss : List Shorthand} (apart : ss.Pairwise Apart)
    (ds : List Declaration) :
    ss.foldl (fun ds s => s.compactOne ds) ds =
      ds.filter (fun d => !ss.any (absorbs ds d.property)) ++ ss.filterMap (·.combine? ds) := by
  induction ss generalizing ds with
  | nil => simp
  | cons s ss ih =>
      obtain ⟨apartHead, apartTail⟩ := List.pairwise_cons.1 apart
      have later : ss.filterMap (·.combine? (s.compactOne ds)) = ss.filterMap (·.combine? ds) :=
        List.filterMap_congr fun t ht => combine?_compactOne (apartHead t ht) ds
      rw [List.foldl_cons, ih apartTail, later]
      simp only [any_absorbs_compactOne apartHead, List.any_cons, Bool.not_or]
      cases created : s.combine? ds with
      | none =>
          rw [compactOne_of_none created]
          simp [absorbs, created]
      | some d =>
          rw [compactOne_of_some created, List.filter_append, List.filter_filter]
          simp [absorbs, created, not_absorbs_created apartHead created, Bool.and_comm]

/-- Compaction takes the absorbed declarations away and appends what is created. -/
theorem compact_eq (ds : List Declaration) :
    compact ds = ds.filter (fun d => !compactionOrder.any (absorbs ds d.property)) ++
      compactionOrder.filterMap (·.combine? ds) :=
  foldl_compactOne compactionOrder_apart ds

/-- Where no property is declared twice, the same shorthands are created from the
declarations in any order. -/
theorem compact_perm {ds es : List Declaration} (perm : ds.Perm es)
    (distinct : (ds.map (·.property)).Nodup) : (compact ds).Perm (compact es) := by
  have same (s : Shorthand) : s.combine? ds = s.combine? es :=
    combine?_congr fun p _ => filter_key_eq_of_perm perm distinct p
  have absorbed : absorbs ds = absorbs es := by
    funext p s
    rw [absorbs, absorbs, same s]
  rw [compact_eq, compact_eq, absorbed, List.filterMap_congr fun s _ => same s]
  exact (perm.filter _).append_right _

/-! ### The properties after compaction -/

theorem mem_compact_iff {ds : List Declaration} {d : Declaration} :
    d ∈ compact ds ↔ (d ∈ ds ∧ ∀ s ∈ compactionOrder, absorbs ds d.property s = false) ∨
      ∃ s ∈ compactionOrder, s.combine? ds = some d := by
  rw [compact_eq, List.mem_append, List.mem_filter, List.mem_filterMap, Bool.not_eq_true',
    List.any_eq_false]
  simp only [Bool.not_eq_true]

/-- A declaration is kept by compaction, or a shorthand of its property is created. -/
theorem mem_compact_or_absorbed {ds : List Declaration} {d : Declaration} (hd : d ∈ ds) :
    d ∈ compact ds ∨ ∃ s ∈ compactionOrder, d.property ∈ s.longhands ∧
      ∃ e ∈ compact ds, s.combine? ds = some e := by
  by_cases absorbed : ∃ s ∈ compactionOrder, absorbs ds d.property s = true
  · obtain ⟨s, hs, both⟩ := absorbed
    rw [absorbs, Bool.and_eq_true, decide_eq_true_eq, Option.isSome_iff_exists] at both
    obtain ⟨⟨e, created⟩, longhand⟩ := both
    exact Or.inr ⟨s, hs, longhand, e, mem_compact_iff.2 (Or.inr ⟨s, hs, created⟩), created⟩
  · simp only [not_exists, not_and, Bool.not_eq_true] at absorbed
    exact Or.inl (mem_compact_iff.2 (Or.inl ⟨hd, absorbed⟩))

/-- The longhands of a created shorthand are gone. -/
theorem not_mem_longhands_of_compact {s : Shorthand} {ds : List Declaration}
    {d e : Declaration} (hs : s ∈ compactionOrder) (created : s.combine? ds = some d)
    (he : e ∈ compact ds) : e.property ∉ s.longhands := by
  intro longhand
  rcases mem_compact_iff.1 he with ⟨-, kept⟩ | ⟨t, ht, other⟩
  · have absorbed : absorbs ds e.property s = true := by simp [absorbs, created, longhand]
    rw [kept s hs] at absorbed
    cases absorbed
  · rw [(combine?_eq_some other).1] at longhand
    by_cases same : t = s
    · subst same
      exact ne_name_of_longhand ht longhand rfl
    · exact apart_of_ne t ht s hs same t.name List.mem_cons_self (List.mem_cons_of_mem _ longhand)

theorem nodup_property_created (ds : List Declaration) :
    ((compactionOrder.filterMap (·.combine? ds)).map (·.property)).Nodup := by
  rw [List.Nodup, List.pairwise_map, List.pairwise_filterMap]
  apply compactionOrder_apart.imp
  intro s t apart d hd e he same
  rw [(combine?_eq_some hd).1, (combine?_eq_some he).1] at same
  exact apart s.name List.mem_cons_self (same ▸ List.mem_cons_self)

/-- Where no property is declared twice, none is after compaction. -/
theorem nodup_property_compact {ds : List Declaration} (distinct : (ds.map (·.property)).Nodup) :
    ((compact ds).map (·.property)).Nodup := by
  rw [compact_eq, List.map_append, List.nodup_append]
  refine ⟨distinct.sublist (List.filter_sublist.map _), nodup_property_created ds, ?_⟩
  intro p hp q hq same
  obtain ⟨d, hd, rfl⟩ := List.mem_map.1 hp
  obtain ⟨e, he, rfl⟩ := List.mem_map.1 hq
  obtain ⟨s, -, created⟩ := List.mem_filterMap.1 he
  -- a shorthand that is declared is not created
  have undeclared := (combine?_eq_some_iff.1 created).1.2
  exact undeclared d (List.mem_filter.1 hd).1 (same.trans (combine?_eq_some created).1)

/-! ### The other declarations -/

section Others

variable {s : Shorthand} {ds : List Declaration} {d : Declaration}

theorem any_absorbs_congr {ss : List Shorthand} {es : List Declaration} {p : String}
    (same : ∀ t ∈ ss, t.combine? ds = t.combine? es) :
    ss.any (absorbs ds p) = ss.any (absorbs es p) := by
  rw [Bool.eq_iff_iff, List.any_eq_true, List.any_eq_true]
  refine exists_congr fun t => and_congr_right fun ht => ?_
  rw [absorbs, absorbs, same t ht]

/-- Without its longhands, a shorthand is not put together. -/
theorem combine?_without_longhands (s : Shorthand) (ds : List Declaration) :
    s.combine? (ds.filter fun e => e.property ∉ s.longhands) = none := by
  rw [Option.eq_none_iff_forall_not_mem]
  intro e he
  obtain ⟨p, hp, f, last⟩ := exists_longhand_of_combine? he
  obtain rfl := Declaration.property_of_last? last
  have outside := (List.mem_filter.1 (Declaration.mem_of_last? last)).2
  rw [decide_eq_true_eq] at outside
  exact outside hp

variable (hs : s ∈ compactionOrder)

include hs

/-- The longhands of one shorthand are out of sight for the others. -/
theorem combine?_without_others {t : Shorthand} (ht : t ∈ compactionOrder) (other : t ≠ s)
    (ds : List Declaration) :
    t.combine? (ds.filter fun e => e.property ∉ s.longhands) = t.combine? ds := by
  apply combine?_congr
  intro p hp
  have free : p ∉ s.longhands := fun own =>
    apart_of_ne t ht s hs other p hp (List.mem_cons_of_mem _ own)
  apply Declaration.filter_filter_of_passed
  intro e _ same
  rw [decide_eq_true_eq, same]
  exact free

/-- A shorthand is put together next to what compaction makes of the declarations that are
none of its longhands. -/
theorem compact_eq_insert (created : s.combine? ds = some d) :
    ∃ before after, compact ds = before ++ d :: after ∧
      compact (ds.filter fun e => e.property ∉ s.longhands) = before ++ after ∧
      ∀ e ∈ before ++ after, e.property ∉ s.name :: s.longhands := by
  let rest := ds.filter fun e => e.property ∉ s.longhands
  have none_left : s.combine? rest = none := combine?_without_longhands s ds
  obtain ⟨front, back, split⟩ := List.append_of_mem hs
  have distinct := compactionOrder_nodup
  rw [split, List.nodup_append, List.nodup_cons] at distinct
  have inFront : ∀ t ∈ front, t.combine? rest = t.combine? ds := fun t ht =>
    combine?_without_others hs (by simp [split, ht])
      (distinct.2.2 t ht s List.mem_cons_self) ds
  have behind : ∀ t ∈ back, t.combine? rest = t.combine? ds := fun t ht =>
    combine?_without_others hs (by simp [split, ht])
      (fun same => distinct.2.1.1 (same ▸ ht)) ds
  have untouched : (rest.filter fun e => !compactionOrder.any (absorbs rest e.property)) =
      ds.filter fun e => !compactionOrder.any (absorbs ds e.property) := by
    rw [List.filter_filter]
    apply List.filter_congr
    intro e _
    simp only [split, List.any_append, List.any_cons, any_absorbs_congr inFront,
      any_absorbs_congr behind]
    simp [absorbs, none_left, created, Bool.and_comm, Bool.and_left_comm]
  have whole : compact rest =
      ds.filter (fun e => !compactionOrder.any (absorbs ds e.property)) ++
        front.filterMap (·.combine? ds) ++ back.filterMap (·.combine? ds) := by
    rw [compact_eq, untouched, split, List.filterMap_append, List.filterMap_cons, none_left,
      List.filterMap_congr inFront, List.filterMap_congr behind, List.append_assoc]
  refine ⟨_, _, ?_, whole, ?_⟩
  · rw [compact_eq, split, List.filterMap_append, List.filterMap_cons, created,
      List.append_assoc]
  · rw [← whole]
    intro e he
    rw [List.mem_cons, not_or]
    rcases mem_compact_iff.1 he with ⟨member, -⟩ | ⟨t, ht, made⟩
    · obtain ⟨declared, outside⟩ := List.mem_filter.1 member
      exact ⟨(combine?_eq_some_iff.1 created).1.2 e declared, of_decide_eq_true outside⟩
    · have other : t ≠ s := by
        rintro rfl
        rw [none_left] at made
        cases made
      rw [(combine?_eq_some made).1, ← not_or, ← List.mem_cons]
      exact apart_of_ne t ht s hs other t.name List.mem_cons_self

end Others

/-! ### Compaction of compacted declarations -/

/-- A shorthand that is not put together has the declarations that it had, its own and
those of its longhands. -/
theorem filter_compact_of_none {s : Shorthand} {ds : List Declaration} {p : String}
    (hs : s ∈ compactionOrder) (none_created : s.combine? ds = none)
    (own : p ∈ s.name :: s.longhands) :
    (compact ds).filter (·.property = p) = ds.filter (·.property = p) := by
  have kept : compactionOrder.any (absorbs ds p) = false := by
    rw [List.any_eq_false]
    intro t ht absorbed
    rw [absorbs, Bool.and_eq_true, decide_eq_true_eq] at absorbed
    by_cases same : t = s
    · rw [same, none_created] at absorbed
      cases absorbed.1
    · exact apart_of_ne t ht s hs same p (List.mem_cons_of_mem _ absorbed.2) own
  have none_left : (compactionOrder.filterMap (·.combine? ds)).filter (·.property = p) = [] := by
    rw [List.filter_eq_nil_iff]
    intro d hd
    obtain ⟨t, ht, created⟩ := List.mem_filterMap.1 hd
    rw [decide_eq_true_eq]
    rintro rfl
    rw [(combine?_eq_some created).1] at own
    by_cases same : t = s
    · rw [same, none_created] at created
      cases created
    · exact apart_of_ne t ht s hs same t.name List.mem_cons_self own
  rw [compact_eq, List.filter_append, none_left, List.append_nil]
  apply Declaration.filter_filter_of_passed
  intro d _ same
  rw [same, kept, Bool.not_false]

/-- What is compacted has no shorthand left to put together: either it is declared now, or
its declarations are those from which it was not put together before. -/
theorem combine?_compact {s : Shorthand} (hs : s ∈ compactionOrder) (ds : List Declaration) :
    s.combine? (compact ds) = none := by
  cases created : s.combine? ds with
  | none =>
      rw [← created]
      apply combine?_congr
      intro p own
      exact filter_compact_of_none hs created own
  | some d =>
      have declared : d ∈ compact ds := mem_compact_iff.2 (Or.inr ⟨s, hs, created⟩)
      rw [Option.eq_none_iff_forall_ne_some]
      intro e again
      exact (combine?_eq_some_iff.1 again).1.2 d declared (combine?_eq_some created).1

/-- Compaction of compacted declarations changes nothing. -/
theorem compact_compact (ds : List Declaration) : compact (compact ds) = compact ds := by
  have none_absorbed (p : String) : compactionOrder.any (absorbs (compact ds) p) = false := by
    rw [List.any_eq_false]
    intro s hs
    simp [absorbs, combine?_compact hs]
  have none_created : compactionOrder.filterMap (·.combine? (compact ds)) = [] := by
    rw [List.filterMap_eq_nil_iff]
    intro s hs
    exact combine?_compact hs ds
  rw [compact_eq (compact ds), none_created, List.append_nil, List.filter_eq_self]
  intro d _
  rw [none_absorbed, Bool.not_false]

end Stylesheet.Shorthand
