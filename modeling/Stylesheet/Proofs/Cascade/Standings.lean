import Mathlib
import Stylesheet.Proofs.Cascade.Competitors

/-!
# Standings

The state of a merge may be held in two parts: the properties in the order in which they were
first declared, and the candidate that leads for each of them. A candidate for a property
without a leader changes both parts, any other only the second one, and in the end the
leaders are taken out in the order of the properties, where a property without a leader would
be passed over without a word.

That does not happen. The properties are always those that have a leader, each of them once,
so that every property gives its leader and no leader is left behind, and what comes out is
the merged block. While blocks are added, no property goes or changes its place, an important
leader gives way to important ones only, and one that is not important to none that weigh
less, unless these are important.
-/

namespace Stylesheet

/-- One candidate upholds what another has reached for their property. -/
structure Candidate.Upholds (d c : Candidate) : Prop where
  /-- Importance is never lost. -/
  important : c.declaration.important = true → d.declaration.important = true
  /-- As long as nothing is important, no weight is lost. -/
  weight : d.declaration.important = false → c.weight ≤ d.weight

namespace Candidate

variable {c d e : Candidate}

theorem Upholds.refl (c : Candidate) : c.Upholds c := ⟨id, fun _ => UInt32.le_refl _⟩

theorem Upholds.trans (second : e.Upholds d) (first : d.Upholds c) : e.Upholds c where
  important flagged := second.important (first.important flagged)
  weight plain := by
    have before : d.declaration.important = false := by
      by_contra flagged
      rw [second.important (Bool.eq_true_of_not_eq_false flagged)] at plain
      cases plain
    exact UInt32.le_trans (first.weight before) (second.weight plain)

theorem upholds_of_yieldsTo (h : c.yieldsTo d = true) : d.Upholds c := by
  rw [yieldsTo, Bool.or_eq_true, Bool.and_eq_true, decide_eq_true_eq, Bool.not_eq_true'] at h
  constructor
  · intro flagged
    rcases h with ⟨-, plain⟩ | important
    · rw [flagged] at plain
      cases plain
    · exact important
  · intro plain
    rcases h with ⟨lighter, -⟩ | important
    · exact lighter
    · rw [important] at plain
      cases plain

end Candidate

namespace Cascade

/-- The state of a merge in two parts. -/
structure Standings where
  /-- The properties in the order of their first declarations. -/
  order : List String
  /-- The candidate that leads for a property. -/
  leaders : Std.HashMap String Candidate

namespace Standings

/-- The state before anything has competed. -/
def start : Standings := ⟨[], ∅⟩

/-- Let a candidate compete for its property. -/
def offer (s : Standings) (later : Candidate) : Standings :=
  match s.leaders[later.declaration.property]? with
  | some kept =>
    if kept.yieldsTo later then
      { s with leaders := s.leaders.insert later.declaration.property later }
    else s
  | none =>
    ⟨s.order ++ [later.declaration.property],
      s.leaders.insert later.declaration.property later⟩

/-- Let the declarations of a block compete, expanded if the options ask for that. -/
def addBlock (options : MergeOptions) (s : Standings) (b : Block) : Standings :=
  (candidates (prepare options b)).foldl offer s

/-- The state after some blocks. -/
def run (options : MergeOptions) (bs : List Block) : Standings :=
  bs.foldl (addBlock options) start

/-- Take out the leaders of some properties, and pass over a property that has none. What
comes out are their declarations, and what leaders are left. -/
def takeOut : List String → Std.HashMap String Candidate →
    List Declaration × Std.HashMap String Candidate
  | [], leaders => ([], leaders)
  | p :: ps, leaders =>
    match leaders[p]? with
    | some c =>
      ({ c.declaration with property := p } :: (takeOut ps (leaders.erase p)).1,
        (takeOut ps (leaders.erase p)).2)
    | none => takeOut ps leaders

/-- The merged block. -/
def finish (options : MergeOptions) (s : Standings) : Block :=
  let kept := (takeOut s.order s.leaders).1
  ⟨[], if options.createShorthands then Shorthand.compact kept else kept⟩

variable {options : MergeOptions} {s t u : Standings} {later : Candidate} {p : String}

/-! ### One candidate -/

theorem mem_iff_exists {m : Std.HashMap String Candidate} :
    p ∈ m ↔ ∃ c : Candidate, m[p]? = some c := by
  rw [Std.HashMap.mem_iff_isSome_getElem?, Option.isSome_iff_exists]

/-- What an offer does: the property is new, or its leader gives way, or nothing changes. -/
theorem offer_cases (s : Standings) (later : Candidate) :
    (later.declaration.property ∉ s.leaders ∧
      s.offer later = ⟨s.order ++ [later.declaration.property],
        s.leaders.insert later.declaration.property later⟩) ∨
    (∃ kept, s.leaders[later.declaration.property]? = some kept ∧
      kept.yieldsTo later = true ∧
      s.offer later = ⟨s.order, s.leaders.insert later.declaration.property later⟩) ∨
    ∃ kept, s.leaders[later.declaration.property]? = some kept ∧
      kept.yieldsTo later = false ∧ s.offer later = s := by
  rw [offer]
  cases found : s.leaders[later.declaration.property]? with
  | none =>
      have fresh : later.declaration.property ∉ s.leaders := by
        rw [mem_iff_exists, found]
        rintro ⟨c, ⟨⟩⟩
      exact Or.inl ⟨fresh, rfl⟩
  | some kept =>
      cases yields : kept.yieldsTo later with
      | true => exact Or.inr (Or.inl ⟨kept, rfl, yields, if_pos yields⟩)
      | false => exact Or.inr (Or.inr ⟨kept, rfl, yields, by simp [yields]⟩)

/-- The two parts fit: the properties are those that have a leader, each of them once. -/
structure Coherent (s : Standings) : Prop where
  nodup : s.order.Nodup
  mem_iff : ∀ p, p ∈ s.order ↔ p ∈ s.leaders

theorem coherent_start : start.Coherent := by
  constructor
  · exact List.nodup_nil
  · simp [start]

theorem Coherent.offer (h : s.Coherent) (later : Candidate) : (s.offer later).Coherent := by
  obtain ⟨fresh, new⟩ | ⟨kept, led, -, new⟩ | ⟨-, -, -, same⟩ := offer_cases s later
  · have unlisted : later.declaration.property ∉ s.order := fun listed =>
      fresh ((h.mem_iff _).1 listed)
    rw [new]
    constructor
    · simpa [List.nodup_append] using ⟨h.nodup, fun p hp => ne_of_mem_of_not_mem hp unlisted⟩
    · intro p
      rw [List.mem_append, List.mem_singleton, h.mem_iff, Std.HashMap.mem_insert, beq_iff_eq,
        or_comm, eq_comm]
  · rw [new]
    refine ⟨h.nodup, fun p => ?_⟩
    rw [h.mem_iff, Std.HashMap.mem_insert, beq_iff_eq]
    constructor
    · exact Or.inr
    · rintro (rfl | listed)
      · exact mem_iff_exists.2 ⟨kept, led⟩
      · exact listed
  · rwa [same]

/-- What may have changed from one state to a later one: properties may have joined at the
end, and every leader has been upheld. -/
structure Advances (s t : Standings) : Prop where
  order : s.order <+: t.order
  leaders : ∀ (p : String) (c : Candidate), s.leaders[p]? = some c →
    ∃ d : Candidate, t.leaders[p]? = some d ∧ d.Upholds c

theorem Advances.refl (s : Standings) : s.Advances s :=
  ⟨List.prefix_refl _, fun _ c led => ⟨c, led, .refl c⟩⟩

theorem Advances.trans (first : s.Advances t) (second : t.Advances u) : s.Advances u where
  order := first.order.trans second.order
  leaders p c led := by
    obtain ⟨d, led, upheld⟩ := first.leaders p c led
    obtain ⟨e, led, upheld'⟩ := second.leaders p d led
    exact ⟨e, led, upheld'.trans upheld⟩

theorem Advances.mem (h : s.Advances t) (listed : p ∈ s.leaders) : p ∈ t.leaders := by
  obtain ⟨c, led⟩ := mem_iff_exists.1 listed
  obtain ⟨d, led, -⟩ := h.leaders p c led
  exact mem_iff_exists.2 ⟨d, led⟩

theorem advances_offer (s : Standings) (later : Candidate) : s.Advances (s.offer later) := by
  obtain ⟨fresh, new⟩ | ⟨kept, led, yields, new⟩ | ⟨-, -, -, same⟩ := offer_cases s later
  · rw [new]
    refine ⟨List.prefix_append _ _, fun p c led => ⟨c, ?_, .refl c⟩⟩
    have other : later.declaration.property ≠ p := by
      rintro rfl
      exact fresh (mem_iff_exists.2 ⟨c, led⟩)
    rw [Std.HashMap.getElem?_insert, if_neg (by simpa using other), led]
  · rw [new]
    refine ⟨List.prefix_refl _, fun p c led' => ?_⟩
    rw [Std.HashMap.getElem?_insert]
    by_cases same : later.declaration.property = p
    · subst same
      obtain rfl : kept = c := Option.some.inj (led.symm.trans led')
      exact ⟨later, by simp, Candidate.upholds_of_yieldsTo yields⟩
    · exact ⟨c, by simpa [same] using led', .refl c⟩
  · rw [same]
    exact .refl s

/-! ### Any number of blocks -/

theorem coherent_foldl (h : s.Coherent) (cs : List Candidate) : (cs.foldl offer s).Coherent := by
  induction cs generalizing s with
  | nil => exact h
  | cons c cs ih => exact ih (h.offer c)

theorem advances_foldl (s : Standings) (cs : List Candidate) : s.Advances (cs.foldl offer s) := by
  induction cs generalizing s with
  | nil => exact .refl s
  | cons c cs ih => exact (advances_offer s c).trans (ih (s.offer c))

/-- Adding blocks is offering what competes in them. -/
theorem run_eq_foldl (options : MergeOptions) (bs : List Block) :
    run options bs = (competitors options bs).foldl offer start := by
  rw [competitors_eq, List.foldl_flatMap]
  rfl

theorem coherent_run (options : MergeOptions) (bs : List Block) : (run options bs).Coherent := by
  rw [run_eq_foldl]
  exact coherent_foldl coherent_start _

theorem advances_run (options : MergeOptions) (bs cs : List Block) :
    (run options bs).Advances (run options (bs ++ cs)) := by
  rw [run_eq_foldl, run_eq_foldl, competitors_append, List.foldl_append]
  exact advances_foldl _ _

/-! ### Taking the leaders out -/

/-- Every property gives its leader, and nothing is left. -/
theorem takeOut_spec {ps : List String} {leaders : Std.HashMap String Candidate}
    (nodup : ps.Nodup) (listed : ∀ p, p ∈ ps ↔ p ∈ leaders) :
    List.Forall₂ (fun p d => ∃ c : Candidate, leaders[p]? = some c ∧
        d = { c.declaration with property := p }) ps (takeOut ps leaders).1 ∧
      (takeOut ps leaders).2.isEmpty = true := by
  induction ps generalizing leaders with
  | nil =>
      refine ⟨.nil, Std.HashMap.isEmpty_iff_forall_not_mem.2 fun p hp => ?_⟩
      exact List.not_mem_nil ((listed p).2 hp)
  | cons p ps ih =>
      obtain ⟨fresh, nodup⟩ := List.nodup_cons.1 nodup
      obtain ⟨c, led⟩ := mem_iff_exists.1 ((listed p).1 List.mem_cons_self)
      have rest : ∀ q, q ∈ ps ↔ q ∈ leaders.erase p := by
        intro q
        rw [Std.HashMap.mem_erase, ← listed, List.mem_cons, beq_eq_false_iff_ne]
        constructor
        · exact fun hq => ⟨fun same => fresh (same ▸ hq), Or.inr hq⟩
        · rintro ⟨other, rfl | hq⟩
          · exact absurd rfl other
          · exact hq
      obtain ⟨each, nothing⟩ := ih nodup rest
      rw [takeOut, led]
      refine ⟨.cons ⟨c, led, rfl⟩ (each.imp ?_), nothing⟩
      rintro q d ⟨e, led', rfl⟩
      refine ⟨e, ?_, rfl⟩
      rw [Std.HashMap.getElem?_erase] at led'
      split at led'
      · cases led'
      · exact led'

/-! ### The merged block -/

/-- The two parts hold what a list of kept candidates holds. -/
structure Represents (s : Standings) (kept : List Candidate) : Prop where
  order : s.order = kept.map (·.declaration.property)
  leaders : ∀ p : String, s.leaders[p]? = kept.find? (·.declaration.property = p)

theorem represents_start : start.Represents [] := by
  constructor
  · rfl
  · simp [start]

theorem Represents.offer_fresh {kept : List Candidate} (h : s.Represents kept)
    (fresh : kept.find? (·.declaration.property = later.declaration.property) = none) :
    (s.offer later).Represents (Cascade.offer later kept) := by
  have unkept : later.declaration.property ∉ kept.map (·.declaration.property) := by
    simpa [List.find?_eq_none] using fresh
  have new : s.leaders[later.declaration.property]? = none := by rw [h.leaders, fresh]
  rw [Standings.offer, new, offer_of_not_mem unkept]
  constructor
  · simp [h.order]
  · intro p
    rw [Std.HashMap.getElem?_insert, h.leaders, List.find?_append]
    by_cases same : later.declaration.property = p
    · subst same
      simp [fresh]
    · simp [same]

theorem Represents.offer_seen {kept : List Candidate} {k : Candidate} (h : s.Represents kept)
    (seen : kept.find? (·.declaration.property = later.declaration.property) = some k) :
    (s.offer later).Represents (Cascade.offer later kept) := by
  have led : s.leaders[later.declaration.property]? = some k := by rw [h.leaders, seen]
  obtain ⟨same, before, after, rfl, others⟩ := List.find?_eq_some_iff_append.1 seen
  rw [decide_eq_true_eq] at same
  have first : later.declaration.property ∉ before.map (·.declaration.property) := by
    simpa using others
  rw [Standings.offer, led, offer_of_eq same first]
  cases yields : k.yieldsTo later with
  | false => simpa [yields] using h
  | true =>
      simp only [yields, if_true]
      constructor
      · simpa [same] using h.order
      · intro p
        rw [Std.HashMap.getElem?_insert, h.leaders, List.find?_append,
          List.find?_append]
        by_cases own : later.declaration.property = p
        · subst own
          have earlier : before.find? (·.declaration.property = later.declaration.property) =
              none := by simpa using others
          simp [earlier]
        · have other : k.declaration.property ≠ p := same ▸ own
          simp [own, other]

theorem Represents.offer {kept : List Candidate} (h : s.Represents kept) (later : Candidate) :
    (s.offer later).Represents (Cascade.offer later kept) := by
  cases seen : kept.find? (·.declaration.property = later.declaration.property) with
  | none => exact h.offer_fresh seen
  | some k => exact h.offer_seen seen

theorem represents_run (options : MergeOptions) (bs : List Block) :
    (run options bs).Represents (survivors options bs) := by
  have fold {s : Standings} {kept : List Candidate} (h : s.Represents kept)
      (cs : List Candidate) :
      (cs.foldl Standings.offer s).Represents
        (cs.foldl (fun kept later => Cascade.offer later kept) kept) := by
    induction cs generalizing s kept with
    | nil => exact h
    | cons c cs ih => exact ih (h.offer c)
  rw [run_eq_foldl, survivors_eq_foldl]
  exact fold represents_start _

theorem find?_property {kept : List Candidate} {k : Candidate}
    (nodup : (kept.map (·.declaration.property)).Nodup) (hk : k ∈ kept) :
    kept.find? (·.declaration.property = k.declaration.property) = some k := by
  cases found : kept.find? (·.declaration.property = k.declaration.property) with
  | none =>
      have refused := List.find?_eq_none.1 found k hk
      simp at refused
  | some c =>
      have same := List.find?_some found
      rw [decide_eq_true_eq] at same
      rw [List.inj_on_of_nodup_map nodup (List.mem_of_find?_eq_some found) hk same]

theorem finish_run (options : MergeOptions) (bs : List Block) :
    (run options bs).finish options = merge options bs := by
  have represents := represents_run options bs
  have coherent := coherent_run options bs
  obtain ⟨each, -⟩ := takeOut_spec coherent.nodup coherent.mem_iff
  have nodup : ((survivors options bs).map (·.declaration.property)).Nodup :=
    (holds_survivors options bs).nodup
  have kept : (takeOut (run options bs).order (run options bs).leaders).1 =
      (survivors options bs).map (·.declaration) := by
    rw [represents.order, List.forall₂_map_left_iff] at each
    have found : ∀ k ∈ survivors options bs,
        (run options bs).leaders[k.declaration.property]? = some k := fun k hk =>
      (represents.leaders _).trans (find?_property nodup hk)
    rw [represents.order, eq_comm, ← List.forall₂_eq_eq_eq, List.forall₂_map_left_iff]
    refine ((List.forall₂_and_left _ _).2 ⟨found, each⟩).imp ?_
    rintro k d ⟨led, c, led', rfl⟩
    obtain rfl : k = c := Option.some.inj (led.symm.trans led')
    rfl
  rw [finish, kept]
  simp only [merge, winners_eq_map_survivors]

/-- After any blocks the properties are those that have a leader, each once. Adding blocks
lets properties join at the end, takes no leader away, and upholds every leader. In the end
every property gives its leader and nothing is left, and what comes out is the merged
block. -/
theorem standings_stay_coherent (options : MergeOptions) (bs cs : List Block) :
    let s := run options bs
    s.Coherent ∧ s.Advances (run options (bs ++ cs)) ∧
      (∀ p, p ∈ s.leaders → p ∈ (run options (bs ++ cs)).leaders) ∧
      List.Forall₂ (fun p d => ∃ c : Candidate, s.leaders[p]? = some c ∧
        d = { c.declaration with property := p }) s.order (takeOut s.order s.leaders).1 ∧
      (takeOut s.order s.leaders).2.isEmpty = true ∧
      s.finish options = merge options bs := by
  intro s
  have coherent : s.Coherent := coherent_run options bs
  have advances : s.Advances (run options (bs ++ cs)) := advances_run options bs cs
  obtain ⟨each, nothing⟩ := takeOut_spec coherent.nodup coherent.mem_iff
  exact ⟨coherent, advances, fun _ listed => advances.mem listed, each, nothing,
    finish_run options bs⟩

end Standings

end Cascade

end Stylesheet
