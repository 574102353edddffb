import Mathlib
import Stylesheet.Value.Series

/-!
# Equality of values

Values are compared by the numbers they hold, so equality is not reflexive, and equal
values need not be identical. It is symmetric and transitive, which is what the
shortest form of four sides rests on. It also respects the shape of a value: equal
values have the same keyword and the same number of nodes, and a series is equal only
to a series of equal members.

`Value.Agrees` relates a value that is read back to the one it stands for.
-/

namespace Stylesheet

open Float.Model (UnpackedFloat)
open Float.Model.UnpackedFloat (Sign)

/-- What equal numbers have in common. Values that are not a number have nothing in
common, and the sign of a zero does not count. -/
def numberContents : UnpackedFloat → Option (Nat × Sign × Nat × Int)
  | .notANumber => none
  | .zero _ => some (0, .positive, 0, 0)
  | .infinity s => some (1, s, 0, 0)
  | .finite s m e _ => some (2, s, m, e)

theorem compare_eq_some_eq_iff (a b : UnpackedFloat) :
    a.compare b = some .eq ↔ ∃ c, numberContents a = some c ∧ numberContents b = some c := by
  rcases a with ⟨_ | _⟩ | _ | ⟨_ | _⟩ | ⟨_ | _, m, e, _⟩ <;>
    rcases b with ⟨_ | _⟩ | _ | ⟨_ | _⟩ | ⟨_ | _, m', e', _⟩ <;>
      simp [UnpackedFloat.compare, numberContents]
  · rfl
  · rfl
  · exact ⟨fun h => ⟨h.2.symm, h.1.symm⟩, fun h => ⟨h.2.symm, h.1.symm⟩⟩
  · exact ⟨fun h => ⟨h.2.symm, h.1.symm⟩, fun h => ⟨h.2.symm, h.1.symm⟩⟩

theorem float_beq_iff {a b : Float} :
    (a == b) = true ↔ ∃ c, numberContents a.toModel.unpack = some c ∧
      numberContents b.toModel.unpack = some c := by
  rw [← compare_eq_some_eq_iff]
  change (a.toModel.unpack.compare b.toModel.unpack == some Ordering.eq) = true ↔ _
  exact beq_iff_eq

instance floatPartialEquiv : PartialEquivBEq Float where
  symm {a b} h := by
    obtain ⟨c, ha, hb⟩ := float_beq_iff.1 h
    exact float_beq_iff.2 ⟨c, hb, ha⟩
  trans {a b c} h k := by
    obtain ⟨x, ha, hb⟩ := float_beq_iff.1 h
    obtain ⟨y, hb', hc⟩ := float_beq_iff.1 k
    obtain rfl := Option.some.inj (hb.symm.trans hb')
    exact float_beq_iff.2 ⟨x, ha, hc⟩

theorem Size.beq_iff {a b : Size} :
    (a == b) = true ↔
      (a.value == b.value) = true ∧ a.unit = b.unit ∧ a.keepsForm = b.keepsForm := by
  change (a.value == b.value && (a.unit == b.unit && a.keepsForm == b.keepsForm)) = true ↔ _
  simp

instance : PartialEquivBEq Size where
  symm h := by
    obtain ⟨value, unit, form⟩ := Size.beq_iff.1 h
    exact Size.beq_iff.2 ⟨BEq.symm value, unit.symm, form.symm⟩
  trans h k := by
    obtain ⟨value, unit, form⟩ := Size.beq_iff.1 h
    obtain ⟨value', unit', form'⟩ := Size.beq_iff.1 k
    exact Size.beq_iff.2 ⟨BEq.trans value value', unit.trans unit', form.trans form'⟩

theorem Hsl.beq_iff {a b : Hsl} :
    (a == b) = true ↔ (a.hue == b.hue) = true ∧ (a.saturation == b.saturation) = true ∧
      (a.lightness == b.lightness) = true := by
  change (a.hue == b.hue && (a.saturation == b.saturation && a.lightness == b.lightness)) =
    true ↔ _
  simp

instance : PartialEquivBEq Hsl where
  symm h := by
    obtain ⟨hue, saturation, lightness⟩ := Hsl.beq_iff.1 h
    exact Hsl.beq_iff.2 ⟨BEq.symm hue, BEq.symm saturation, BEq.symm lightness⟩
  trans h k := by
    obtain ⟨hue, saturation, lightness⟩ := Hsl.beq_iff.1 h
    obtain ⟨hue', saturation', lightness'⟩ := Hsl.beq_iff.1 k
    exact Hsl.beq_iff.2
      ⟨BEq.trans hue hue', BEq.trans saturation saturation', BEq.trans lightness lightness'⟩

/-- An alpha is equal to another one if both are missing, or both are there and equal. -/
theorem alpha_symm {a b : Option Float} (h : (a == b) = true) : (b == a) = true := by
  cases a <;> cases b <;> simp only [Option.none_beq_none, Option.some_beq_some,
    Option.none_beq_some, Option.some_beq_none, Bool.false_eq_true] at h ⊢
  exact BEq.symm h

theorem alpha_trans {a b c : Option Float} (h : (a == b) = true) (k : (b == c) = true) :
    (a == c) = true := by
  cases a <;> cases b <;> cases c <;> simp only [Option.none_beq_none, Option.some_beq_some,
    Option.none_beq_some, Option.some_beq_none, Bool.false_eq_true] at h k ⊢
  exact BEq.trans h k

instance : PartialEquivBEq Color where
  symm {a b} h := by
    change a.same b = true at h
    change b.same a = true
    cases a <;> cases b <;> simp only [Color.same, Bool.and_eq_true, decide_eq_true_eq,
      Bool.false_eq_true] at h ⊢
    · exact ⟨h.1.symm, alpha_symm h.2⟩
    · exact ⟨BEq.symm h.1, alpha_symm h.2⟩
  trans {a b c} h k := by
    change a.same b = true at h
    change b.same c = true at k
    change a.same c = true
    cases a <;> cases b <;> cases c <;> simp only [Color.same, Bool.and_eq_true, decide_eq_true_eq,
      Bool.false_eq_true] at h k ⊢
    · exact ⟨h.1.trans k.1, alpha_trans h.2 k.2⟩
    · exact ⟨BEq.trans h.1 k.1, alpha_trans h.2 k.2⟩

namespace Value

mutual

theorem same_symm : ∀ {v w : Value}, same v w = true → same w v = true
  | .size _, .size _, h => BEq.symm (α := Size) h
  | .keyword _, .keyword _, h => BEq.symm (α := String) h
  | .quoted _, .quoted _, h => BEq.symm (α := String) h
  | .series s xs, .series t ys, h => by
      simp only [same, Bool.and_eq_true, decide_eq_true_eq] at h ⊢
      exact ⟨h.1.symm, allSame_symm h.2⟩
  | .call n s xs, .call m t ys, h => by
      simp only [same, Bool.and_eq_true, decide_eq_true_eq, beq_iff_eq] at h ⊢
      exact ⟨⟨h.1.1.symm, h.1.2.symm⟩, allSame_symm h.2⟩
  | .color _, .color _, h => BEq.symm (α := Color) h

theorem allSame_symm : ∀ {vs ws : List Value}, allSame vs ws = true → allSame ws vs = true
  | [], [], _ => rfl
  | v :: vs, w :: ws, h => by
      simp only [allSame, Bool.and_eq_true] at h ⊢
      exact ⟨same_symm h.1, allSame_symm h.2⟩

end

mutual

theorem same_trans : ∀ {u v w : Value}, same u v = true → same v w = true → same u w = true
  | .size _, .size _, .size _, h, k => BEq.trans (α := Size) h k
  | .keyword _, .keyword _, .keyword _, h, k => BEq.trans (α := String) h k
  | .quoted _, .quoted _, .quoted _, h, k => BEq.trans (α := String) h k
  | .series r xs, .series s ys, .series t zs, h, k => by
      simp only [same, Bool.and_eq_true, decide_eq_true_eq] at h k ⊢
      exact ⟨h.1.trans k.1, allSame_trans h.2 k.2⟩
  | .call l r xs, .call m s ys, .call n t zs, h, k => by
      simp only [same, Bool.and_eq_true, decide_eq_true_eq, beq_iff_eq] at h k ⊢
      exact ⟨⟨h.1.1.trans k.1.1, h.1.2.trans k.1.2⟩, allSame_trans h.2 k.2⟩
  | .color _, .color _, .color _, h, k => BEq.trans (α := Color) h k

theorem allSame_trans : ∀ {us vs ws : List Value},
    allSame us vs = true → allSame vs ws = true → allSame us ws = true
  | [], [], [], _, _ => rfl
  | u :: us, v :: vs, w :: ws, h, k => by
      simp only [allSame, Bool.and_eq_true] at h k ⊢
      exact ⟨same_trans h.1 k.1, allSame_trans h.2 k.2⟩

end

instance : PartialEquivBEq Value where
  symm := same_symm
  trans := same_trans

mutual

/-- The number of values in a value, itself included. -/
def nodes : Value → Nat
  | .series _ items => 1 + allNodes items
  | .call _ _ arguments => 1 + allNodes arguments
  | _ => 1

def allNodes : List Value → Nat
  | [] => 0
  | v :: vs => v.nodes + allNodes vs

end

mutual

theorem nodes_of_same : ∀ {v w : Value}, same v w = true → v.nodes = w.nodes
  | .size _, .size _, _ => rfl
  | .keyword _, .keyword _, _ => rfl
  | .quoted _, .quoted _, _ => rfl
  | .series s xs, .series t ys, h => by
      simp only [same, Bool.and_eq_true] at h
      rw [nodes, nodes, allNodes_of_allSame h.2]
  | .call n s xs, .call m t ys, h => by
      simp only [same, Bool.and_eq_true] at h
      rw [nodes, nodes, allNodes_of_allSame h.2]
  | .color _, .color _, _ => rfl

theorem allNodes_of_allSame : ∀ {vs ws : List Value},
    allSame vs ws = true → allNodes vs = allNodes ws
  | [], [], _ => rfl
  | v :: vs, w :: ws, h => by
      simp only [allSame, Bool.and_eq_true] at h
      rw [allNodes, allNodes, nodes_of_same h.1, allNodes_of_allSame h.2]

end

theorem nodes_lt_of_mem {v : Value} {s : Separator} {items : List Value} (h : v ∈ items) :
    v.nodes < (series s items).nodes := by
  rw [nodes]
  induction items with
  | nil => simp at h
  | cons w items ih =>
      rw [allNodes]
      rcases List.mem_cons.1 h with rfl | h
      · omega
      · have := ih h
        omega

/-- Whether a value is read back as `w`: it is `w`, or equal to it. -/
def Agrees (v w : Value) : Prop := v = w ∨ (v == w) = true

theorem Agrees.refl (v : Value) : v.Agrees v := Or.inl rfl

theorem Agrees.symm {v w : Value} (h : v.Agrees w) : w.Agrees v := by
  rcases h with rfl | h
  · exact .refl v
  · exact Or.inr (BEq.symm h)

/-- What equal values have in common, values that agree have in common. -/
theorem Agrees.congr {α : Type} {f : Value → α} {v w : Value} (h : v.Agrees w)
    (respects : same v w = true → f v = f w) : f v = f w := by
  rcases h with rfl | h
  · rfl
  · exact respects h

theorem Agrees.nodes_eq {v w : Value} (h : v.Agrees w) : v.nodes = w.nodes :=
  h.congr nodes_of_same

theorem Agrees.keyword?_eq {v w : Value} (h : v.Agrees w) : v.keyword? = w.keyword? := by
  apply h.congr
  intro same
  cases v <;> cases w <;> simp_all [Value.same, keyword?]

theorem Agrees.isOneOf_eq {v w : Value} (h : v.Agrees w) (words : List String) :
    v.isOneOf words = w.isOneOf words := by
  simp only [isOneOf, isKeyword, h.keyword?_eq]

/-- A value that agrees with a keyword is that keyword. -/
theorem Agrees.eq_keyword {v : Value} {word : String} (h : v.Agrees (.keyword word)) :
    v = .keyword word := by
  have same := h.keyword?_eq
  cases v <;> simp_all [keyword?]

theorem forall₂_of_allSame : ∀ {vs ws : List Value},
    allSame vs ws = true → List.Forall₂ Agrees vs ws
  | [], [], _ => .nil
  | v :: vs, w :: ws, h => by
      simp only [allSame, Bool.and_eq_true] at h
      exact .cons (Or.inr h.1) (forall₂_of_allSame h.2)

/-- A value that agrees with a series is a series with the same separator, and of the
same members up to equality. -/
theorem Agrees.exists_series {v : Value} {s : Separator} {items : List Value}
    (h : v.Agrees (.series s items)) :
    ∃ others, v = .series s others ∧ List.Forall₂ Agrees others items := by
  rcases h with rfl | h
  · exact ⟨items, rfl, List.forall₂_same.2 fun w _ => .refl w⟩
  · cases v with
    | series t others =>
        change same _ _ = true at h
        simp only [same, Bool.and_eq_true, decide_eq_true_eq] at h
        obtain ⟨rfl, members⟩ := h
        exact ⟨others, rfl, forall₂_of_allSame members⟩
    | _ => exact absurd h Bool.false_ne_true

end Value

end Stylesheet
