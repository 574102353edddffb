import Mathlib
import Stylesheet.Color.Named
import Stylesheet.Proofs.Color.Keyed
import Stylesheet.Proofs.Number.Order

/-!
# What every color is like

Colors come from the constructors and are changed by conversions only. One invariant holds of
all of them: an alpha that is there is at least 0 and below 1. Such an alpha passes both tests
that a conversion can put it to, so a conversion leaves it as it is, and with it the invariant.
Everything else follows from it and from the shape of the channels: the name, the family and
the alpha read from the channels, and that a second conversion to one family has nothing left
to do.
-/

namespace Stylesheet

/-- An alpha that is there is that of a color one can see through. -/
def Translucent (alpha : Option Float) : Prop := ∀ a ∈ alpha, 0 ≤ a ∧ a < 1

namespace Color

/-- The colors that the constructors give. -/
inductive Built : Color → Prop
  | empty : Built .empty
  | rgb (red green blue : Float) (alpha : Option Float) : Built (ofRgb red green blue alpha)
  | hsl (hue saturation lightness : Float) (alpha : Option Float) :
    Built (ofHsl hue saturation lightness alpha)
  | hslLiteral (hue saturation lightness : Float) (alpha : Option Float) :
    Built (ofHslLiteral hue saturation lightness alpha)
  | hex {text : String} {c : Color} (read : ofHex? text = some c) : Built c
  | keyword {text : String} {c : Color} (read : ofKeyword? text = some c) : Built c
  | keys {entries : List (Char × Float)} {c : Color} (read : ofKeys? entries = some c) : Built c
  | parsed {text : String} {c : Color} (read : parse? text = some c) : Built c

/-- Convert to one family. -/
def into (c : Color) : Family → Color
  | .rgb => c.toRgb
  | .hsl => c.toHsl

/-- Convert to one family after another. -/
def convert (c : Color) (families : List Family) : Color := families.foldl into c

end Color

namespace Keyed

def into (k : Keyed) : Family → Keyed
  | .rgb => k.toRgb
  | .hsl => k.toHsl

def convert (k : Keyed) (families : List Family) : Keyed := families.foldl into k

/-- What the channels of every color are like. -/
structure Sound (k : Keyed) : Prop where
  keys : k.keys ∈ [[], [.red, .green, .blue], [.red, .green, .blue, .alpha],
    [.hue, .saturation, .lightness], [.hue, .saturation, .lightness, .alpha]]
  keepsForm : ∀ entry ∈ k.channels, entry.2.keepsForm = true
  alpha : Translucent (k.number? .alpha)

end Keyed

section Alpha

variable {alpha : Option Float}

theorem translucent_storedAlpha (alpha : Option Float) : Translucent (Color.storedAlpha alpha) := by
  intro a stored
  rw [Option.mem_def, Color.storedAlpha, Option.filter_eq_some_iff,
    Option.map_eq_some_iff] at stored
  obtain ⟨⟨b, -, rfl⟩, different⟩ := stored
  have range : (0 : Float) ≤ 1 := by decide +kernel
  obtain ⟨low, high⟩ := clamp_mem b range
  exact ⟨low, Number.lt_of_le_of_bne high different⟩

/-- The test of a new alpha lets it through. -/
theorem storedAlpha_of_translucent (h : Translucent alpha) : Color.storedAlpha alpha = alpha := by
  cases alpha with
  | none => rfl
  | some a =>
    obtain ⟨low, below⟩ := h a rfl
    rw [Color.storedAlpha, Option.map_some, clamp_eq_self low (Number.le_of_lt below)]
    exact Option.filter_eq_some_iff.2 ⟨rfl, Number.bne_of_lt below⟩

/-- The test of an alpha that is there lets it through. -/
theorem filter_of_translucent (h : Translucent alpha) :
    alpha.filter (fun a => !(a ≥ 1)) = alpha := by
  cases alpha with
  | none => rfl
  | some a =>
    have below : (!decide (a ≥ 1)) = true := by simpa using Number.not_le_of_lt (h a rfl).2
    exact Option.filter_eq_some_iff.2 ⟨rfl, below⟩

end Alpha

namespace Color

variable {c : Color}

theorem translucent_of_keys {entries : List (Char × Float)} (read : ofKeys? entries = some c) :
    Translucent c.alpha? := by
  rw [ofKeys?, Option.orElse_eq_orElse, Option.orElse_eq_or, Option.or_eq_some_iff] at read
  simp only [Option.bind_eq_bind, Option.bind_eq_some_iff, Option.pure_def,
    Option.some.injEq] at read
  obtain ⟨_, -, _, -, _, -, rfl⟩ | ⟨-, _, -, _, -, _, -, rfl⟩ := read
  · exact translucent_storedAlpha _
  · exact translucent_storedAlpha _

theorem translucent_of_bytes {t : Option Rgb} (read : t.map ofBytes = some c) :
    Translucent c.alpha? := by
  obtain ⟨bytes, -, rfl⟩ := Option.map_eq_some_iff.1 read
  nofun

theorem Built.translucent (built : Built c) : Translucent c.alpha? := by
  cases built with
  | empty => nofun
  | rgb red green blue alpha => exact translucent_storedAlpha alpha
  | hsl hue saturation lightness alpha => exact translucent_storedAlpha alpha
  | hslLiteral hue saturation lightness alpha => exact translucent_storedAlpha alpha
  | hex read => exact translucent_of_bytes read
  | keyword read => exact translucent_of_bytes read
  | keys read => exact translucent_of_keys read
  | parsed read =>
    rw [parse?, Option.orElse_eq_orElse, Option.orElse_eq_or, Option.or_eq_some_iff] at read
    obtain read | ⟨-, read⟩ := read
    · exact translucent_of_bytes read
    · exact translucent_of_bytes read

/-- A conversion leaves an alpha that one can see through as it is. -/
theorem alpha?_into (h : Translucent c.alpha?) (f : Family) : (c.into f).alpha? = c.alpha? := by
  cases c with
  | empty => cases f <;> rfl
  | rgb c a =>
    cases f with
    | rgb => exact filter_of_translucent h
    | hsl => exact storedAlpha_of_translucent h
  | hsl c a =>
    cases f with
    | rgb => exact storedAlpha_of_translucent h
    | hsl => exact filter_of_translucent h

theorem translucent_into (h : Translucent c.alpha?) (f : Family) :
    Translucent (c.into f).alpha? := by
  rwa [alpha?_into h f]

/-- So does any run of conversions. -/
theorem alpha?_convert (h : Translucent c.alpha?) (families : List Family) :
    (c.convert families).alpha? = c.alpha? := by
  induction families generalizing c with
  | nil => rfl
  | cons f rest ih =>
    rw [convert, List.foldl_cons, ← convert, ih (translucent_into h f), alpha?_into h f]

theorem Built.translucent_convert (built : Built c) (families : List Family) :
    Translucent (c.convert families).alpha? := by
  rw [alpha?_convert built.translucent families]
  exact built.translucent

theorem family?_eq_none_iff : c.family? = none ↔ c = .empty := by
  cases c <;> simp [family?]

theorem into_empty (f : Family) : empty.into f = .empty := by cases f <;> rfl

theorem family?_into (present : c ≠ .empty) (f : Family) : (c.into f).family? = some f := by
  cases c with
  | empty => exact absurd rfl present
  | rgb c a => cases f <;> rfl
  | hsl c a => cases f <;> rfl

/-- A conversion to the family a color is in has only its alpha to look at. -/
theorem into_of_family? (h : Translucent c.alpha?) {f : Family} (there : c.family? = some f) :
    c.into f = c := by
  cases c with
  | empty => cases there
  | rgb c a =>
    obtain rfl := Option.some.inj there
    exact congrArg (Color.rgb c) (filter_of_translucent h)
  | hsl c a =>
    obtain rfl := Option.some.inj there
    exact congrArg (Color.hsl c) (filter_of_translucent h)

theorem into_into (h : Translucent c.alpha?) (f : Family) : (c.into f).into f = c.into f := by
  by_cases present : c = .empty
  · rw [present, into_empty, into_empty]
  · exact into_of_family? (translucent_into h f) (family?_into present f)

theorem keyed_into (c : Color) (f : Family) : (c.into f).keyed = c.keyed.into f := by
  cases f with
  | rgb => exact keyed_toRgb c
  | hsl => exact keyed_toHsl c

/-- The channels go through the conversions by themselves. -/
theorem keyed_convert (c : Color) (families : List Family) :
    (c.convert families).keyed = c.keyed.convert families := by
  induction families generalizing c with
  | nil => rfl
  | cons f rest ih =>
    rw [convert, List.foldl_cons, ← convert, ih, keyed_into]
    rfl

theorem sound_keyed (h : Translucent c.alpha?) : c.keyed.Sound where
  keys := by
    rcases c with _ | ⟨_, _ | _⟩ | ⟨_, _ | _⟩ <;> simp [keyed, Keyed.keys, channels, alphaChannel]
  keepsForm := by
    rcases c with _ | ⟨_, _ | _⟩ | ⟨_, _ | _⟩ <;> simp [keyed, channels, alphaChannel, Size.channel]
  alpha := by rwa [number?_alpha_keyed]

theorem name_of_sound (sound : c.keyed.Sound) : c.name ∈ ["", "rgb", "rgba", "hsl", "hsla"] := by
  have read : c.name = String.ofList (c.keyed.keys.map Channel.key) := by
    rw [name, Keyed.keys, List.map_map]
    rfl
  rw [read]
  exact List.mem_map_of_mem (f := fun keys => String.ofList (keys.map Channel.key)) sound.keys

/-- Whatever constructor a color comes from and whatever conversions it has gone through, its
channels are sound, and they are what the conversions make of the channels alone. Its name is
one of five, an alpha is a number from 0 up to but not including 1, and only the empty color is
without a family. One more conversion ends in its family, leaves the alpha as it is, and has
nothing left to do when it is made again. -/
theorem converted_color_state (built : Built c) (families : List Family) :
    let d := c.convert families
    d.keyed.Sound ∧ d.keyed = c.keyed.convert families ∧
      d.keyed.family? = d.family? ∧ d.keyed.number? .alpha = d.alpha? ∧
      (∀ a, d.alpha? = some a → 0 ≤ a ∧ a < 1 ∧ a.isNaN = false) ∧
      d.name ∈ ["", "rgb", "rgba", "hsl", "hsla"] ∧
      (d.family? = none ↔ d = .empty) ∧
      ∀ f, (d = .empty → d.into f = .empty) ∧ (d ≠ .empty → (d.into f).family? = some f) ∧
        (d.into f).into f = d.into f ∧ (d.into f).alpha? = d.alpha? := by
  intro d
  have translucent : Translucent d.alpha? := built.translucent_convert families
  have sound : d.keyed.Sound := sound_keyed translucent
  refine ⟨sound, keyed_convert c families, family?_keyed d, number?_alpha_keyed d, ?_,
    name_of_sound sound, family?_eq_none_iff, fun f => ⟨?_, ?_, ?_, ?_⟩⟩
  · intro a stored
    obtain ⟨low, below⟩ := translucent a stored
    exact ⟨low, below, (Number.isNaN_of_le low).2⟩
  · intro gone
    rw [gone, into_empty]
  · exact fun present => family?_into present f
  · exact into_into translucent f
  · exact alpha?_into translucent f

theorem converted_literal_state :
    let c := ofHslLiteral 400 50 50 (some 0.25)
    Built c ∧ (c.convert [.rgb, .hsl]).keyed.Sound ∧
      ((c.convert [.rgb, .hsl]).into .rgb).alpha? = (c.convert [.rgb, .hsl]).alpha? := by
  intro c
  have built : Built c := .hslLiteral 400 50 50 (some 0.25)
  obtain ⟨sound, -, -, -, -, -, -, again⟩ := converted_color_state built [.rgb, .hsl]
  exact ⟨built, sound, (again .rgb).2.2.2⟩

end Color

end Stylesheet
