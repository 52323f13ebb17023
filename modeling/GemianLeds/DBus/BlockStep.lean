import GemianLeds.DBus.LEDs
import Mathlib.Tactic.SplitIfs

/-! `SetLEDBlockStep` against its documentation: LED 1 to 5, colour 0 to 2, type 0 to 3, and a
value that depends on the type. Nothing checks the colour, so numbers without a colour are
stored as well, and are shown as red. -/
namespace GemianLeds

def BlockColour.toUInt32 : BlockColour → UInt32
  | .red => 0
  | .green => 1
  | .blue => 2
  | .unnamed n _ => n

/-- The casts to the enumerations keep the number. -/
@[simp] theorem BlockColour.toUInt32_ofUInt32 (n : UInt32) :
    (BlockColour.ofUInt32 n).toUInt32 = n := by
  unfold BlockColour.ofUInt32
  split_ifs with h h2 h1
  · rfl
  · exact h2.symm
  · exact h1.symm
  · rw [UInt32.lt_iff_toNat_lt] at h
    change ¬ 2 < n.toNat at h
    have h2' : n.toNat ≠ 2 := fun e => h2 (uint32_eq_of_toNat e)
    have h1' : n.toNat ≠ 1 := fun e => h1 (uint32_eq_of_toNat e)
    exact (uint32_eq_of_toNat (k := 0) (by omega)).symm

@[simp] theorem BlockStepType.toUInt32_ofUInt32 (n : UInt32) :
    (BlockStepType.ofUInt32 n).toUInt32 = n := by
  unfold BlockStepType.ofUInt32
  split_ifs with h h4 h3 h2 h1
  · rfl
  · exact h4.symm
  · exact h3.symm
  · exact h2.symm
  · exact h1.symm
  · rw [UInt32.lt_iff_toNat_lt] at h
    change ¬ 4 < n.toNat at h
    have hne {k : ℕ} (hk : n ≠ UInt32.ofNat k) : n.toNat ≠ k := fun e => hk (uint32_eq_of_toNat e)
    have h4' := hne (k := 4) h4
    have h3' := hne (k := 3) h3
    have h2' := hne (k := 2) h2
    have h1' := hne (k := 1) h1
    exact (uint32_eq_of_toNat (k := 0) (by omega)).symm

/-- The requests the documentation lists. -/
structure Documented (led colour type value : UInt32) : Prop where
  ledNumber : 1 ≤ led.toNat ∧ led.toNat ≤ 5
  colourNumber : colour.toNat = 0 ∨ colour.toNat = 1 ∨ colour.toNat = 2
  typeNumber : type.toNat ≤ 3
  valueLimit : value.toNat < 256 ∨ type.toNat = 3 ∧ value.toNat < 1024

/-- `step` has the four numbers of a request. -/
structure Represents (step : BlockAnimStep) (led colour type value : UInt32) : Prop where
  led : step.led.toInt = led.toNat
  colour : step.colour.toUInt32 = colour
  type : step.type.toUInt32 = type
  value : step.value = value

/-- The light state once the actions a request queues have been performed. -/
def afterRequest (s : LightState) (r : Request) : LightState :=
  runOps s ((dbusMethodCall r).actions.map .daemon)

def checks (led type value : UInt32) : Bool :=
  verifyLed led && verifyType type && verifyValue type value

/-- What the three checks test. -/
theorem checks_iff (led type value : UInt32) :
    checks led type value ↔ (1 ≤ led.toNat ∧ led.toNat ≤ 5) ∧ type.toNat ≤ 3 ∧
      (value.toNat < 256 ∨ type.toNat = 3 ∧ value.toNat < 1024) := by
  have htype : type = BlockStepType.delay.toUInt32 ↔ type.toNat = 3 := by
    constructor
    · rintro rfl
      rfl
    · exact uint32_eq_of_toNat
  unfold checks verifyLed verifyType verifyValue
  simp only [Bool.and_eq_true, Bool.or_eq_true, decide_eq_true_eq, gt_iff_lt, htype,
    UInt32.lt_iff_toNat_lt]
  change ((0 < led.toNat ∧ led.toNat < 6) ∧ type.toNat < 4) ∧
    (type.toNat = 3 ∧ value.toNat < 1024 ∨ value.toNat < 256) ↔ _
  omega

theorem documented_iff (led colour type value : UInt32) :
    Documented led colour type value ↔ checks led type value ∧ colour.toNat ≤ 2 := by
  rw [checks_iff]
  constructor
  · rintro ⟨hled, hcolour, htype, hvalue⟩
    exact ⟨⟨hled, htype, hvalue⟩, by omega⟩
  · rintro ⟨⟨hled, htype, hvalue⟩, hcolour⟩
    exact ⟨hled, by omega, htype, hvalue⟩

/-- Where the checks pass, the casts keep the numbers. -/
theorem castStep_represents {led : UInt32} (hled : verifyLed led) (colour type value : UInt32) :
    Represents (castStep led colour type value) led colour type value where
  led := by rcases verifyLed_cases hled with rfl | rfl | rfl | rfl | rfl <;> rfl
  colour := BlockColour.toUInt32_ofUInt32 colour
  type := BlockStepType.toUInt32_ofUInt32 type
  value := rfl

theorem afterRequest_accepted {led type value : UInt32} (h : checks led type value)
    (s : LightState) (colour : UInt32) :
    afterRequest s (.setLEDBlockStep led colour type value) =
      { s with steps := s.steps ++ [castStep led colour type value] } := by
  unfold checks at h
  unfold afterRequest
  rw [dbusMethodCall, if_pos h]
  exact runOps_stage s [castStep led colour type value]

theorem afterRequest_rejected {led type value : UInt32} (h : checks led type value = false)
    (s : LightState) (colour : UInt32) :
    afterRequest s (.setLEDBlockStep led colour type value) = s := by
  unfold checks at h
  unfold afterRequest
  rw [dbusMethodCall, if_neg (Bool.eq_false_iff.mp h)]
  rfl

/-- A documented request adds its step and nothing else; any other changes nothing. -/
structure AcceptsExactly (s : LightState) (led colour type value : UInt32) : Prop where
  documented : Documented led colour type value →
    ∃ step, Represents step led colour type value ∧
      afterRequest s (.setLEDBlockStep led colour type value) =
        { s with steps := s.steps ++ [step] }
  otherwise : ¬ Documented led colour type value →
    afterRequest s (.setLEDBlockStep led colour type value) = s

theorem steps_ne_append (s : LightState) (step : BlockAnimStep) :
    { s with steps := s.steps ++ [step] } ≠ s := by
  intro h
  have hsteps := congrArg LightState.steps h
  simp at hsteps

/-- Exactly the requests with a named colour, and those another check rejects, are handled as
documented. -/
theorem accepts_exactly_iff (s : LightState) (led colour type value : UInt32) :
    AcceptsExactly s led colour type value ↔
      colour.toNat ≤ 2 ∨
        (verifyLed led && verifyType type && verifyValue type value) = false := by
  change _ ↔ colour.toNat ≤ 2 ∨ checks led type value = false
  constructor
  · intro h
    by_contra hnot
    obtain ⟨hcolour, hchecks⟩ := not_or.mp hnot
    have hpass : checks led type value := by simpa using hchecks
    have hundocumented : ¬ Documented led colour type value := by
      rw [documented_iff]
      exact fun hd => hcolour hd.2
    have hsame := h.otherwise hundocumented
    rw [afterRequest_accepted hpass] at hsame
    exact steps_ne_append s _ hsame
  · intro h
    constructor
    · intro hdoc
      have hpass := ((documented_iff led colour type value).mp hdoc).1
      have hled : verifyLed led := by
        unfold checks at hpass
        simp only [Bool.and_eq_true] at hpass
        exact hpass.1.1
      exact ⟨castStep led colour type value, castStep_represents hled colour type value,
        afterRequest_accepted hpass s colour⟩
    · intro hundocumented
      rw [documented_iff, not_and] at hundocumented
      cases hchecks : checks led type value with
      | true =>
        have hcolour := hundocumented hchecks
        rcases h with h | h
        · exact absurd h hcolour
        · rw [hchecks] at h
          cases h
      | false => exact afterRequest_rejected hchecks s colour

/-- Colour 3 of LED 1: stored, though no such colour is documented. -/
theorem unnamed_colour_accepted :
    ¬ ∀ (s : LightState) (led colour type value : UInt32),
      AcceptsExactly s led colour type value := by
  intro hall
  have hundocumented : ¬ Documented 1 3 0 200 := by
    rw [documented_iff]
    rintro ⟨-, hcolour⟩
    exact absurd hcolour (by decide)
  have hsame := (hall (.new 0) 1 3 0 200).otherwise hundocumented
  rw [afterRequest_accepted (by decide)] at hsame
  exact steps_ne_append _ _ hsame

/-- A colour without a name is shown as red. -/
theorem unnamed_colour_words {led colour : UInt32} (hled : verifyLed led)
    (hcolour : 2 < colour.toNat) (type value : UInt32) :
    stepWords (castStep led colour type value) = stepWords (castStep led 0 type value) := by
  have hunnamed : BlockColour.ofUInt32 colour = .unnamed colour hcolour := dif_pos hcolour
  have hcode : awLEDCodeForStep (castStep led colour type value) =
      awLEDCodeForStep (castStep led 0 type value) := by
    have hred : BlockColour.ofUInt32 0 = .red := rfl
    simp only [awLEDCodeForStep, castStep, hunnamed, hred]
    rcases verifyLed_cases hled with rfl | rfl | rfl | rfl | rfl <;> rfl
  have htype : (castStep led colour type value).type = (castStep led 0 type value).type := rfl
  have hvalue : (castStep led colour type value).value = (castStep led 0 type value).value := rfl
  unfold stepWords
  rw [htype, hvalue, hcode]

end GemianLeds
