import GemianLeds.Program.Closed
import Mathlib.Data.List.Basic

/-! The animation of a program read back from the SRAM: the words at the start of the loop
determine the steps they were made from. -/
namespace GemianLeds
open Sequencer

/-- A step that a word can represent: one with a named colour, or the torch's. -/
def Encodable (step : BlockAnimStep) : Prop :=
  Accepted step ∧ (step.colour = .red ∨ step.colour = .green ∨ step.colour = .blue) ∨
    step = torchStep

theorem Encodable.stepOk {step : BlockAnimStep} (h : Encodable step) : StepOk step :=
  h.imp And.left id

/-- What the word of a step keeps: a delay has no LED and no colour. -/
def kept (step : BlockAnimStep) : BlockAnimStep :=
  match step.type with
  | .delay => { step with led := 0, colour := .red }
  | _ => step

/-- The LED a channel belongs to; LED 2 comes after LED 5. -/
def channelLed (channel : ℕ) : Int32 :=
  if channel < 3 then 1 else if channel < 6 then 3 else if channel < 9 then 4
  else if channel < 12 then 5 else 2

def channelColour (channel : ℕ) : BlockColour :=
  if channel % 3 = 2 then .blue else if channel % 3 = 1 then .green else .red

def channelStep (type : BlockStepType) (channel value : ℕ) : Option BlockAnimStep :=
  if channel = 0x1f then some ⟨0x1f, .red, type, .ofNat value⟩
  else if channel < 15 then some ⟨channelLed channel, channelColour channel, type, .ofNat value⟩
  else none

def Instruction.step : Instruction → Option BlockAnimStep
  | .wait true time => some ⟨0, .red, .delay, .ofNat time⟩
  | .setPWM channel value => channelStep .setPWM channel value
  | .rampIn channel value => channelStep .fadeIn channel value
  | .rampOut channel value => channelStep .fadeOut channel value
  | _ => none

/-- The step a word of the loop stands for. -/
def decodeStep (w : UInt32) : Option BlockAnimStep := (decode w).step

theorem channelStep_ledChannel {led : Int32} {colour : BlockColour}
    (hled : led = 1 ∨ led = 2 ∨ led = 3 ∨ led = 4 ∨ led = 5)
    (hcolour : colour = .red ∨ colour = .green ∨ colour = .blue) (type : BlockStepType)
    (value : UInt32) :
    channelStep type (ledChannel led + colourOffset colour) value.toNat =
      some ⟨led, colour, type, value⟩ := by
  rcases hled with rfl | rfl | rfl | rfl | rfl <;> rcases hcolour with rfl | rfl | rfl <;>
    simp [channelStep, ledChannel, colourOffset, channelLed, channelColour]

theorem Encodable.step {step : BlockAnimStep} (h : Encodable step) :
    (stepInstruction step).step = some (kept step) := by
  rcases h with ⟨ha, hcolour⟩ | rfl
  · have hc := ha.checked
    have hstep (type : BlockStepType) :=
      channelStep_ledChannel hc.led hcolour type step.value
    obtain ⟨led, colour, type, value⟩ := step
    rcases hc.value with ⟨rfl, -⟩ | ⟨rfl | rfl | rfl, -⟩
    · simp [stepInstruction, Instruction.step, kept]
    · simpa only [stepInstruction, Instruction.step, hc.channel, kept] using hstep .setPWM
    · simpa only [stepInstruction, Instruction.step, hc.channel, kept] using hstep .fadeIn
    · simpa only [stepInstruction, Instruction.step, hc.channel, kept] using hstep .fadeOut
  · decide

theorem animationWords_decodeStep {steps : List BlockAnimStep}
    (h : ∀ step ∈ steps, Encodable step) :
    (animationWords steps).map decodeStep = steps.map fun step => some (kept step) := by
  have hdecode := animationWords_decode fun step hs => (h step hs).stepOk
  calc (animationWords steps).map decodeStep
      = ((animationWords steps).map decode).map Instruction.step := by
        rw [List.map_map]
        rfl
    _ = (steps.map stepInstruction).map Instruction.step := by rw [hdecode]
    _ = steps.map fun step => some (kept step) := by
        rw [List.map_map]
        exact List.map_congr_left fun step hs => (h step hs).step

/-- An opcode of three bits, a channel of five and a value of eight, side by side. -/
def Fields (opcode channel value : ℕ) (w : UInt32) : Prop :=
  w.toNat = opcode * 2 ^ 13 + channel * 2 ^ 8 + value ∧ channel < 2 ^ 5 ∧ value < 2 ^ 8

/-- `w` is made up of the fields of the instruction, with no carry from one into the next. -/
def Instruction.FieldsIn (w : UInt32) : Instruction → Prop
  | .branch addr => w.toNat = addr ∧ addr < 2 ^ 8
  | .wait prescale16ms time =>
      w.toNat = 0b00111 * 2 ^ 11 + prescale16ms.toNat * 2 ^ 10 + time ∧ time < 2 ^ 10
  | .setStepTimer channel time => Fields 0b100 channel time w
  | .setPWM channel value => Fields 0b101 channel value w
  | .rampOut channel value => Fields 0b110 channel value w
  | .rampIn channel value => Fields 0b111 channel value w
  | .other => False

theorem decode_fields {w : UInt32} (h : decode w ≠ .other) : (decode w).FieldsIn w := by
  revert h
  simp only [decode]
  split_ifs
  case pos h1 =>
    intro _
    exact ⟨rfl, h1⟩
  case pos h1 h2 =>
    intro _
    by_cases hp : w.toNat / 1024 % 2 = 1 <;>
      simp [hp, Instruction.FieldsIn] <;> omega
  case neg => simp
  all_goals
    intro _
    simp only [Instruction.FieldsIn, Fields]
    omega

theorem StepOk.instruction_ne_other {step : BlockAnimStep} (h : StepOk step) :
    stepInstruction step ≠ .other := by
  rcases h with h | rfl
  · rcases h.checked.value with ⟨ht, -⟩ | ⟨ht | ht | ht, -⟩ <;> simp [stepInstruction, ht]
  · decide

theorem animationWords_fields {steps : List BlockAnimStep} (h : ∀ step ∈ steps, StepOk step) :
    List.Forall₂ (fun step w => w.toNat < 2 ^ 16 ∧ (stepInstruction step).FieldsIn w) steps
      (animationWords steps) := by
  induction steps with
  | nil => exact .nil
  | cons step steps ih =>
    have hstep := h step (by simp)
    obtain ⟨w, hw, hd, hlt⟩ := hstep.word
    have hfields := decode_fields (hd ▸ hstep.instruction_ne_other)
    rw [animationWords_cons, hw]
    exact .cons ⟨hlt, hd ▸ hfields⟩ (ih fun x hx => h x (by simp [hx]))

/-- The words in the SRAM from the start of the loop, as many as there are steps. -/
def animationAt (b : Board) (s : LightState) : List UInt32 :=
  (List.range s.steps.length).map fun i =>
    (b.writes (update.run s).output).sram ((loopStartPC s).toNat + i)

theorem animationAt_eq (b : Board) {s : LightState} (h : ∀ step ∈ s.steps, StepOk step)
    (hfit : (program s).length ≤ 256) : animationAt b s = animationWords s.steps := by
  have hbody := (b.update_closed (fun _ _ => 0) h hfit).loaded_body.left
  have hanimation := hbody.left.words
  rw [animationWords_length h] at hanimation
  rw [animationAt, update_run, loopStartPC_toNat]
  exact hanimation

/-- The words of an animation decode to its steps, each is made up of its fields, and
different animations have different words. -/
theorem animation_encoding_lossless (b b' : Board) (s s' : LightState)
    (h : ∀ step ∈ s.steps, Encodable step) (h' : ∀ step ∈ s'.steps, Encodable step)
    (hfit : (program s).length ≤ 256) (hfit' : (program s').length ≤ 256) :
    (animationAt b s).map decodeStep = s.steps.map (fun step => some (kept step)) ∧
      List.Forall₂ (fun step w => w.toNat < 2 ^ 16 ∧ (stepInstruction step).FieldsIn w) s.steps
        (animationAt b s) ∧
      (s.steps.length = s'.steps.length → s.steps.map kept ≠ s'.steps.map kept →
        animationAt b s ≠ animationAt b' s') := by
  have hok := fun step hs => (h step hs).stepOk
  have hok' := fun step hs => (h' step hs).stepOk
  rw [animationAt_eq b hok hfit, animationAt_eq b' hok' hfit']
  refine ⟨animationWords_decodeStep h, animationWords_fields hok, ?_⟩
  intro _ hne heq
  have hsome : (s.steps.map kept).map some = (s'.steps.map kept).map some := by
    rw [List.map_map, List.map_map]
    exact (animationWords_decodeStep h).symm.trans
      ((congrArg (List.map decodeStep) heq).trans (animationWords_decodeStep h'))
  exact hne (List.map_injective_iff.mpr (Option.some_injective _) hsome)

/-- A fade of LED 2, which has the channels after LED 5, followed by a delay or by the torch. -/
theorem animation_encoding_lossless_fade :
    animationAt .blank
        { LightState.new 0 with steps := [castStep 2 2 2 200, castStep 5 1 3 1000] } ≠
      animationAt .blank { LightState.new 0 with steps := [castStep 2 2 2 200, torchStep] } := by
  have hfade : Encodable (castStep 2 2 2 200) :=
    .inl ⟨⟨2, 2, 2, 200, by decide, by decide, by decide, rfl⟩, .inr (.inr rfl)⟩
  have hdelay : Encodable (castStep 5 1 3 1000) :=
    .inl ⟨⟨5, 1, 3, 1000, by decide, by decide, by decide, rfl⟩, .inr (.inl rfl)⟩
  have htorch : Encodable torchStep := .inr rfl
  exact (animation_encoding_lossless .blank .blank _ _ (by simpa using ⟨hfade, hdelay⟩)
    (by simpa using ⟨hfade, htorch⟩) (by decide) (by decide)).2.2 rfl (by decide)

end GemianLeds
