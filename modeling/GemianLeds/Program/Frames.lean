import GemianLeds.Animation.Cues
import GemianLeds.Program.WaitTime

/-! The loaded program means what its steps say: pass by pass, the LEDs show at the waits of
the chip the frames of the animation, for as long as they should. -/
namespace GemianLeds
open Sequencer

def ledIndex (led : Int32) : Fin 5 :=
  if led = 1 then 0 else if led = 2 then 1 else if led = 3 then 2
  else if led = 4 then 3 else 4

/-- A colour without a name counts as red. -/
def BlockColour.component : BlockColour → Component
  | .blue => .blue
  | .green => .green
  | _ => .red

def BlockAnimStep.lamp (step : BlockAnimStep) : Lamp :=
  ⟨ledIndex step.led, step.colour.component⟩

/-- What a step is for; one with a type that has no name is for nothing. -/
def BlockAnimStep.cue (step : BlockAnimStep) : Option Cue :=
  match step.type with
  | .delay => some (.frame step.value.toNat)
  | .setPWM =>
      some
        (if step.led = 0x1f ∧ step.colour = .red then .setAll step.value.toNat
        else .set step.lamp step.value.toNat)
  | .fadeIn => some (.fade .into step.lamp step.value.toNat)
  | .fadeOut => some (.fade .out step.lamp step.value.toNat)
  | _ => none

/-- An animation without a delay is a still picture, shown while the status LEDs are: once in a
call or when nothing is connected, and once for each connected technology otherwise. -/
def stillTimes (s : LightState) : List ℕ :=
  if s.callEarpiece then [1023]
  else if connected s = 0 then [1023]
  else .replicate (connected s) 128

/-- The animation that a light state stands for. -/
def cues (s : LightState) : List Cue :=
  s.steps.filterMap BlockAnimStep.cue ++
    bif hasDelay s.steps then [] else (stillTimes s).map .frame

/-- The panel with which pass `k` of an animation begins. -/
def panelBefore (fade : Fade → ℕ → ℕ → ℕ) (s : LightState) (k : ℕ) : Panel :=
  ((animation fade).through (cues s))^[k] fun _ => 0

def Component.offset : Component → ℕ
  | .red => 0
  | .green => 1
  | .blue => 2

/-- LED 2 comes after LED 5. -/
def firstChannel : Fin 5 → ℕ
  | 0 => 0
  | 1 => 12
  | 2 => 3
  | 3 => 6
  | 4 => 9

theorem Component.offset_lt (component : Component) : component.offset < 3 := by
  cases component <;> decide

theorem firstChannel_le (led : Fin 5) : firstChannel led ≤ 12 ∧ firstChannel led % 3 = 0 := by
  decide +revert

/-- The channel of the chip that drives a lamp. -/
def Lamp.channel (lamp : Lamp) : Fin 20 :=
  ⟨firstChannel lamp.led + lamp.component.offset, by
    have := (firstChannel_le lamp.led).1
    have := lamp.component.offset_lt
    omega⟩

theorem Lamp.channel_lt (lamp : Lamp) : lamp.channel.val < 15 := by
  have := (firstChannel_le lamp.led).1
  have := lamp.component.offset_lt
  change firstChannel lamp.led + lamp.component.offset < 15
  omega

theorem Lamp.channel_injective {lamp lamp' : Lamp} (h : lamp.channel.val = lamp'.channel.val) :
    lamp = lamp' := by
  obtain ⟨led, component⟩ := lamp
  obtain ⟨led', component'⟩ := lamp'
  change firstChannel led + component.offset = firstChannel led' + component'.offset at h
  have hled := firstChannel_le led
  have hled' := firstChannel_le led'
  have hlt := component.offset_lt
  have hlt' := component'.offset_lt
  have hfirst : firstChannel led = firstChannel led' := by omega
  have hoffset : component.offset = component'.offset := by omega
  have hinjective : ∀ i j : Fin 5, firstChannel i = firstChannel j → i = j := by decide
  rw [hinjective led led' hfirst]
  cases component <;> cases component' <;> first | rfl | cases hoffset

/-- The channels of the five LEDs. -/
def panelOf (ch : Channels) : Panel := fun lamp => ch lamp.channel

/-- A ramp of the chip is a fade of its channel. -/
def rampOf (fade : Fade → ℕ → ℕ → ℕ) : Instruction → Channels → ℕ
  | .rampIn channel time, ch =>
      if h : channel < 20 then fade .into time (ch ⟨channel, h⟩) else 0
  | .rampOut channel time, ch =>
      if h : channel < 20 then fade .out time (ch ⟨channel, h⟩) else 0
  | _, _ => 0

/-- The time of a word that waits. -/
def waitLabel (w : UInt32) : Option ℕ := bif waits w then some (waitHalfMs w) else none

/-- The times and panels that the waits of pass `k` of the loop show. -/
def passFrames (ramp : Instruction → Channels → ℕ) (b : Board) (s : LightState) (k : ℕ) :
    List (ℕ × Panel) :=
  (((List.range ((bodyWords s).length + 1)).map fun j =>
    b.visit ramp (passStart s k + j)).filterMap fun x =>
      (waitLabel x.1).map fun t => (t, x.2)).map (Prod.map id panelOf)

variable {fade : Fade → ℕ → ℕ → ℕ}

/-- What a word does to a lamp, by the word's instruction. -/
theorem panelOf_set (ramp : Instruction → Channels → ℕ) (lamp : Lamp) (value : ℕ)
    (ch : Channels) :
    panelOf ((Instruction.setPWM lamp.channel value).drive ramp ch) =
      Function.update (panelOf ch) lamp value := by
  have hall : lamp.channel.val ≠ 0x1f := by
    have := lamp.channel_lt
    omega
  funext lamp'
  change (if lamp.channel.val = 0x1f ∨ lamp'.channel.val = lamp.channel.val then value
    else ch lamp'.channel) = _
  by_cases heq : lamp' = lamp
  · rw [heq, if_pos (.inr rfl), Function.update_self]
  · rw [Function.update_of_ne heq, if_neg]
    · rfl
    · rintro (h | h)
      · exact hall h
      · exact heq (Lamp.channel_injective h)

theorem panelOf_setAll (ramp : Instruction → Channels → ℕ) (value : ℕ) (ch : Channels) :
    panelOf ((Instruction.setPWM 0x1f value).drive ramp ch) = fun _ => value := by
  funext lamp
  change (if 0x1f = 0x1f ∨ lamp.channel.val = 0x1f then value else ch lamp.channel) = value
  exact if_pos (Or.inl rfl)

/-- A word that changes the channel of one lamp. -/
theorem panelOf_fade {kind : Fade} {lamp : Lamp} {time : ℕ} {i : Instruction} {ch : Channels}
    (hdrive : i.drive (rampOf fade) ch =
      fun k => if k.val = lamp.channel.val then rampOf fade i ch else ch k)
    (hramp : rampOf fade i ch = fade kind time (ch lamp.channel)) :
    panelOf (i.drive (rampOf fade) ch) = (Cue.fade kind lamp time).perform fade (panelOf ch) := by
  funext lamp'
  rw [hdrive]
  change (if lamp'.channel.val = lamp.channel.val then _ else ch lamp'.channel) =
    Function.update (panelOf ch) lamp _ lamp'
  by_cases heq : lamp' = lamp
  · rw [heq, if_pos rfl, Function.update_self]
    exact hramp
  · rw [Function.update_of_ne heq, if_neg fun h => heq (Lamp.channel_injective h)]
    rfl

theorem rampOf_into (lamp : Lamp) (time : ℕ) (ch : Channels) :
    rampOf fade (.rampIn lamp.channel time) ch = fade .into time (ch lamp.channel) :=
  dif_pos lamp.channel.isLt

theorem rampOf_out (lamp : Lamp) (time : ℕ) (ch : Channels) :
    rampOf fade (.rampOut lamp.channel time) ch = fade .out time (ch lamp.channel) :=
  dif_pos lamp.channel.isLt

/-- The channel of a checked step is that of its lamp. -/
theorem Checked.lamp_channel {step : BlockAnimStep} (h : Checked step) :
    stepChannel step = step.lamp.channel.val := by
  have hcolour : colourOffset step.colour = step.colour.component.offset := by
    cases step.colour <;> rfl
  rw [h.channel, hcolour]
  change _ = firstChannel (ledIndex step.led) + _
  rcases h.led with hled | hled | hled | hled | hled <;> rw [hled] <;> rfl

theorem Checked.led_ne {step : BlockAnimStep} (h : Checked step) : step.led ≠ 0x1f := by
  rcases h.led with hled | hled | hled | hled | hled <;> rw [hled] <;> decide

theorem waitLabel_of_decode {w : UInt32} {i : Instruction} (h : decode w = i) :
    waitLabel w = bif i.isWait then some i.halfMs else none := by
  rw [waitLabel, waits, waitHalfMs, h]

variable (fade) in
/-- The word of a step, and its counterpart in the animation. -/
theorem StepOk.counterpart {step : BlockAnimStep} (h : StepOk step) :
    ∃ w cue, stepWords step = [w] ∧ step.cue = some cue ∧
      Machine.Counterpart (aw9120 (rampOf fade)) (animation fade) panelOf waitLabel Cue.halfMs w
        cue := by
  obtain ⟨w, hw, hdecode, -⟩ := h.word
  have heffect (ch : Channels) : (aw9120 (rampOf fade)).effect w ch =
      (stepInstruction step).drive (rampOf fade) ch := congrArg (·.drive (rampOf fade) ch) hdecode
  have hlabel := waitLabel_of_decode hdecode
  rcases h with h | rfl
  · have hchecked := h.checked
    have hchannel := hchecked.lamp_channel
    unfold stepInstruction at heffect hlabel
    unfold BlockAnimStep.cue
    rcases hchecked.value with ⟨htype, -⟩ | ⟨htype | htype | htype, -⟩ <;>
      simp only [htype, hchannel] at heffect hlabel ⊢
    · refine ⟨w, _, hw, rfl, fun ch => ?_, hlabel⟩
      rw [heffect]
      rfl
    · rw [if_neg fun h => hchecked.led_ne h.1]
      refine ⟨w, _, hw, rfl, fun ch => ?_, hlabel⟩
      rw [heffect]
      exact panelOf_set _ step.lamp _ ch
    · refine ⟨w, _, hw, rfl, fun ch => ?_, hlabel⟩
      rw [heffect]
      exact panelOf_fade rfl (rampOf_into step.lamp _ ch)
    · refine ⟨w, _, hw, rfl, fun ch => ?_, hlabel⟩
      rw [heffect]
      exact panelOf_fade rfl (rampOf_out step.lamp _ ch)
  · refine ⟨w, .setAll 0xff, hw, rfl, fun ch => ?_, hlabel⟩
    rw [heffect]
    exact panelOf_setAll _ 0xff ch

variable (fade) in
theorem animationWords_counterparts {steps : List BlockAnimStep}
    (h : ∀ step ∈ steps, StepOk step) :
    List.Forall₂ (Machine.Counterpart (aw9120 (rampOf fade)) (animation fade) panelOf waitLabel
      Cue.halfMs) (animationWords steps) (steps.filterMap BlockAnimStep.cue) := by
  induction steps with
  | nil => exact .nil
  | cons step steps ih =>
    obtain ⟨w, cue, hw, hcue, hcounterpart⟩ := (h step List.mem_cons_self).counterpart fade
    rw [animationWords_cons, hw, List.filterMap_cons_some hcue]
    exact .cons hcounterpart (ih fun step' hstep' => h step' (.tail step hstep'))

/-- The status words of the loop leave the five LEDs alone. -/
theorem statusTailWords_unseen (s : LightState) :
    ∀ w ∈ statusTailWords s, ∀ ch,
      panelOf ((aw9120 (rampOf fade)).effect w ch) = panelOf ch := by
  intro w hw ch
  funext lamp
  exact effect_frame (statusTailWords_writes (.inl lamp.channel_lt) s w hw) ch

/-- The times of their waits. -/
theorem statusTailWords_times (s : LightState) :
    (statusTailWords s).filterMap waitLabel = (stillTimes s).map (32 * ·) := by
  unfold statusTailWords stillTimes connected
  cases s.callEarpiece <;> cases s.connectivityCellular <;> cases s.connectivityWifi <;>
    cases s.connectivityBluetooth <;> decide

theorem frames_through (times : List ℕ) (p : Panel) :
    (animation fade).through (times.map .frame) p = p := by
  induction times with
  | nil => rfl
  | cons time times ih => exact ih

theorem frames_shown (times : List ℕ) (p : Panel) :
    (animation fade).shown Cue.halfMs (times.map .frame) p =
      times.map fun time => (32 * time, p) := by
  induction times with
  | nil => rfl
  | cons time times ih =>
    rw [List.map_cons, Machine.shown_cons, List.map_cons]
    exact congrArg _ ih

theorem loopStartPC_unseen (ramp : Instruction → Channels → ℕ) (s : LightState)
    (ch : Channels) : (aw9120 ramp).effect (loopStartPC s) ch = ch :=
  congrArg (·.drive ramp ch) (decode_loopStartPC s)

theorem waitLabel_loopStartPC (s : LightState) : waitLabel (loopStartPC s) = none := by
  rw [waitLabel, loopStartPC_waits]
  rfl

/-- A pass of the loop shows the animation once. -/
theorem body_shown {s : LightState} (h : ∀ step ∈ s.steps, StepOk step) (ch : Channels) :
    ((aw9120 (rampOf fade)).shown waitLabel (bodyWords s ++ [loopStartPC s]) ch).map
        (Prod.map id panelOf) =
      (animation fade).shown Cue.halfMs (cues s) (panelOf ch) := by
  have hsteps := Machine.shown_view (animationWords_counterparts fade h) ch
  have hpanel := Machine.through_view (animationWords_counterparts fade h) ch
  have hback (ch : Channels) :
      (aw9120 (rampOf fade)).shown waitLabel [loopStartPC s] ch = [] :=
    (aw9120 (rampOf fade)).shown_of_none (by simpa using waitLabel_loopStartPC s) ch
  rw [bodyWords, cues, Machine.shown_append, hback, List.append_nil, Machine.shown_append,
    Machine.shown_append, List.map_append, hsteps, ← hpanel]
  cases hasDelay s.steps with
  | true => rfl
  | false =>
    rw [cond_false, cond_false, Machine.shown_unseen (statusTailWords_unseen s),
      statusTailWords_times, frames_shown, List.map_map]
    rfl

variable (fade) in
theorem body_through {s : LightState} (h : ∀ step ∈ s.steps, StepOk step) (ch : Channels) :
    panelOf ((aw9120 (rampOf fade)).through (bodyWords s ++ [loopStartPC s]) ch) =
      (animation fade).through (cues s) (panelOf ch) := by
  have hpanel := Machine.through_view (animationWords_counterparts fade h) ch
  rw [bodyWords, cues, Machine.through_append, Machine.through_append, Machine.through_append,
    ← hpanel, Machine.through_cons, Machine.through_nil, loopStartPC_unseen]
  cases hasDelay s.steps with
  | true => rfl
  | false =>
    rw [cond_false, cond_false, frames_through]
    exact Machine.through_unseen (statusTailWords_unseen s) _

/-- The prelude leaves the five LEDs dark. -/
theorem panelOf_statusPWM (s : LightState) : panelOf (statusPWM s) = fun _ => 0 := by
  funext lamp
  have hlt := lamp.channel_lt
  unfold panelOf statusPWM
  rw [if_neg (by omega), if_neg (by omega), if_neg (by omega), if_neg (by omega),
    if_neg (by omega)]

/-- What pass `k` of the loaded program shows. -/
theorem passFrames_eq (fade : Fade → ℕ → ℕ → ℕ) (b : Board) {s : LightState}
    (h : ∀ step ∈ s.steps, StepOk step) (hfit : (program s).length ≤ 256) (k : ℕ) :
    passFrames (rampOf fade) (b.writes (updateWrites s)) s k =
      (animation fade).shown Cue.halfMs (cues s) (panelBefore fade s k) := by
  have hclosed := b.update_closed (rampOf fade) h hfit
  have hdark : panelOf ((aw9120 (rampOf fade)).through (preludeWords s) b.cpu.data) =
      fun _ => 0 := by
    rw [prelude_channels, panelOf_statusPWM]
  have hentry := Machine.passEntry_view hdark (body_through fade h) k
  have hshown := hclosed.pass_shown waitLabel b.cpu.data k
  unfold passFrames Board.visit passStart panelBefore
  rw [b.update_cpu, hshown, body_shown h, hentry]

/-- Pass by pass, the waits of the chip show the frames of the animation that the light state
stands for, begun on dark LEDs; before the first pass nothing waits. -/
theorem animation_plays_as_written (fade : Fade → ℕ → ℕ → ℕ) (b : Board) (s : LightState)
    (h : ∀ step ∈ s.steps, StepOk step) (hfit : (program s).length ≤ 256) :
    (∀ n < passStart s 0,
      waitLabel ((b.writes (update.run s).output).visit (rampOf fade) n).1 = none) ∧
      ∀ k, passFrames (rampOf fade) (b.writes (update.run s).output) s k =
        (animation fade).shown Cue.halfMs (cues s) (panelBefore fade s k) := by
  simp only [update_run]
  refine ⟨fun n hn => ?_, passFrames_eq fade b h hfit⟩
  have hclosed := b.update_closed (rampOf fade) h hfit
  have hlt : n < (preludeWords s).length := by simpa [passStart] using hn
  have hquiet := preludeWords_waits s _ (List.getElem_mem hlt)
  rw [Board.visit, Machine.visit, b.update_cpu, hclosed.word_at_prelude _ hlt, waitLabel, hquiet]
  rfl

/-- A fade of LED 2 between two delays: the first pass finds it dark, the second one lit. -/
theorem animation_plays_as_written_fade :
    (passFrames (rampOf fun _ _ _ => 255)
        (Board.blank.writes (update.run
          { LightState.new 0 with
            steps := [castStep 1 0 3 5, castStep 2 2 1 60, castStep 1 0 3 7] }).output)
        { LightState.new 0 with
          steps := [castStep 1 0 3 5, castStep 2 2 1 60, castStep 1 0 3 7] } 0).map
      (fun frame => (frame.1, frame.2 ⟨1, .blue⟩)) = [(160, 0), (224, 255)] := by
  have haccepted : ∀ step ∈ [castStep 1 0 3 5, castStep 2 2 1 60, castStep 1 0 3 7],
      StepOk step := by
    intro step hstep
    simp only [List.mem_cons, List.not_mem_nil, or_false] at hstep
    rcases hstep with rfl | rfl | rfl
    · exact .inl ⟨1, 0, 3, 5, by decide, by decide, by decide, rfl⟩
    · exact .inl ⟨2, 2, 1, 60, by decide, by decide, by decide, rfl⟩
    · exact .inl ⟨1, 0, 3, 7, by decide, by decide, by decide, rfl⟩
  rw [(animation_plays_as_written (fun _ _ _ => 255) .blank
    { LightState.new 0 with
      steps := [castStep 1 0 3 5, castStep 2 2 1 60, castStep 1 0 3 7] }
    haccepted (by decide)).2 0]
  rfl

section Overwritten

/-- An accepted step other than a delay is a cue for its lamp. -/
theorem Checked.cue_for {step : BlockAnimStep} (h : Checked step) (htype : step.type ≠ .delay) :
    ∃ cue, step.cue = some cue ∧ cue.For step.lamp := by
  unfold BlockAnimStep.cue
  rcases h.value with ⟨hdelay, -⟩ | ⟨hset | hin | hout, -⟩
  · exact absurd hdelay htype
  · rw [hset]
    exact ⟨_, rfl, by rw [if_neg fun hall => h.led_ne hall.1]; exact .set _⟩
  · rw [hin]
    exact ⟨_, rfl, .fade .into _⟩
  · rw [hout]
    exact ⟨_, rfl, .fade .out _⟩

theorem Checked.cue_set {step : BlockAnimStep} (h : Checked step) (htype : step.type = .setPWM) :
    step.cue = some (.set step.lamp step.value.toNat) := by
  unfold BlockAnimStep.cue
  rw [htype]
  exact congrArg some (if_neg fun hall => h.led_ne hall.1)

/-- A step that is no delay, and no fade of the lamp. -/
theorem quiet_cue {step : BlockAnimStep} {lamp : Lamp} {cue : Cue} (hdelay : step.type ≠ .delay)
    (hlamp : step.lamp = lamp → step.type = .setPWM) (hcue : step.cue = some cue) :
    cue.halfMs = none ∧ ¬ cue.fades lamp := by
  unfold BlockAnimStep.cue at hcue
  split at hcue
  next htype => exact absurd htype hdelay
  next htype =>
    obtain rfl := Option.some.inj hcue
    split_ifs
    · exact ⟨rfl, id⟩
    · exact ⟨rfl, id⟩
  next htype =>
    obtain rfl := Option.some.inj hcue
    exact ⟨rfl, fun heq => by rw [hlamp heq] at htype; cases htype⟩
  next htype =>
    obtain rfl := Option.some.inj hcue
    exact ⟨rfl, fun heq => by rw [hlamp heq] at htype; cases htype⟩
  next => cases hcue

theorem hasDelay_drop {step : BlockAnimStep} (h : step.type ≠ .delay)
    (before after : List BlockAnimStep) :
    hasDelay (before ++ step :: after) = hasDelay (before ++ after) := by
  unfold hasDelay
  simp [h]

variable {s : LightState} {before between after : List BlockAnimStep}
  {step later : BlockAnimStep}

/-- Leaving a step out makes the program shorter. -/
theorem program_drop_length (h : ∀ step' ∈ before ++ step :: after, StepOk step')
    (htype : step.type ≠ .delay) :
    (program { s with steps := before ++ after }).length ≤
      (program { s with steps := before ++ step :: after }).length := by
  have hrest : ∀ step' ∈ before ++ after, StepOk step' := by
    intro step' hmem
    rcases List.mem_append.mp hmem with hmem | hmem
    · exact h step' (List.mem_append_left _ hmem)
    · exact h step' (List.mem_append_right _ (.tail step hmem))
  have hdelay := hasDelay_drop htype before after
  have hlong := program_length (s := { s with steps := before ++ step :: after }) h
  have hshort := program_length (s := { s with steps := before ++ after }) hrest
  rw [hlong, hshort]
  unfold wordsBeforeBranch connected
  simp only [hdelay, List.length_append, List.length_cons]
  omega

/-- A step for a colour component that is set again in the same animation frame, with no fade
of it in between, has no part in what the chip shows: without it every pass shows the same. -/
theorem overwritten_step_unnoticed (fade : Fade → ℕ → ℕ → ℕ) (b b' : Board) (s : LightState)
    (before between after : List BlockAnimStep) (step later : BlockAnimStep)
    (h : ∀ step' ∈ before ++ step :: (between ++ later :: after), StepOk step')
    (hfit :
      (program { s with steps := before ++ step :: (between ++ later :: after) }).length ≤ 256)
    (hstep : Accepted step) (htype : step.type ≠ .delay)
    (hlater : Accepted later) (hset : later.type = .setPWM) (hlamp : later.lamp = step.lamp)
    (hbetween : ∀ step' ∈ between, step'.type ≠ .delay ∧
      (step'.lamp = step.lamp → step'.type = .setPWM)) (k : ℕ) :
    let s₁ := { s with steps := before ++ step :: (between ++ later :: after) }
    let s₂ := { s with steps := before ++ (between ++ later :: after) }
    passFrames (rampOf fade) (b.writes (update.run s₁).output) s₁ k =
      passFrames (rampOf fade) (b'.writes (update.run s₂).output) s₂ k := by
  intro s₁ s₂
  simp only [update_run]
  obtain ⟨cue, hcue, hfor⟩ := hstep.checked.cue_for htype
  have hlast := hlater.checked.cue_set hset
  rw [hlamp] at hlast
  have hquiet : ∀ cue' ∈ between.filterMap BlockAnimStep.cue,
      cue'.halfMs = none ∧ ¬ cue'.fades step.lamp := by
    intro cue' hmem
    obtain ⟨step', hstep', hcue'⟩ := List.mem_filterMap.mp hmem
    exact quiet_cue (hbetween step' hstep').1 (hbetween step' hstep').2 hcue'
  have hdelay : hasDelay s₁.steps = hasDelay s₂.steps := hasDelay_drop htype _ _
  have hstill : stillTimes s₁ = stillTimes s₂ := rfl
  have hcues₁ : cues s₁ = before.filterMap BlockAnimStep.cue ++
      cue :: (between.filterMap BlockAnimStep.cue ++ .set step.lamp later.value.toNat ::
        (after.filterMap BlockAnimStep.cue ++
          bif hasDelay s₁.steps then [] else (stillTimes s₁).map .frame)) := by
    simp only [cues, s₁, List.filterMap_append, List.filterMap_cons_some hcue,
      List.filterMap_cons_some hlast, List.append_assoc, List.cons_append]
  have hcues₂ : cues s₂ = before.filterMap BlockAnimStep.cue ++
      (between.filterMap BlockAnimStep.cue ++ .set step.lamp later.value.toNat ::
        (after.filterMap BlockAnimStep.cue ++
          bif hasDelay s₁.steps then [] else (stillTimes s₁).map .frame)) := by
    rw [hdelay, hstill]
    simp only [cues, s₂, List.filterMap_append, List.filterMap_cons_some hlast,
      List.append_assoc, List.cons_append]
  have hdrop (p : Panel) := animation_drop fade hfor hquiet later.value.toNat
    (before.filterMap BlockAnimStep.cue) (after.filterMap BlockAnimStep.cue ++
      bif hasDelay s₁.steps then [] else (stillTimes s₁).map .frame) p
  have hshown (p : Panel) : (animation fade).shown Cue.halfMs (cues s₁) p =
      (animation fade).shown Cue.halfMs (cues s₂) p := by
    rw [hcues₁, hcues₂]
    exact (hdrop p).1
  have hthrough : (animation fade).through (cues s₁) = (animation fade).through (cues s₂) := by
    funext p
    rw [hcues₁, hcues₂]
    exact (hdrop p).2
  have hok₂ : ∀ step' ∈ s₂.steps, StepOk step' := by
    intro step' hmem
    rcases List.mem_append.mp hmem with hmem | hmem
    · exact h step' (List.mem_append_left _ hmem)
    · exact h step' (List.mem_append_right _ (.tail step hmem))
  rw [passFrames_eq fade b h hfit, passFrames_eq fade b' hok₂
    ((program_drop_length h htype).trans hfit)]
  unfold panelBefore
  rw [hthrough, hshown]

/-- LED 3 is set twice in a frame, with a fade of another component in between. -/
theorem overwritten_step_unnoticed_twice :
    passFrames (rampOf fun _ time value => value + time)
        (Board.blank.writes (update.run
          { LightState.new 0 with
            steps := [] ++ castStep 3 0 0 9 :: ([castStep 3 1 1 60] ++ castStep 3 0 0 200 ::
              [castStep 1 0 3 20]) }).output)
        { LightState.new 0 with
          steps := [] ++ castStep 3 0 0 9 :: ([castStep 3 1 1 60] ++ castStep 3 0 0 200 ::
            [castStep 1 0 3 20]) } 4 =
      passFrames (rampOf fun _ time value => value + time)
        (Board.blank.writes (update.run
          { LightState.new 0 with
            steps :=
              [] ++ ([castStep 3 1 1 60] ++ castStep 3 0 0 200 :: [castStep 1 0 3 20]) }).output)
        { LightState.new 0 with
          steps := [] ++ ([castStep 3 1 1 60] ++ castStep 3 0 0 200 :: [castStep 1 0 3 20]) }
        4 := by
  have hfirst : Accepted (castStep 3 0 0 9) := ⟨3, 0, 0, 9, by decide, by decide, by decide, rfl⟩
  have hfade : Accepted (castStep 3 1 1 60) := ⟨3, 1, 1, 60, by decide, by decide, by decide, rfl⟩
  have hsecond : Accepted (castStep 3 0 0 200) :=
    ⟨3, 0, 0, 200, by decide, by decide, by decide, rfl⟩
  refine overwritten_step_unnoticed (fun _ time value => value + time) .blank .blank (.new 0) []
    [castStep 3 1 1 60] [castStep 1 0 3 20] (castStep 3 0 0 9) (castStep 3 0 0 200) ?_ (by decide)
    hfirst (by decide) hsecond (by decide) (by decide) ?_ 4
  · intro step hstep
    simp only [List.nil_append, List.cons_append, List.mem_cons, List.not_mem_nil, or_false]
      at hstep
    rcases hstep with rfl | rfl | rfl | rfl
    · exact .inl hfirst
    · exact .inl hfade
    · exact .inl hsecond
    · exact .inl delay_accepted
  · intro step hstep
    rw [List.mem_singleton.mp hstep]
    exact ⟨by decide, fun heq => absurd heq (by decide)⟩

end Overwritten

end GemianLeds
