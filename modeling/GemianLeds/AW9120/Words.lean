import GemianLeds.DBus.LEDs
import GemianLeds.AW9120.Board

/-! The instructions behind the words of a program: one for each step, on the channels of the
five LEDs or on all channels, and none of them a branch before the closing one. -/
namespace GemianLeds

/-- The channel a step drives. -/
def stepChannel (step : BlockAnimStep) : ℕ := (awLEDCodeForStep step).toUInt32.toNat / 256

def stepInstruction (step : BlockAnimStep) : Instruction :=
  match step.type with
  | .delay => .wait true step.value.toNat
  | .setPWM => .setPWM (stepChannel step) step.value.toNat
  | .fadeIn => .rampIn (stepChannel step) step.value.toNat
  | .fadeOut => .rampOut (stepChannel step) step.value.toNat
  | _ => .other

/-- The channel of the red component of each LED; LED 2 comes after LED 5. -/
def ledChannel (led : Int32) : ℕ :=
  if led = 1 then 0 else if led = 2 then 12 else if led = 3 then 3
  else if led = 4 then 6 else 9

def colourOffset : BlockColour → ℕ
  | .blue => 2
  | .green => 1
  | _ => 0

theorem Checked.code {step : BlockAnimStep} (h : Checked step) :
    (awLEDCodeForStep step).toUInt32.toNat =
      256 * (ledChannel step.led + colourOffset step.colour) := by
  obtain ⟨led, colour, type, value⟩ := step
  obtain ⟨hled, -⟩ := h
  simp only at hled
  rcases hled with rfl | rfl | rfl | rfl | rfl <;> cases colour <;>
    simp [awLEDCodeForStep, ledChannel, colourOffset] <;> decide

theorem ledChannel_lt (led : Int32) (colour : BlockColour) :
    ledChannel led + colourOffset colour < 15 := by
  have hl : ledChannel led ≤ 12 := by
    unfold ledChannel
    split_ifs <;> omega
  have hc : colourOffset colour ≤ 2 := by cases colour <;> simp [colourOffset]
  omega

theorem Checked.channel {step : BlockAnimStep} (h : Checked step) :
    stepChannel step = ledChannel step.led + colourOffset step.colour := by
  rw [stepChannel, h.code]
  omega

theorem toNat_sum {a b c : UInt32} {x y z : ℕ} (ha : a.toNat = x) (hb : b.toNat = y)
    (hc : c.toNat = z) (h : x + y + z < 2 ^ 32) : (a + b + c).toNat = x + y + z := by
  rw [UInt32.toNat_add, UInt32.toNat_add, ha, hb, hc, Nat.mod_eq_of_lt (by omega : x + y < 2 ^ 32),
    Nat.mod_eq_of_lt h]

/-- A step of the daemon has exactly one word, of 16 bits, and it stands for the step. -/
theorem StepOk.word {step : BlockAnimStep} (h : StepOk step) :
    ∃ w, stepWords step = [w] ∧ decode w = stepInstruction step ∧ w.toNat < 2 ^ 16 := by
  rcases h with h | rfl
  · have hc := h.checked
    have hcode := hc.code
    have hlt := ledChannel_lt step.led step.colour
    rcases hc.value with ⟨ht, hv⟩ | ⟨ht | ht | ht, hv⟩
    · have hw : (WAITI + WAIT_PRE_16MS + step.value).toNat = 0x3800 + 0x400 + step.value.toNat :=
        toNat_sum rfl rfl rfl (by omega)
      refine ⟨WAITI + WAIT_PRE_16MS + step.value, by simp only [stepWords, ht], ?_, by omega⟩
      rw [decode_wait hv (by omega), stepInstruction, ht]
    · have hw := toNat_sum (show SETPWMI.toNat = 0xA000 from rfl) hcode (rfl : step.value.toNat = _)
        (by omega)
      refine ⟨SETPWMI + (awLEDCodeForStep step).toUInt32 + step.value, by simp only [stepWords, ht],
        ?_, by omega⟩
      rw [decode_setPWM (by omega) hv hw, stepInstruction, ht, hc.channel]
    · have hw := toNat_sum (show RAMPI_IN.toNat = 0xE000 from rfl) hcode
        (rfl : step.value.toNat = _) (by omega)
      refine ⟨RAMPI_IN + (awLEDCodeForStep step).toUInt32 + step.value,
        by simp only [stepWords, ht], ?_, by omega⟩
      rw [decode_rampIn (by omega) hv hw, stepInstruction, ht, hc.channel]
    · have hw := toNat_sum (show RAMPI_OUT.toNat = 0xC000 from rfl) hcode
        (rfl : step.value.toNat = _) (by omega)
      refine ⟨RAMPI_OUT + (awLEDCodeForStep step).toUInt32 + step.value,
        by simp only [stepWords, ht], ?_, by omega⟩
      rw [decode_rampOut (by omega) hv hw, stepInstruction, ht, hc.channel]
  · exact ⟨0xbfff, by decide, by decide, by decide⟩

theorem animationWords_cons (step : BlockAnimStep) (steps : List BlockAnimStep) :
    animationWords (step :: steps) = stepWords step ++ animationWords steps := rfl

/-- The words of the daemon's steps are those of their instructions, one for each step. -/
theorem animationWords_decode {steps : List BlockAnimStep} (h : ∀ step ∈ steps, StepOk step) :
    (animationWords steps).map decode = steps.map stepInstruction := by
  induction steps with
  | nil => rfl
  | cons step steps ih =>
    obtain ⟨w, hw, hd, -⟩ := (h step (by simp)).word
    rw [animationWords_cons, hw, List.map_append, ih fun x hx => h x (by simp [hx])]
    simp [hd]

theorem animationWords_length {steps : List BlockAnimStep} (h : ∀ step ∈ steps, StepOk step) :
    (animationWords steps).length = steps.length := by
  simpa using congrArg List.length (animationWords_decode h)

theorem stepInstruction_target (step : BlockAnimStep) : (stepInstruction step).target = none := by
  unfold stepInstruction
  split <;> rfl

/-- What holds of the instruction of every step holds of every word of an animation. -/
theorem forall_animationWords {P : Instruction → Prop} {steps : List BlockAnimStep}
    (h : ∀ step ∈ steps, StepOk step) (hP : ∀ step ∈ steps, P (stepInstruction step)) :
    ∀ w ∈ animationWords steps, P (decode w) := by
  intro w hw
  have hmem : decode w ∈ steps.map stepInstruction := by
    rw [← animationWords_decode h]
    exact List.mem_map_of_mem hw
  obtain ⟨step, hstep, hs⟩ := List.mem_map.mp hmem
  rw [← hs]
  exact hP step hstep

theorem animationWords_straight {steps : List BlockAnimStep} (h : ∀ step ∈ steps, StepOk step) :
    ∀ w ∈ animationWords steps, (decode w).target = none :=
  forall_animationWords (P := fun i => i.target = none) h
    fun step _ => stepInstruction_target step

theorem forall_mem_bif {α : Type} {P : α → Prop} {b : Bool} {xs ys : List α}
    (hx : ∀ x ∈ xs, P x) (hy : ∀ y ∈ ys, P y) : ∀ z ∈ (bif b then xs else ys), P z := by
  cases b
  · exact hy
  · exact hx

/-- A property of finitely many words, checked word by word. -/
theorem forall_mem_of_all {α : Type} {P : α → Prop} [DecidablePred P] {xs : List α}
    (h : (xs.all fun x => decide (P x)) = true) : ∀ x ∈ xs, P x := by
  intro x hx
  exact of_decide_eq_true (List.all_eq_true.mp h x hx)

theorem words_bif (b : Bool) (es es' : List Emission) :
    words (bif b then es else es') = bif b then words es else words es' := by
  cases b <;> rfl

/-- The words before the loop, branch by branch. -/
theorem preludeWords_eq (s : LightState) : preludeWords s =
    [SET_STEP_TMRI + CH_ALL_LEDS + SET_STEP_PRE_05MS + 0x3, SETPWMI + CH_ALL_LEDS + 0x00] ++
    ((bif s.callEarpiece then
      bif s.callLeftUp then [SETPWMI + CH_6_RED + 0xa0, SETPWMI + CH_6_GREEN + 0x00]
      else [SETPWMI + CH_6_RED + 0x00, SETPWMI + CH_6_GREEN + 0x50]
    else
      (bif s.connectivityCellular then [SETPWMI + CH_6_RED + 0xa0] else []) ++
      ((bif s.connectivityWifi then [SETPWMI + CH_6_GREEN + 0x50] else []) ++
      (bif s.connectivityBluetooth then
        bif s.connectivityWifi then [SETPWMI + CH_6_BLUE + 0xc0] else [SETPWMI + CH_6_BLUE + 0xff]
      else []))) ++
    ((bif s.capsLock then [SETPWMI + CH_7_RED + 0xa0] else []) ++
    (bif decide (s.powerState ≠ 0) then [SETPWMI + CH_7_BLUE + 0xff] else []))) := by
  simp only [preludeWords, preludeEmission, statusEmission, words, words_append, words_bif,
    List.append_assoc, List.cons_append, List.nil_append]

/-- The words the prelude is made of. -/
def preludeVocabulary : List UInt32 :=
  [SET_STEP_TMRI + CH_ALL_LEDS + SET_STEP_PRE_05MS + 0x3, SETPWMI + CH_ALL_LEDS + 0x00,
    SETPWMI + CH_6_RED + 0xa0, SETPWMI + CH_6_RED + 0x00, SETPWMI + CH_6_GREEN + 0x50,
    SETPWMI + CH_6_GREEN + 0x00, SETPWMI + CH_6_BLUE + 0xc0, SETPWMI + CH_6_BLUE + 0xff,
    SETPWMI + CH_7_RED + 0xa0, SETPWMI + CH_7_BLUE + 0xff]

/-- The words the status LEDs are shown with inside the loop. -/
def statusTailVocabulary : List UInt32 :=
  [SETPWMI + CH_6_RED + 0xa0, SETPWMI + CH_6_RED + 0x00, SETPWMI + CH_6_GREEN + 0x50,
    SETPWMI + CH_6_GREEN + 0x00, SETPWMI + CH_6_BLUE + 0xff, SETPWMI + CH_6_BLUE + 0x00,
    WAITI + WAIT_PRE_16MS + 0x80, WAITI + WAIT_PRE_16MS + MAX_WAIT]

theorem preludeWords_mem (s : LightState) : ∀ w ∈ preludeWords s, w ∈ preludeVocabulary := by
  have hone {w : UInt32} (h : w ∈ preludeVocabulary) : ∀ x ∈ [w], x ∈ preludeVocabulary := by
    simpa using h
  have htwo {w w' : UInt32} (h : w ∈ preludeVocabulary) (h' : w' ∈ preludeVocabulary) :
      ∀ x ∈ [w, w'], x ∈ preludeVocabulary := by
    simpa using ⟨h, h'⟩
  have hnone : ∀ x ∈ ([] : List UInt32), x ∈ preludeVocabulary := by simp
  rw [preludeWords_eq]
  simp only [List.forall_mem_append]
  refine ⟨htwo (by decide) (by decide), forall_mem_bif
    (forall_mem_bif (htwo (by decide) (by decide)) (htwo (by decide) (by decide))) ?_,
    forall_mem_bif (hone (by decide)) hnone, forall_mem_bif (hone (by decide)) hnone⟩
  simp only [List.forall_mem_append]
  exact ⟨forall_mem_bif (hone (by decide)) hnone, forall_mem_bif (hone (by decide)) hnone,
    forall_mem_bif (forall_mem_bif (hone (by decide)) (hone (by decide))) hnone⟩

theorem statusTailWords_mem (s : LightState) :
    ∀ w ∈ statusTailWords s, w ∈ statusTailVocabulary := by
  have hone {w : UInt32} (h : w ∈ statusTailVocabulary) :
      ∀ x ∈ [w], x ∈ statusTailVocabulary := by
    simpa using h
  have hthree {w w' w'' : UInt32} (h : w ∈ statusTailVocabulary) (h' : w' ∈ statusTailVocabulary)
      (h'' : w'' ∈ statusTailVocabulary) : ∀ x ∈ [w, w', w''], x ∈ statusTailVocabulary := by
    simpa using ⟨h, h', h''⟩
  have hnone : ∀ x ∈ ([] : List UInt32), x ∈ statusTailVocabulary := by simp
  unfold statusTailWords
  refine forall_mem_bif (hone (by decide)) ?_
  simp only [List.forall_mem_append]
  exact ⟨⟨⟨⟨hthree (by decide) (by decide) (by decide),
    forall_mem_bif (hthree (by decide) (by decide) (by decide)) hnone⟩,
    forall_mem_bif (hthree (by decide) (by decide) (by decide)) hnone⟩,
    forall_mem_bif (hthree (by decide) (by decide) (by decide)) hnone⟩,
    forall_mem_bif (hone (by decide)) hnone⟩

theorem preludeWords_straight (s : LightState) :
    ∀ w ∈ preludeWords s, (decode w).target = none := by
  have hall : ∀ w ∈ preludeVocabulary, (decode w).target = none :=
    forall_mem_of_all (by decide)
  exact fun w hw => hall w (preludeWords_mem s w hw)

theorem statusTailWords_straight (s : LightState) :
    ∀ w ∈ statusTailWords s, (decode w).target = none := by
  have hall : ∀ w ∈ statusTailVocabulary, (decode w).target = none :=
    forall_mem_of_all (by decide)
  exact fun w hw => hall w (statusTailWords_mem s w hw)

theorem bodyWords_straight {s : LightState} (h : ∀ step ∈ s.steps, StepOk step) :
    ∀ w ∈ bodyWords s, (decode w).target = none := by
  unfold bodyWords
  rw [List.forall_mem_append]
  exact ⟨animationWords_straight h, forall_mem_bif (by simp) (statusTailWords_straight s)⟩

/-- At most seven words come before the loop. -/
theorem preludeWords_length_le (s : LightState) : (preludeWords s).length ≤ 7 := by
  rw [preludeWords_eq]
  cases s.callEarpiece <;> cases s.callLeftUp <;> cases s.connectivityCellular <;>
    cases s.connectivityWifi <;> cases s.connectivityBluetooth <;> cases s.capsLock <;>
    cases decide (s.powerState ≠ 0) <;> decide

theorem loopStartPC_toNat (s : LightState) : (loopStartPC s).toNat = (preludeWords s).length := by
  have := preludeWords_length_le s
  rw [loopStartPC, UInt32.toNat_ofNat']
  exact Nat.mod_eq_of_lt (by omega)

/-- The closing word branches to the beginning of the loop. -/
theorem decode_loopStartPC (s : LightState) :
    decode (loopStartPC s) = .branch (preludeWords s).length :=
  decode_branch (by have := preludeWords_length_le s; omega) (loopStartPC_toNat s)

end GemianLeds
