import GemianLeds.Program.StatusLEDs

/-! How long a pass of the program loop waits: as long as the delays of the animation say, and
without a delay as long as the call or the connected technologies are shown. -/
namespace GemianLeds
open Sequencer

/-- The time of a wait in half milliseconds, the shorter of its two units. -/
def Instruction.halfMs : Instruction → ℕ
  | .wait prescale16ms time => if prescale16ms then 32 * time else time
  | _ => 0

def waitHalfMs (w : UInt32) : ℕ := (decode w).halfMs

def totalHalfMs (ws : List UInt32) : ℕ := (ws.map waitHalfMs).sum

theorem totalHalfMs_append (ws ws' : List UInt32) :
    totalHalfMs (ws ++ ws') = totalHalfMs ws + totalHalfMs ws' := by
  unfold totalHalfMs
  rw [List.map_append, List.sum_append]

theorem totalHalfMs_bif (c : Bool) (ws ws' : List UInt32) :
    totalHalfMs (bif c then ws else ws') = bif c then totalHalfMs ws else totalHalfMs ws' := by
  cases c <;> rfl

/-- The delays of an animation, in units of 16 ms. -/
def delayTime (steps : List BlockAnimStep) : ℕ :=
  ((steps.filter fun step => step.type = .delay).map fun step => step.value.toNat).sum

/-- What one pass of the loop is meant to wait, in units of 16 ms. -/
def intendedWait (s : LightState) : ℕ :=
  if hasDelay s.steps then delayTime s.steps
  else if s.callEarpiece then 1023
  else if connected s = 0 then 1023
  else 128 * connected s

theorem stepInstruction_halfMs (step : BlockAnimStep) :
    (stepInstruction step).halfMs = 32 * delayTime [step] := by
  cases ht : step.type <;> simp [stepInstruction, ht, Instruction.halfMs, delayTime]

theorem delayTime_cons (step : BlockAnimStep) (steps : List BlockAnimStep) :
    delayTime (step :: steps) = delayTime [step] + delayTime steps := by
  unfold delayTime
  rw [← List.sum_append, ← List.map_append, ← List.filter_append]
  rfl

theorem animationWords_halfMs {steps : List BlockAnimStep} (h : ∀ step ∈ steps, StepOk step) :
    totalHalfMs (animationWords steps) = 32 * delayTime steps := by
  have hdecode : totalHalfMs (animationWords steps) =
      ((steps.map stepInstruction).map Instruction.halfMs).sum := by
    rw [← animationWords_decode h, List.map_map]
    rfl
  rw [hdecode]
  clear hdecode h
  induction steps with
  | nil => rfl
  | cons step steps ih =>
    rw [List.map_cons, List.map_cons, List.sum_cons, ih, stepInstruction_halfMs,
      delayTime_cons step steps, Nat.mul_add]

/-- The words that show the status LEDs wait once in a call, and once for each connected
technology outside it. -/
theorem statusTailWords_halfMs (s : LightState) : totalHalfMs (statusTailWords s) =
    32 * if s.callEarpiece then 1023 else if connected s = 0 then 1023 else 128 * connected s := by
  unfold statusTailWords connected
  cases s.callEarpiece <;> cases s.connectivityCellular <;> cases s.connectivityWifi <;>
    cases s.connectivityBluetooth <;> decide

theorem bodyWords_halfMs {s : LightState} (h : ∀ step ∈ s.steps, StepOk step) :
    totalHalfMs (bodyWords s) = 32 * intendedWait s := by
  unfold bodyWords intendedWait
  rw [totalHalfMs_append, animationWords_halfMs h, totalHalfMs_bif]
  cases hdelay : hasDelay s.steps with
  | true => rfl
  | false =>
    -- without a delay the animation itself does not wait
    have hnone : s.steps.filter (fun step => step.type = .delay) = [] := by
      rw [List.filter_eq_nil_iff]
      intro step hstep
      unfold hasDelay at hdelay
      exact List.any_eq_false.mp hdelay step hstep
    have hzero : delayTime s.steps = 0 := by
      unfold delayTime
      rw [hnone]
      rfl
    rw [hzero, cond_false, statusTailWords_halfMs]
    simp

/-- The waiting of pass `k` of the loop. -/
def passHalfMs (ramp : Instruction → Channels → ℕ) (b : Board) (s : LightState) (k : ℕ) : ℕ :=
  totalHalfMs ((List.range ((bodyWords s).length + 1)).map fun j =>
    (b.visit ramp (passStart s k + j)).1)

/-- The words of a pass are those of the body and the closing branch. -/
theorem passWords_eq (ramp : Instruction → Channels → ℕ) (b : Board) {s : LightState}
    (h : ∀ step ∈ s.steps, StepOk step) (hfit : (program s).length ≤ 256) (k : ℕ) :
    ((List.range ((bodyWords s).length + 1)).map fun j =>
      ((b.writes (updateWrites s)).visit ramp (passStart s k + j)).1) =
        bodyWords s ++ [loopStartPC s] := by
  have hclosed := b.update_closed ramp h hfit
  have hvisits := congrArg (List.map Prod.fst) (hclosed.pass_visits b.cpu.data k)
  rw [Machine.scan_words, List.map_map] at hvisits
  rw [← hvisits]
  simp only [Board.visit, b.update_cpu, passStart]
  rfl

/-- A pass begins at `loopStartPC`, ends with the branch back to it, and waits as long as
intended; one that does not wait at all has delays, and all of them are 0. -/
theorem pass_waits_intended (ramp : Instruction → Channels → ℕ) (b : Board) (s : LightState)
    (h : ∀ step ∈ s.steps, StepOk step) (hfit : (program s).length ≤ 256) (k : ℕ) :
    ((aw9120 ramp).after (b.writes (update.run s).output).sram (passStart s k)
        (b.writes (update.run s).output).cpu).pc = (loopStartPC s).toNat ∧
      ((b.writes (update.run s).output).visit ramp (passStart s k + (bodyWords s).length)).1 =
        loopStartPC s ∧
      passHalfMs ramp (b.writes (update.run s).output) s k = 32 * intendedWait s ∧
      (passHalfMs ramp (b.writes (update.run s).output) s k = 0 →
        hasDelay s.steps ∧ ∀ step ∈ s.steps, step.type = .delay → step.value = 0) := by
  simp only [update_run]
  have hwords := passWords_eq ramp b h hfit k
  have hback : totalHalfMs [loopStartPC s] = 0 := by
    unfold totalHalfMs waitHalfMs
    rw [List.map_singleton, decode_loopStartPC]
    rfl
  have htotal : passHalfMs ramp (b.writes (updateWrites s)) s k = 32 * intendedWait s := by
    unfold passHalfMs
    rw [hwords, totalHalfMs_append, bodyWords_halfMs h, hback, Nat.add_zero]
  refine ⟨?_, ?_, htotal, ?_⟩
  · rw [b.update_cpu, passStart, (b.update_closed ramp h hfit).passes, loopStartPC_toNat]
  · have hlast := congrArg (fun ws => ws[(bodyWords s).length]?) hwords
    simpa using hlast
  · intro hzero
    rw [htotal] at hzero
    have hintended : intendedWait s = 0 := by omega
    unfold intendedWait at hintended
    cases hdelay : hasDelay s.steps with
    | false =>
      simp only [hdelay, Bool.false_eq_true, if_false] at hintended
      exfalso
      split_ifs at hintended with hcall hnone
      omega
    | true =>
      rw [if_pos hdelay] at hintended
      refine ⟨rfl, ?_⟩
      intro step hstep htype
      unfold delayTime at hintended
      rw [List.sum_eq_zero_iff_forall_eq_nat] at hintended
      have hvalue := hintended step.value.toNat
        (List.mem_map_of_mem (List.mem_filter.mpr ⟨hstep, by simpa using htype⟩))
      exact uint32_eq_of_toNat hvalue

/-- Two delays around a step of another type: 27 units of 16 ms. -/
theorem pass_waits_intended_delays :
    passHalfMs (fun _ _ => 7)
      (Board.blank.writes (update.run
        { LightState.new 0 with
          callEarpiece := true
          steps := [castStep 1 0 3 20, castStep 2 1 0 200, castStep 1 0 3 7] }).output)
      { LightState.new 0 with
        callEarpiece := true
        steps := [castStep 1 0 3 20, castStep 2 1 0 200, castStep 1 0 3 7] } 3 = 32 * 27 := by
  have haccepted : ∀ step ∈ [castStep 1 0 3 20, castStep 2 1 0 200, castStep 1 0 3 7],
      StepOk step := by
    intro step hstep
    simp only [List.mem_cons, List.not_mem_nil, or_false] at hstep
    rcases hstep with rfl | rfl | rfl
    · exact .inl ⟨1, 0, 3, 20, by decide, by decide, by decide, rfl⟩
    · exact .inl ⟨2, 1, 0, 200, by decide, by decide, by decide, rfl⟩
    · exact .inl ⟨1, 0, 3, 7, by decide, by decide, by decide, rfl⟩
  exact (pass_waits_intended (fun _ _ => 7) .blank
    { LightState.new 0 with
      callEarpiece := true
      steps := [castStep 1 0 3 20, castStep 2 1 0 200, castStep 1 0 3 7] }
    haccepted (by decide) 3).2.2.1

end GemianLeds
