import GemianLeds.AW9120.Words
import GemianLeds.AW9120.Loading

/-! The closing branch of the loaded program, and how it gets lost: every word of a program
goes through the test of `programCounter`, the branch comes last, and nothing bounds the
number of steps. -/
namespace GemianLeds
open Sequencer

/-- The words a list of writes stores in the SRAM, in order. -/
def wdata : List Write → List UInt32
  | [] => []
  | .reg addr data :: ws => if addr = WDATA then data :: wdata ws else wdata ws
  | .classLED _ _ :: ws => wdata ws

theorem wdata_append (ws ws' : List Write) : wdata (ws ++ ws') = wdata ws ++ wdata ws' := by
  induction ws with
  | nil => rfl
  | cons w ws ih =>
    cases w with
    | reg addr data =>
      simp only [List.cons_append, wdata, ih]
      split <;> rfl
    | classLED led on => exact ih

theorem wdata_render (pc : UInt32) (es : List Emission) :
    wdata (render pc es) = stored pc (words es) := by
  induction es generalizing pc with
  | nil => rfl
  | cons e es ih =>
    cases e with
    | word w =>
      rw [render, wdata_append, ih, words, stored]
      split <;> simp [wdata]
    | classLED led on => exact ih pc

theorem wdata_update (s : LightState) : wdata (updateWrites s) = stored 0 (program s) := by
  have hsetup : wdata (setupWrites s) = [] := rfl
  have hrun : wdata runWrites = [] := rfl
  rw [updateWrites, wdata_append, wdata_append, wdata_render, words_programEmission, hsetup, hrun,
    List.nil_append, List.append_nil]

/-- The words that a load from address 0 leaves in the 256-word SRAM. -/
def storedWords (ws : List Write) : List UInt32 := (wdata ws).take 256

theorem storedWords_update (s : LightState) :
    storedWords (updateWrites s) = (program s).take 256 := by
  rw [storedWords, wdata_update, take_stored]

/-- What `update` loads keeps the chip within its words: started at address 0 it never advances
past the last word stored, which is the branch back to the loop. -/
structure ClosedLoop (ramp : Instruction → Channels → ℕ) (b : Board) (s : LightState) : Prop where
  stays : ∀ n, ((aw9120 ramp).after (b.writes (update.run s).output).sram n
    (b.writes (update.run s).output).cpu).pc < (storedWords (update.run s).output).length
  last : (storedWords (update.run s).output).getLast? = some (loopStartPC s)

/-- How many words come before the closing branch. -/
def wordsBeforeBranch (s : LightState) : ℕ :=
  2 + (if s.callEarpiece then 2 else connected s) + s.capsLock.toNat +
    (if s.powerState = 0 then 0 else 1) + s.steps.length +
    (if hasDelay s.steps then 0
      else if s.callEarpiece then 1
      else 3 + 3 * connected s + if connected s = 0 then 1 else 0)

theorem length_bif {α : Type} (b : Bool) (xs ys : List α) :
    (bif b then xs else ys).length = bif b then xs.length else ys.length := by
  cases b <;> rfl

theorem preludeWords_length (s : LightState) : (preludeWords s).length =
    2 + (if s.callEarpiece then 2 else connected s) + s.capsLock.toNat +
      (if s.powerState = 0 then 0 else 1) := by
  rw [preludeWords_eq, connected]
  simp only [List.length_append, length_bif, List.length_cons, List.length_nil]
  have hp : (bif decide (s.powerState ≠ 0) then 0 + 1 else 0) =
      if s.powerState = 0 then 0 else 1 := by
    by_cases h : s.powerState = 0 <;> simp [h]
  rw [hp]
  cases s.callEarpiece <;> cases s.callLeftUp <;> cases s.connectivityCellular <;>
    cases s.connectivityWifi <;> cases s.connectivityBluetooth <;> cases s.capsLock <;>
    simp <;> omega

theorem statusTailWords_length (s : LightState) : (statusTailWords s).length =
    if s.callEarpiece then 1 else 3 + 3 * connected s + if connected s = 0 then 1 else 0 := by
  unfold statusTailWords connected
  cases s.callEarpiece <;> cases s.connectivityCellular <;> cases s.connectivityWifi <;>
    cases s.connectivityBluetooth <;> rfl

theorem before_branch_length {s : LightState} (h : ∀ step ∈ s.steps, StepOk step) :
    (preludeWords s ++ bodyWords s).length = wordsBeforeBranch s := by
  rw [bodyWords, List.length_append, List.length_append, length_bif, preludeWords_length,
    animationWords_length h, statusTailWords_length, wordsBeforeBranch]
  cases hasDelay s.steps with
  | true => simp
  | false =>
    simp
    omega

theorem program_length {s : LightState} (h : ∀ step ∈ s.steps, StepOk step) :
    (program s).length = wordsBeforeBranch s + 1 := by
  rw [← before_branch_length h, program]
  simp [Nat.add_assoc]

/-- A program that fits in the SRAM is closed on the chip, with nothing dropped. -/
theorem Board.update_closed (ramp : Instruction → Channels → ℕ) (b : Board) {s : LightState}
    (h : ∀ step ∈ s.steps, StepOk step) (hfit : (program s).length ≤ 256) :
    (aw9120 ramp).Closed (b.writes (updateWrites s)).sram (preludeWords s) (bodyWords s)
      (loopStartPC s) where
  loaded := by
    have hmem := b.update_loaded s
    rwa [HoldsProgram, List.take_of_length_le hfit] at hmem
  straight_pre := preludeWords_straight s
  straight_body := bodyWords_straight h
  branch_back := by simp [aw9120, decode_loopStartPC, Instruction.target]

/-- Where the branch does not fit, every word stored falls through. -/
theorem stored_straight (ramp : Instruction → Channels → ℕ) {s : LightState}
    (h : ∀ step ∈ s.steps, StepOk step) (hlong : 256 ≤ wordsBeforeBranch s) :
    ∀ w ∈ (program s).take 256, (aw9120 ramp).branch w = none := by
  rw [← before_branch_length h] at hlong
  intro w hw
  rw [program, ← List.append_assoc, List.take_append_of_le_length hlong] at hw
  rcases List.mem_append.mp (List.mem_of_mem_take hw) with hpre | hbody
  · exact preludeWords_straight s w hpre
  · exact bodyWords_straight h w hbody

/-- The exact condition: the branch is among the first 256 words. -/
theorem closedLoop_iff (ramp : Instruction → Channels → ℕ) (b : Board) {s : LightState}
    (h : ∀ step ∈ s.steps, StepOk step) :
    ClosedLoop ramp b s ↔ wordsBeforeBranch s < 256 := by
  have hlength := program_length h
  constructor
  · intro hclosed
    by_contra hlost
    -- past straight words only, the chip advances behind the last one stored
    have hstraight := stored_straight ramp h (Nat.le_of_not_lt hlost)
    have hoff := Machine.after_straight (b.update_loaded s) hstraight b.cpu.data
    have hin := hclosed.stays ((program s).take 256).length
    simp only [update_run] at hin
    rw [b.update_cpu s, hoff, storedWords_update] at hin
    simp at hin
  · intro hkept
    have hfit : (program s).length ≤ 256 := by omega
    have hclosed := b.update_closed ramp h hfit
    constructor
    · intro n
      simp only [update_run]
      rw [b.update_cpu s, storedWords_update, List.take_of_length_le hfit]
      exact hclosed.pc_lt b.cpu.data n
    · simp only [update_run]
      rw [storedWords_update, List.take_of_length_le hfit, program, ← List.append_assoc]
      simp

/-- In every run of the daemon's operations, `update` loads a closed program exactly when fewer
than 256 words come before the closing branch. -/
theorem loaded_program_closed_iff (ramp : Instruction → Channels → ℕ) (b : Board) (pc : UInt32)
    (ops : List Op) (hops : ∀ op ∈ ops, op.Accepted) :
    ClosedLoop ramp b (runOps (.new pc) ops) ↔ wordsBeforeBranch (runOps (.new pc) ops) < 256 :=
  closedLoop_iff ramp b (stepOk_runOps hops pc)

theorem stageOps_accepted {steps : List BlockAnimStep} (h : ∀ step ∈ steps, Accepted step) :
    ∀ op ∈ stageOps steps, op.Accepted := by
  intro op hop
  obtain ⟨step, hs, rfl⟩ := List.mem_map.mp hop
  exact h step hs

theorem delay_accepted : Accepted (castStep 1 0 3 20) :=
  ⟨1, 0, 3, 20, by decide, by decide, by decide, rfl⟩

theorem loaded_program_closed_iff_delay :
    ClosedLoop (fun _ _ => 0) .blank (runOps (.new 0) (stageOps [castStep 1 0 3 20])) :=
  (loaded_program_closed_iff (fun _ _ => 0) .blank 0 (stageOps [castStep 1 0 3 20])
    (stageOps_accepted (by simpa using delay_accepted))).mpr (by decide)

theorem wordsBeforeBranch_delays (pc : UInt32) (n : ℕ) :
    wordsBeforeBranch (runOps (.new pc) (stageOps (.replicate (n + 1) (castStep 1 0 3 20)))) =
      n + 3 := by
  rw [runOps_stage]
  simp [wordsBeforeBranch, hasDelay, connected, LightState.new, castStep,
    BlockStepType.ofUInt32]
  omega

/-- 254 accepted delays fill the SRAM, and the branch behind them is dropped. -/
theorem long_program_not_closed :
    ¬ ∀ (ramp : Instruction → Channels → ℕ) (b : Board) (pc : UInt32) (ops : List Op),
      (∀ op ∈ ops, op.Accepted) → ClosedLoop ramp b (runOps (.new pc) ops) := by
  intro hall
  have hsteps : ∀ step ∈ List.replicate (253 + 1) (castStep 1 0 3 20), Accepted step := by
    intro step hstep
    rw [List.eq_of_mem_replicate hstep]
    exact delay_accepted
  have hclosed := hall (fun _ _ => 0) .blank 0 _ (stageOps_accepted hsteps)
  rw [closedLoop_iff _ _ (stepOk_runOps (stageOps_accepted hsteps) 0),
    wordsBeforeBranch_delays] at hclosed
  omega

end GemianLeds
