import GemianLeds.AW9120.Board
import GemianLeds.LightState.Operations

/-! What the writes of `update` leave on the board, whatever was there before: its registers,
the words in the SRAM, the sequencer at address 0 and the class LEDs. -/
namespace GemianLeds
open Sequencer

/-- The datum a write leaves in a register. The ports `WDATA` and `WADDR` keep none. -/
def Write.dataFor (addr : UInt32) : Write → Option UInt32
  | .reg a data => if a = addr ∧ a ≠ WDATA ∧ a ≠ WADDR then some data else none
  | .classLED _ _ => none

/-- The datum a list of writes leaves in a register. -/
def lastData (addr : UInt32) : List Write → Option UInt32
  | [] => none
  | w :: ws => (lastData addr ws).or (w.dataFor addr)

theorem lastData_append (addr : UInt32) (ws ws' : List Write) :
    lastData addr (ws ++ ws') = (lastData addr ws').or (lastData addr ws) := by
  induction ws with
  | nil => simp [lastData]
  | cons w ws ih => simp only [List.cons_append, lastData, ih, Option.or_assoc]

theorem Board.write_reg (b : Board) (w : Write) (addr : UInt32) :
    (b.write w).reg addr = (w.dataFor addr).getD (b.reg addr) := by
  cases w with
  | classLED led on => rfl
  | reg a data =>
    by_cases hd : a = WDATA
    · simp only [Board.write, Write.dataFor, hd, if_true, ne_eq, not_true_eq_false, false_and,
        and_false, if_false, Option.getD_none]
      split <;> rfl
    by_cases hw : a = WADDR
    · have hne : WADDR ≠ WDATA := by decide
      simp only [Board.write, Write.dataFor, hw, hne, if_false, if_true, ne_eq,
        not_true_eq_false, and_false]
      rfl
    simp only [Board.write, Write.dataFor, hd, hw, if_false, ne_eq, not_false_eq_true, and_true]
    by_cases ha : a = addr
    · subst ha
      rw [if_pos rfl]
      split_ifs <;> simp
    · split_ifs <;> simp [Function.update_of_ne (Ne.symm ha)]

theorem Board.write_wdata_reg (b : Board) (data : UInt32) :
    (b.write (.reg WDATA data)).reg = b.reg := by
  funext addr
  rw [Board.write_reg]
  simp [Write.dataFor]

theorem Board.writes_reg (b : Board) (ws : List Write) (addr : UInt32) :
    (b.writes ws).reg addr = (lastData addr ws).getD (b.reg addr) := by
  induction ws generalizing b with
  | nil => rfl
  | cons w ws ih =>
    rw [Board.writes_cons, ih, Board.write_reg, lastData]
    cases lastData addr ws <;> rfl

theorem lastData_render (addr pc : UInt32) (es : List Emission) :
    lastData addr (render pc es) = none := by
  induction es generalizing pc with
  | nil => rfl
  | cons e es ih =>
    cases e with
    | word w =>
      rw [render, lastData_append, ih]
      split <;> simp [lastData, Write.dataFor]
    | classLED led on => simp [render, lastData, ih, Write.dataFor]

def ledsAfter (leds : ClassLED → Bool) : List Emission → ClassLED → Bool
  | [] => leds
  | .word _ :: es => ledsAfter leds es
  | .classLED led on :: es => ledsAfter (Function.update leds led on) es

/-- The words that pass the counter go to consecutive addresses, as many as there is room for. -/
theorem Board.writes_render (b : Board) (pc : UInt32) (es : List Emission) :
    b.writes (render pc es) =
      { b with
        sram := overwrite b.sram b.loadAddr ((stored pc (words es)).take (256 - b.loadAddr))
        loadAddr := b.loadAddr + ((stored pc (words es)).take (256 - b.loadAddr)).length
        classLED := ledsAfter b.classLED es } := by
  induction es generalizing b pc with
  | nil => simp [render, words, stored, overwrite_nil, ledsAfter]
  | cons e es ih =>
    cases e with
    | word w =>
      by_cases hpc : pc < 256
      · simp only [render, hpc, if_true, List.singleton_append, Board.writes_cons, ih, words,
          stored, ledsAfter, Board.write]
        by_cases hroom : b.loadAddr < 256
        · have htake : 256 - b.loadAddr = 256 - (b.loadAddr + 1) + 1 := by omega
          rw [if_pos hroom, htake, List.take_succ_cons, overwrite_cons, List.length_cons,
            Nat.add_assoc, Nat.add_comm 1]
        · rw [if_neg hroom, Nat.sub_eq_zero_of_le (by omega), List.take_zero, List.take_zero]
      · simp only [render, hpc, if_false, List.nil_append, ih, words, stored, ledsAfter]
    | classLED led on => simp [render, ih, words, Board.write, ledsAfter]

/-- The class LEDs of a light state: green when the phone is held left side up in a call,
red in any other call on the earpiece. -/
def classLEDs (s : LightState) : ClassLED → Bool
  | .red => s.callEarpiece && !s.callLeftUp
  | .green => s.callEarpiece && s.callLeftUp

theorem ledsAfter_append (leds : ClassLED → Bool) (es es' : List Emission) :
    ledsAfter leds (es ++ es') = ledsAfter (ledsAfter leds es) es' := by
  induction es generalizing leds with
  | nil => rfl
  | cons e es ih => cases e <;> simp only [List.cons_append, ledsAfter, ih]

theorem ledsAfter_of_words (leds : ClassLED → Bool) (ws : List UInt32) :
    ledsAfter leds (ws.map .word) = leds := by
  induction ws with
  | nil => rfl
  | cons w ws ih => exact ih

theorem ledsAfter_bif (leds : ClassLED → Bool) (c : Bool) (es es' : List Emission) :
    ledsAfter leds (bif c then es else es') =
      bif c then ledsAfter leds es else ledsAfter leds es' := by
  cases c <;> rfl

theorem ledsAfter_program (leds : ClassLED → Bool) (s : LightState) :
    ledsAfter leds (programEmission s) = classLEDs s := by
  rw [programEmission, ledsAfter_append, ledsAfter_of_words]
  simp only [preludeEmission, statusEmission, ledsAfter, ledsAfter_append, ledsAfter_bif]
  funext led
  cases he : s.callEarpiece <;> cases hl : s.callLeftUp <;> cases led <;>
    simp [classLEDs, he, hl, Function.update]

theorem Board.writes_setup (b : Board) (s : LightState) :
    (b.writes (setupWrites s)).sram = b.sram ∧ (b.writes (setupWrites s)).loadAddr = 0 ∧
      (b.writes (setupWrites s)).cpu = b.cpu ∧
      (b.writes (setupWrites s)).classLED = b.classLED := ⟨rfl, rfl, rfl, rfl⟩

theorem Board.writes_run (b : Board) :
    (b.writes runWrites).sram = b.sram ∧ (b.writes runWrites).loadAddr = b.loadAddr ∧
      (b.writes runWrites).cpu = ⟨0, b.cpu.data⟩ ∧
      (b.writes runWrites).classLED = b.classLED := ⟨rfl, rfl, rfl, rfl⟩

/-- The board after `update`. -/
theorem Board.writes_update (b : Board) (s : LightState) :
    b.writes (updateWrites s) =
      { reg := fun addr => (lastData addr (updateWrites s)).getD (b.reg addr)
        sram := overwrite b.sram 0 ((program s).take 256)
        loadAddr := ((program s).take 256).length
        cpu := ⟨0, b.cpu.data⟩
        classLED := classLEDs s } := by
  obtain ⟨hsram, haddr, hcpu, hled⟩ := b.writes_setup s
  apply Board.ext
  · funext addr
    exact b.writes_reg _ addr
  all_goals
    simp only [updateWrites, Board.writes_append, Board.writes_run, Board.writes_render,
      words_programEmission, ledsAfter_program, hsram, haddr, hcpu, Nat.zero_add, Nat.sub_zero,
      take_stored]

/-- The SRAM holds the program of a light state, as much of it as there is room for. -/
def HoldsProgram (b : Board) (s : LightState) : Prop := Loaded b.sram 0 ((program s).take 256)

theorem Board.update_loaded (b : Board) (s : LightState) :
    HoldsProgram (b.writes (updateWrites s)) s := by
  rw [HoldsProgram, Board.writes_update]
  exact loaded_overwrite b.sram 0 ((program s).take 256)

theorem Board.update_cpu (b : Board) (s : LightState) :
    (b.writes (updateWrites s)).cpu = ⟨0, b.cpu.data⟩ := by rw [Board.writes_update]

theorem Board.update_classLED (b : Board) (s : LightState) :
    (b.writes (updateWrites s)).classLED = classLEDs s := by rw [Board.writes_update]

theorem lastData_update (addr : UInt32) (s : LightState) :
    lastData addr (updateWrites s) =
      (lastData addr runWrites).or (lastData addr (setupWrites s)) := by
  simp [updateWrites, lastData_append, lastData_render]

/-- The current-limit registers of a board. -/
def Board.limits (b : Board) : List UInt32 :=
  [b.reg IMAX1, b.reg IMAX2, b.reg IMAX3, b.reg IMAX4, b.reg IMAX5]

/-- After `update` the chip is enabled and runs, with the currents of the light state. -/
theorem Board.update_running (b : Board) (s : LightState) :
    (b.writes (updateWrites s)).Running := by
  rw [Board.writes_update, Board.Running]
  simp only [lastData_update]
  exact ⟨rfl, rfl, rfl⟩

theorem Board.update_limits (b : Board) (s : LightState) :
    (b.writes (updateWrites s)).limits = (List.range 5).map (imax s.powerLevels) := by
  rw [Board.writes_update, Board.limits]
  simp only [lastData_update]
  rfl

/-- A second `update` of the same light state changes nothing. -/
theorem Board.update_update (b : Board) (s : LightState) :
    (b.writes (updateWrites s)).writes (updateWrites s) = b.writes (updateWrites s) := by
  have hsram : overwrite (overwrite b.sram 0 ((program s).take 256)) 0 ((program s).take 256) =
      overwrite b.sram 0 ((program s).take 256) := by
    funext i
    simp only [overwrite, Nat.zero_le, if_true, Nat.sub_zero]
    cases ((program s).take 256)[i]? <;> rfl
  rw [Board.writes_update, Board.writes_update, hsram]
  congr 1
  funext addr
  cases h : lastData addr (updateWrites s) <;> simp [h]

end GemianLeds
