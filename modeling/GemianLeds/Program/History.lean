import GemianLeds.Program.Closed
import GemianLeds.AW9120.Channels

/-! The daemon and its board over whole runs, with the chip executing words between the
operations: after every update the chip behaves as the light state alone determines. -/
namespace GemianLeds
open Sequencer

/-- An operation of the daemon, or one word executed by the chip. -/
inductive Event where
  | op (op : Op)
  | tick

structure System where
  light : LightState
  board : Board

variable (ramp : Instruction → Channels → ℕ)

def System.step (sys : System) : Event → System
  | .op op => ⟨(op.code.run sys.light).state, sys.board.writes (op.code.run sys.light).output⟩
  | .tick => ⟨sys.light, sys.board.tick ramp⟩

def System.run (sys : System) (events : List Event) : System := events.foldl (System.step ramp) sys

theorem System.run_concat (sys : System) (events : List Event) (e : Event) :
    sys.run ramp (events ++ [e]) = (sys.run ramp events).step ramp e := by
  simp [System.run]

/-- The steps of a run come from accepted requests and from the torch. -/
theorem System.run_stepOk {events : List Event} (hops : ∀ op, .op op ∈ events → op.Accepted)
    (sys : System) (h : ∀ step ∈ sys.light.steps, StepOk step) :
    ∀ step ∈ (sys.run ramp events).light.steps, StepOk step := by
  induction events generalizing sys with
  | nil => exact h
  | cons e events ih =>
    refine ih (fun op hop => hops op (by simp [hop])) (sys.step ramp e) ?_
    cases e with
    | op op =>
      simp only [System.step, Op.code_run]
      exact stepOk_next (hops op (by simp)) h
    | tick => exact h

/-- Right after an operation that calls `update`, the writes for the current light state are
the last ones the board has seen. -/
theorem System.run_update {op : Op} (hop : op.callsUpdate) (sys : System) (events : List Event) :
    ∃ b : Board, (sys.run ramp (events ++ [.op op])).board =
      b.writes (updateWrites (sys.run ramp (events ++ [.op op])).light) := by
  obtain ⟨ws, hws⟩ := Op.writes_eq hop (sys.run ramp events).light
  refine ⟨(sys.run ramp events).board.writes ws, ?_⟩
  rw [System.run_concat]
  simp only [System.step, Op.code_run]
  rw [hws, Board.writes_append]

theorem System.run_updated {op : Op} (hop : op.callsUpdate) (sys : System)
    (events : List Event) : (sys.run ramp (events ++ [.op op])).light.updated =
      (sys.run ramp (events ++ [.op op])).light := by
  rw [System.run_concat]
  simp only [System.step, Op.code_run, Op.next, hop, cond_true, updated_updated]

/-- The address and the word executed after `n` words, and at a wait the PWM values. -/
def Board.observe (b : Board) (n : ℕ) : ℕ × UInt32 × Option Channels :=
  (((aw9120 ramp).after b.sram n b.cpu).pc, (b.visit ramp n).1,
    if waits (b.visit ramp n).1 then some (b.visit ramp n).2 else none)

/-- The first two words of every program switch all channels off. -/
theorem first_words_dark (s : LightState) (ch : Channels) :
    (aw9120 ramp).through ((preludeWords s).take 2) ch = fun _ => 0 := by
  have hd := decode_preludeVocabulary
  simp only [preludeVocabulary, List.map_cons, List.cons.injEq] at hd
  have heffect (w : UInt32) (ch : Channels) :
      (aw9120 ramp).effect w ch = (decode w).drive ramp ch := rfl
  have htake : (preludeWords s).take 2 =
      [SET_STEP_TMRI + CH_ALL_LEDS + SET_STEP_PRE_05MS + 0x3, SETPWMI + CH_ALL_LEDS + 0x00] := by
    rw [preludeWords_eq]
    rfl
  rw [htake, Machine.through_cons, Machine.through_cons, Machine.through_nil, heffect, heffect,
    hd.1, hd.2.1]
  rfl

theorem preludeWords_length_ge (s : LightState) : 2 ≤ (preludeWords s).length := by
  rw [preludeWords_length]
  omega

/-- Two boards that are loaded from the same light state behave alike, whatever their SRAM,
their registers and their channels held before. -/
theorem Board.observe_update (b b' : Board) {s : LightState} (h : ∀ step ∈ s.steps, StepOk step)
    (hfit : (program s).length ≤ 256) (n : ℕ) :
    (b.writes (updateWrites s)).observe ramp n = (b'.writes (updateWrites s)).observe ramp n := by
  have hclosed := b.update_closed ramp h hfit
  have hclosed' := b'.update_closed ramp h hfit
  have hdark : (aw9120 ramp).through ((preludeWords s).take 2) b.cpu.data =
      (aw9120 ramp).through ((preludeWords s).take 2) b'.cpu.data := by
    rw [first_words_dark, first_words_dark]
  obtain ⟨hpc, hdata⟩ := hclosed.congr hclosed' (preludeWords_length_ge s) hdark n
  have hword : ((b.writes (updateWrites s)).visit ramp n).1 =
      ((b'.writes (updateWrites s)).visit ramp n).1 := by
    simp only [Board.visit, Machine.visit, b.update_cpu, b'.update_cpu]
    rw [← hpc]
    exact hclosed.loaded.congr hclosed'.loaded (hclosed.pc_lt b.cpu.data n)
  simp only [Board.observe]
  rw [← hword, b.update_cpu, b'.update_cpu, hpc]
  refine congrArg (Prod.mk _) (congrArg (Prod.mk _) ?_)
  rcases Nat.lt_or_ge n 2 with hn | hn
  · have hlt : n < (preludeWords s).length := hn.trans_le (preludeWords_length_ge s)
    have hquiet : waits ((b.writes (updateWrites s)).visit ramp n).1 = false := by
      rw [Board.visit, Machine.visit, b.update_cpu, hclosed.word_at_prelude _ hlt]
      exact preludeWords_waits s _ (List.getElem_mem hlt)
    simp only [hquiet, Bool.false_eq_true, if_false]
  · have hsame : ((b.writes (updateWrites s)).visit ramp n).2 =
        ((b'.writes (updateWrites s)).visit ramp n).2 := by
      simp only [Board.visit, Machine.visit, b.update_cpu, b'.update_cpu]
      rw [hdata hn]
    rw [hsame]

/-- What a board that runs executes, tick by tick, is what is observed of it. -/
theorem Board.ticks_observe {b : Board} (hb : b.Running) (n : ℕ) :
    (Board.tick ramp)^[n] b = { b with cpu := (aw9120 ramp).after b.sram n b.cpu } ∧
      ((Board.tick ramp)^[n] b).cpu.pc = (b.observe ramp n).1 := by
  have hticks : (Board.tick ramp)^[n] b =
      { b with cpu := (aw9120 ramp).after b.sram n b.cpu } := by
    induction n with
    | zero => rfl
    | succ n ih =>
      rw [Function.iterate_succ_apply', ih, Machine.after_succ]
      exact if_pos hb
  rw [hticks]
  exact ⟨rfl, rfl⟩

/-- After every operation of a run that calls `update`, the chip is enabled and runs with the
currents and class LEDs of the light state, what it executes and shows is a function of the
light state, and another `update` would change nothing. -/
theorem chip_follows_light_state (b : Board) (pc : UInt32) (events : List Event) (op : Op)
    (hops : ∀ op', .op op' ∈ events ++ [.op op] → op'.Accepted) (hop : op.callsUpdate)
    (hfit : (program (System.run ramp ⟨.new pc, b⟩ (events ++ [.op op])).light).length ≤ 256) :
    let sys := System.run ramp ⟨.new pc, b⟩ (events ++ [.op op])
    sys.board.Running ∧
      sys.board.limits = (List.range 5).map (imax sys.light.powerLevels) ∧
      sys.board.classLED = classLEDs sys.light ∧
      (∀ n, sys.board.observe ramp n =
        (Board.blank.writes (update.run sys.light).output).observe ramp n) ∧
      sys.step ramp (.op (.daemon .pushBlock)) = sys := by
  intro sys
  have hok : ∀ step ∈ sys.light.steps, StepOk step :=
    System.run_stepOk ramp hops ⟨.new pc, b⟩ (by simp [LightState.new])
  obtain ⟨b', hb⟩ : ∃ b' : Board, sys.board = b'.writes (updateWrites sys.light) :=
    System.run_update ramp hop ⟨.new pc, b⟩ events
  refine ⟨?_, ?_, ?_, ?_, ?_⟩
  · rw [hb]
    exact b'.update_running sys.light
  · rw [hb]
    exact b'.update_limits sys.light
  · rw [hb]
    exact b'.update_classLED sys.light
  · intro n
    rw [hb, update_run]
    exact b'.observe_update ramp .blank hok hfit n
  · have hlight : sys.light.updated = sys.light := System.run_updated ramp hop ⟨.new pc, b⟩ events
    have hcode := Op.code_run (.daemon .pushBlock) sys.light
    simp only [System.step, hcode]
    change System.mk sys.light.updated (sys.board.writes (updateWrites sys.light)) = sys
    rw [hlight, hb, b'.update_update, ← hb]

/-- A board with other contents, on which the torch is followed by a step and a call. -/
theorem chip_follows_light_state_torch :
    let sys := System.run (fun _ _ => 7)
      ⟨.new 0, { Board.blank with sram := fun i => UInt32.ofNat i, loadAddr := 9 }⟩
      ([.op (.daemon (.torch true)), .tick, .op (.daemon (.setBlockRGB (castStep 4 1 1 30)))] ++
        [.op (.daemon (.call true false))])
    sys.board.reg GCR = 1 ∧ sys.board.classLED .red := by
  have haccepted : Accepted (castStep 4 1 1 30) :=
    ⟨4, 1, 1, 30, by decide, by decide, by decide, rfl⟩
  have h := chip_follows_light_state (fun _ _ => 7)
    { Board.blank with sram := fun i => UInt32.ofNat i, loadAddr := 9 } 0
    [.op (.daemon (.torch true)), .tick, .op (.daemon (.setBlockRGB (castStep 4 1 1 30)))]
    (.daemon (.call true false))
    (by
      intro op hop
      simp only [List.cons_append, List.nil_append, List.mem_cons, Event.op.injEq, reduceCtorEq,
        List.not_mem_nil, or_false, false_or] at hop
      rcases hop with rfl | rfl | rfl
      · trivial
      · exact haccepted
      · trivial)
    rfl (by decide)
  exact ⟨h.1.1, by rw [h.2.2.1]; rfl⟩

end GemianLeds
