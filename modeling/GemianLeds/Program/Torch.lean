import GemianLeds.Program.StatusLEDs
import Mathlib.Data.List.Basic

/-! The torch while its program runs: its one step lights every channel, and the status words
behind it darken the connectivity channels again unless a call keeps them out of the loop. -/
namespace GemianLeds
open Sequencer

/-- What an operation makes of the earpiece flag. -/
def earpieceStep (earpiece : Bool) : Op → Bool
  | .daemon (.call earpiece' _) => earpiece'
  | _ => earpiece

/-- What the last call request of a run said about the earpiece. -/
def lastEarpiece (ops : List Op) : Bool := ops.foldl earpieceStep false

theorem earpieceStep_next (op : Op) (s : LightState) :
    (op.next s).callEarpiece = earpieceStep s.callEarpiece op := by
  rw [Op.next_callEarpiece]
  rcases op with (_ | _ | _ | _ | _ | _) | (_ | _ | _) <;> rfl

theorem runOps_earpiece (s : LightState) (ops : List Op) :
    (runOps s ops).callEarpiece = ops.foldl earpieceStep s.callEarpiece := by
  induction ops generalizing s with
  | nil => rfl
  | cons op ops ih => rw [runOps_cons, ih, earpieceStep_next, List.foldl_cons]

/-- The operations other than torch, clear and step requests. -/
def Op.keepsSteps : Op → Bool
  | .daemon (.setBlockRGB _) => false
  | .daemon .clearBlock => false
  | .daemon (.torch _) => false
  | _ => true

theorem keepsSteps_next {op : Op} (h : op.keepsSteps) (s : LightState) :
    (op.next s).steps = s.steps := by
  rw [Op.next_steps]
  rcases op with (_ | _ | _ | _ | _ | _) | (_ | _ | _)
  case daemon.setBlockRGB | daemon.clearBlock | daemon.torch => cases h
  all_goals rfl

theorem keepsSteps_callsUpdate {op : Op} (h : op.keepsSteps) : op.callsUpdate := by
  rcases op with (_ | _ | _ | _ | _ | _) | (_ | _ | _)
  case daemon.setBlockRGB | daemon.clearBlock => cases h
  all_goals rfl

theorem runOps_torch (s : LightState) (before : List Op) {after : List Op}
    (hafter : ∀ op ∈ after, op.keepsSteps) :
    (runOps s (before ++ .daemon (.torch true) :: after)).steps = [torchStep] := by
  rw [runOps_append, runOps_cons]
  refine runOps_invariant (I := fun s => s.steps = [torchStep]) ?_ ?_
  · intro op hop s hs
    rw [keepsSteps_next (hafter op hop), hs]
  · rw [Op.next_steps]
    rfl

/-- After the torch and such operations the chip runs the program of the state they leave. -/
theorem opsWrites_torch (s : LightState) (before : List Op) {after : List Op}
    (hafter : ∀ op ∈ after, op.keepsSteps) :
    ∃ ws, opsWrites s (before ++ .daemon (.torch true) :: after) =
      ws ++ updateWrites (runOps s (before ++ .daemon (.torch true) :: after)) := by
  rcases List.eq_nil_or_concat' after with rfl | ⟨after', op, rfl⟩
  · exact opsWrites_concat rfl s before
  · have hop : op.callsUpdate := keepsSteps_callsUpdate (hafter op (by simp))
    have h := opsWrites_concat hop s (before ++ .daemon (.torch true) :: after')
    rwa [List.append_assoc, List.cons_append] at h

theorem torch_stepOk {s : LightState} (hsteps : s.steps = [torchStep]) :
    ∀ step ∈ s.steps, StepOk step := by
  rw [hsteps]
  simp [StepOk]

theorem torch_fits {s : LightState} (hsteps : s.steps = [torchStep]) :
    (program s).length ≤ 256 := by
  have hconnected := connected_le s
  have hcaps := s.capsLock.toNat_le
  rw [program_length (torch_stepOk hsteps), wordsBeforeBranch, hsteps, List.length_singleton]
  split_ifs <;> omega

/-- The connectivity LEDs are never all lit. -/
theorem connectivityLEDs_lit (s : LightState) :
    connectivityLEDs s ≠ [] ∧ ∀ lit ∈ connectivityLEDs s, lit ≠ (0xff, 0xff, 0xff) := by
  unfold connectivityLEDs
  cases s.connectivityCellular <;> cases s.connectivityWifi <;>
    cases s.connectivityBluetooth <;> decide

variable (ramp : Instruction → Channels → ℕ) (b : Board)

/-- The torch's program lights all channels at every wait exactly during a call. -/
theorem torch_waits_iff {s : LightState} (hsteps : s.steps = [torchStep]) :
    (∀ n, waits ((b.writes (updateWrites s)).visit ramp n).1 →
      ∀ c, ((b.writes (updateWrites s)).visit ramp n).2 c = 0xff) ↔ s.callEarpiece := by
  have hok := torch_stepOk hsteps
  have hdelay : hasDelay s.steps = false := by rw [hsteps]; rfl
  have hclosed := b.update_closed ramp hok (torch_fits hsteps)
  constructor
  · intro hall
    by_contra hcall
    have hshown := pass_shows ramp hok hdelay
      ((aw9120 ramp).passEntry (preludeWords s) (bodyWords s) (loopStartPC s) b.cpu.data 0)
    have htail := statusTail_shows ramp (Bool.eq_false_of_not_eq_true hcall)
      ((aw9120 ramp).through (animationWords s.steps)
        ((aw9120 ramp).passEntry (preludeWords s) (bodyWords s) (loopStartPC s) b.cpu.data 0))
    rw [← hshown] at htail
    obtain ⟨hne, hlit⟩ := connectivityLEDs_lit s
    obtain ⟨lit, hmem⟩ := List.exists_mem_of_ne_nil _ hne
    have hmem' := hmem
    rw [← htail] at hmem'
    obtain ⟨ch, hch, rfl⟩ := List.mem_map.mp hmem'
    obtain ⟨n, hn, rfl⟩ := hclosed.seen_visit hch
    have hfull := hall n
    rw [Board.visit, b.update_cpu] at hfull
    refine hlit _ hmem ?_
    simp only [connectivity, hfull hn]
  · intro hcall n hn c
    rw [Board.visit, b.update_cpu] at hn ⊢
    obtain ⟨k, hk⟩ := hclosed.visit_seen (preludeWords_waits s) b.cpu.data hn
    have hwait : waits (WAITI + WAIT_PRE_16MS + MAX_WAIT) = true := by decide
    rw [pass_shows ramp hok hdelay, statusTailWords, hcall, cond_true, hsteps, Machine.seen_cons,
      hwait] at hk
    have hlit := List.mem_singleton.mp hk
    rw [hlit]
    rfl

/-- After a run in which the torch was switched on last, every channel is fully lit at every
wait exactly when the last call request said that the earpiece is in use. -/
theorem torch_lights_all_iff (pc : UInt32) (before after : List Op)
    (hafter : ∀ op ∈ after, op.keepsSteps) :
    (∀ n, waits ((b.writes (opsWrites (.new pc) (before ++ .daemon (.torch true) :: after))).visit
        ramp n).1 →
      ∀ c, ((b.writes (opsWrites (.new pc) (before ++ .daemon (.torch true) :: after))).visit
        ramp n).2 c = 0xff) ↔
      lastEarpiece (before ++ .daemon (.torch true) :: after) := by
  obtain ⟨ws, hws⟩ := opsWrites_torch (.new pc) before hafter
  rw [hws, Board.writes_append, torch_waits_iff ramp _ (runOps_torch (.new pc) before hafter),
    runOps_earpiece]
  rfl

theorem torch_lights_all_iff_in_call :
    waits ((Board.blank.writes (opsWrites (.new 0) ([] ++ .daemon (.torch true) ::
        [.daemon (.call true true), .watcher (.wifi true)]))).visit (fun _ _ => 0) 5).1 ∧
      ((Board.blank.writes (opsWrites (.new 0) ([] ++ .daemon (.torch true) ::
        [.daemon (.call true true), .watcher (.wifi true)]))).visit (fun _ _ => 0) 5).2 16 =
          0xff := by
  have hwait : waits ((Board.blank.writes (opsWrites (.new 0) ([] ++ .daemon (.torch true) ::
      [.daemon (.call true true), .watcher (.wifi true)]))).visit (fun _ _ => 0) 5).1 := by
    decide
  exact ⟨hwait, (torch_lights_all_iff (fun _ _ => 0) .blank 0 []
    [.daemon (.call true true), .watcher (.wifi true)] (by decide)).mpr rfl 5 hwait 16⟩

/-- The torch outside a call: the connectivity channels are dark at the one wait of the loop. -/
theorem torch_leaves_channels_dark :
    ¬ ∀ (ramp : Instruction → Channels → ℕ) (b : Board) (pc : UInt32) (before after : List Op),
      (∀ op ∈ after, op.keepsSteps) →
      ∀ n, waits ((b.writes (opsWrites (.new pc)
          (before ++ .daemon (.torch true) :: after))).visit ramp n).1 →
        ∀ c, ((b.writes (opsWrites (.new pc)
          (before ++ .daemon (.torch true) :: after))).visit ramp n).2 c = 0xff := by
  intro hall
  have hlit := hall (fun _ _ => 0) .blank 0 [] [] (by simp)
  obtain ⟨ws, hws⟩ := @opsWrites_torch (.new 0) [] [] (by simp)
  rw [hws, Board.writes_append,
    torch_waits_iff _ _ (runOps_torch (.new 0) [] (by simp))] at hlit
  revert hlit
  decide

end GemianLeds
