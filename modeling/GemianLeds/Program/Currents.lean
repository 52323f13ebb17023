import GemianLeds.AW9120.Loading

/-! The current limits over whole runs: the torch raises them together with its step, while
clear and step requests change the steps alone. -/
namespace GemianLeds

/-- The five current registers with one level for every LED. -/
def levelLimits (level : UInt32) : List UInt32 := List.replicate 5 (0x1111 * level)

/-- The torch's current for the torch's step, level 1 for everything else. -/
structure CurrentsMatch (s : LightState) (limits : List UInt32) : Prop where
  torch : limits = levelLimits 7 ↔ torchStep ∈ s.steps
  otherwise : limits ≠ levelLimits 7 → limits = levelLimits 1

/-- No clear request while the torch is on, and no step like the torch's while it is off. -/
def KeepsCurrents : Op → LightState → Prop
  | .daemon .clearBlock, s => s.powerLevels ≠ POWER_LEVEL_20b111s
  | .daemon (.setBlockRGB step), s => step = torchStep → s.powerLevels = POWER_LEVEL_20b111s
  | _, _ => True

/-- Two levels occur. -/
def TwoLevels (s : LightState) : Prop :=
  s.powerLevels = POWER_LEVEL_20b001s ∨ s.powerLevels = POWER_LEVEL_20b111s

theorem twoLevels_next (op : Op) {s : LightState} (h : TwoLevels s) : TwoLevels (op.next s) := by
  rw [TwoLevels, Op.next_powerLevels]
  rcases op with (_ | _ | _ | _ | (_ | _) | _) | (_ | _ | _)
  case daemon.torch.false => exact .inl rfl
  case daemon.torch.true => exact .inr rfl
  all_goals exact h

theorem twoLevels_runOps (pc : UInt32) (ops : List Op) : TwoLevels (runOps (.new pc) ops) :=
  runOps_invariant (fun op _ _ h => twoLevels_next op h) (.inl rfl)

/-- The high level and the torch's step go together. -/
def Linked (s : LightState) : Prop := s.powerLevels = POWER_LEVEL_20b111s ↔ torchStep ∈ s.steps

/-- An operation keeps them together exactly when it meets its condition. -/
theorem linked_next (op : Op) {s : LightState} (h : Linked s) :
    Linked (op.next s) ↔ KeepsCurrents op s := by
  unfold Linked at h ⊢
  rw [Op.next_powerLevels, Op.next_steps]
  rcases op with (_ | step | _ | _ | (_ | _) | _) | (_ | _ | _)
  case daemon.setBlockRGB =>
    simp only [Op.set, KeepsCurrents, h, List.mem_append, List.mem_singleton]
    constructor
    · intro hiff hstep
      exact hiff.mpr (.inr hstep.symm)
    · intro hstep
      exact ⟨.inl, fun hmem => hmem.elim id fun heq => hstep heq.symm⟩
  case daemon.clearBlock => simp [Op.set, KeepsCurrents]
  case daemon.torch.false =>
    have hne : POWER_LEVEL_20b001s ≠ POWER_LEVEL_20b111s := by decide
    simp [Op.set, KeepsCurrents, hne]
  case daemon.torch.true => simp [Op.set, KeepsCurrents]
  all_goals simpa [Op.set, KeepsCurrents] using h

/-- The limits a light state is loaded with match its steps when the two go together. -/
theorem currentsMatch_iff {s : LightState} (h : TwoLevels s) :
    CurrentsMatch s ((List.range 5).map (imax s.powerLevels)) ↔ Linked s := by
  have hlow : (List.range 5).map (imax POWER_LEVEL_20b001s) = levelLimits 1 := by decide
  have hhigh : (List.range 5).map (imax POWER_LEVEL_20b111s) = levelLimits 7 := by decide
  have hne : levelLimits 1 ≠ levelLimits 7 := by decide
  have hne' : POWER_LEVEL_20b001s ≠ POWER_LEVEL_20b111s := by decide
  unfold Linked
  rcases h with h | h
  · rw [h, hlow]
    refine ⟨fun hm => ?_, fun hl => ⟨?_, fun _ => rfl⟩⟩
    · rw [← hm.torch]
      simp [hne, hne']
    · rw [← hl]
      simp [hne, hne']
  · rw [h, hhigh]
    refine ⟨fun hm => ?_, fun hl => ⟨?_, fun hne => absurd rfl hne⟩⟩
    · rw [← hm.torch]
      simp
    · rw [← hl]
      simp

/-- The limits on the board after a run that ends with an update. -/
theorem limits_run (b : Board) (s : LightState) (ops : List Op) {op : Op} (hop : op.callsUpdate) :
    (b.writes (opsWrites s (ops ++ [op]))).limits =
      (List.range 5).map (imax (runOps s (ops ++ [op])).powerLevels) := by
  obtain ⟨ws, hws⟩ := opsWrites_concat hop s ops
  rw [hws, Board.writes_append, Board.update_limits]

theorem linked_runOps {pc : UInt32} {ops : List Op} (h : Along KeepsCurrents (.new pc) ops) :
    Linked (runOps (.new pc) ops) := by
  refine h.invariant (fun op s hop hs => (linked_next op hs).mpr hop) ?_
  have hne : POWER_LEVEL_20b001s ≠ POWER_LEVEL_20b111s := by decide
  simp [Linked, LightState.new, hne]

/-- Along a run whose operations meet their conditions the limits match the steps after every
update; the first operation that does not meet its own shows in the next push. -/
theorem torch_current_along (b : Board) (pc : UInt32) (ops : List Op) (op : Op)
    (h : Along KeepsCurrents (.new pc) ops) :
    (op.callsUpdate →
      CurrentsMatch (runOps (.new pc) (ops ++ [op]))
        (b.writes (opsWrites (.new pc) (ops ++ [op]))).limits) ∧
    (CurrentsMatch (runOps (.new pc) (ops ++ [op] ++ [.daemon .pushBlock]))
        (b.writes (opsWrites (.new pc) (ops ++ [op] ++ [.daemon .pushBlock]))).limits ↔
      KeepsCurrents op (runOps (.new pc) ops)) := by
  have hlinked := linked_runOps h
  constructor
  · intro hop
    have hkeeps : KeepsCurrents op (runOps (.new pc) ops) := by
      rcases op with (_ | _ | _ | _ | _ | _) | (_ | _ | _)
      case daemon.setBlockRGB | daemon.clearBlock => cases hop
      all_goals trivial
    rw [limits_run b _ ops hop, currentsMatch_iff (twoLevels_runOps pc _), runOps_concat]
    exact (linked_next op hlinked).mpr hkeeps
  · rw [limits_run b _ _ rfl, currentsMatch_iff (twoLevels_runOps pc _), runOps_concat,
      runOps_concat, ← linked_next op hlinked]
    rfl

theorem torch_current_along_push :
    CurrentsMatch (runOps (.new 0) ([.daemon (.torch true), .daemon (.torch false),
        .daemon .clearBlock] ++ [.daemon .pushBlock]))
      (Board.blank.writes (opsWrites (.new 0) ([.daemon (.torch true), .daemon (.torch false),
        .daemon .clearBlock] ++ [.daemon .pushBlock]))).limits := by
  refine (torch_current_along .blank 0 [.daemon (.torch true), .daemon (.torch false),
    .daemon .clearBlock] (.daemon .pushBlock) ?_).1 rfl
  simp only [Along, KeepsCurrents, Op.next, Op.callsUpdate, cond_true]
  exact ⟨trivial, trivial, by decide, trivial⟩

/-- Torch on, clear, push: no torch step is left and the limits are still the torch's. -/
theorem cleared_torch_keeps_current :
    ¬ ∀ (b : Board) (pc : UInt32) (ops : List Op) (op : Op), op.callsUpdate →
      CurrentsMatch (runOps (.new pc) (ops ++ [op]))
        (b.writes (opsWrites (.new pc) (ops ++ [op]))).limits := by
  intro hall
  have hmatch := hall .blank 0 [.daemon (.torch true), .daemon .clearBlock] (.daemon .pushBlock) rfl
  rw [limits_run .blank _ _ rfl, currentsMatch_iff (twoLevels_runOps 0 _)] at hmatch
  have hempty : (runOps (.new 0) ([.daemon (.torch true), .daemon .clearBlock] ++
      [.daemon .pushBlock])).steps = [] := by
    simp [Op.next, Op.callsUpdate, Op.set, LightState.updated, LightState.at]
  have hmem := hmatch.mp rfl
  rw [hempty] at hmem
  cases hmem

end GemianLeds
