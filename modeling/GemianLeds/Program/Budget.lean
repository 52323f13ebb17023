import GemianLeds.Program.Closed

/-! How many steps fit into the SRAM beside what `update` adds to them. The documentation
leaves about 247 steps; the status LEDs of an animation without a delay can need more. -/
namespace GemianLeds

/-- Every word of the program reaches the chip. -/
structure Whole (s : LightState) : Prop where
  fits : (program s).length ≤ 256
  stored : wdata (update.run s).output = program s

theorem whole_iff {s : LightState} (h : ∀ step ∈ s.steps, StepOk step) :
    Whole s ↔ wordsBeforeBranch s < 256 := by
  have hlength := program_length h
  constructor
  · intro hwhole
    have hfits := hwhole.fits
    omega
  · intro hlt
    have hfits : (program s).length ≤ 256 := by omega
    refine ⟨hfits, ?_⟩
    rw [update_run]
    change wdata (updateWrites s) = _
    rw [wdata_update]
    apply stored_of_fits
    change 0 + (program s).length ≤ 256
    omega

/-- Nothing the daemon does changes `powerState`. -/
theorem runOps_powerState (pc : UInt32) (ops : List Op) :
    (runOps (.new pc) ops).powerState = 0 := by
  apply runOps_invariant (I := fun s => s.powerState = 0)
  · intro op _ s hs
    obtain ⟨pc', hnext⟩ := op.next_at s
    have hset : (op.set s).powerState = s.powerState := by
      rcases op with (_ | _ | _ | _ | _ | _) | (_ | _ | _) <;> rfl
    rw [hnext]
    exact hset.trans hs
  · rfl

/-- What comes before the closing branch, for an animation with a delay or during a call. -/
theorem wordsBeforeBranch_le {s : LightState} (hpower : s.powerState = 0)
    (h : hasDelay s.steps ∨ s.callEarpiece) : wordsBeforeBranch s ≤ s.steps.length + 6 := by
  have hconnected := connected_le s
  have hcaps := s.capsLock.toNat_le
  unfold wordsBeforeBranch
  rw [if_pos hpower]
  rcases h with hdelay | hcall
  · simp only [hdelay, if_true]
    split_ifs <;> omega
  · simp only [hcall, if_true]
    split_ifs <;> omega

/-- What comes before it otherwise. -/
theorem wordsBeforeBranch_status {s : LightState} (hpower : s.powerState = 0)
    (hdelay : hasDelay s.steps = false) (hcall : s.callEarpiece = false) :
    wordsBeforeBranch s = s.steps.length + 4 * connected s + s.capsLock.toNat + 5 +
      if connected s = 0 then 1 else 0 := by
  unfold wordsBeforeBranch
  rw [if_pos hpower, hdelay, hcall]
  simp only [Bool.false_eq_true, if_false]
  omega

/-- In every run that leaves at most 247 steps, the program is stored whole exactly when a
step is a delay, or the earpiece is in use, or nothing is connected, or the steps are few
enough for the status LEDs. -/
theorem budget_iff (pc : UInt32) (ops : List Op) (hops : ∀ op ∈ ops, op.Accepted)
    (hlength : (runOps (.new pc) ops).steps.length ≤ 247) :
    Whole (runOps (.new pc) ops) ↔
      hasDelay (runOps (.new pc) ops).steps ∨ (runOps (.new pc) ops).callEarpiece ∨
        connected (runOps (.new pc) ops) = 0 ∨
        (runOps (.new pc) ops).steps.length + 4 * connected (runOps (.new pc) ops) +
          (runOps (.new pc) ops).capsLock.toNat ≤ 250 := by
  rw [whole_iff (stepOk_runOps hops pc)]
  have hpower := runOps_powerState pc ops
  generalize runOps (.new pc) ops = s at *
  by_cases h : hasDelay s.steps ∨ s.callEarpiece
  · have hle := wordsBeforeBranch_le hpower h
    constructor
    · intro _
      exact h.imp_right .inl
    · intro _
      omega
  · obtain ⟨hdelay, hcall⟩ := not_or.mp h
    have hcaps := s.capsLock.toNat_le
    rw [wordsBeforeBranch_status hpower (Bool.eq_false_iff.mpr hdelay)
      (Bool.eq_false_iff.mpr hcall)]
    constructor
    · intro hlt
      refine .inr (.inr ?_)
      split_ifs at hlt with hzero
      · exact .inl hzero
      · right
        omega
    · rintro (hd | hc | hfew)
      · exact absurd hd hdelay
      · exact absurd hc hcall
      · split_ifs with hzero
        · omega
        · rcases hfew with hzero' | hfew
          · exact absurd hzero' hzero
          · omega

theorem setPWM_accepted : Accepted (castStep 1 0 0 200) :=
  ⟨1, 0, 0, 200, by decide, by decide, by decide, rfl⟩

/-- Three steps beside two connected technologies. -/
theorem budget_iff_few :
    Whole (runOps (.new 0) (stageOps (.replicate 3 (castStep 1 0 0 200)) ++
      [.watcher (.wifi true), .watcher (.cellular true)])) := by
  refine (budget_iff 0 _ ?_ (by decide)).mpr (by decide)
  intro op hop
  rcases List.mem_append.mp hop with hop | hop
  · refine stageOps_accepted ?_ op hop
    intro step hstep
    rw [List.eq_of_mem_replicate hstep]
    exact setPWM_accepted
  · simp only [List.mem_cons, List.not_mem_nil, or_false] at hop
    rcases hop with rfl | rfl <;> trivial

/-- A number of equal steps without a delay, in an otherwise arbitrary state. -/
theorem wordsBeforeBranch_plain {s : LightState} (hpower : s.powerState = 0)
    (hcall : s.callEarpiece = false) (n : ℕ) :
    wordsBeforeBranch { s with steps := .replicate n (castStep 1 0 0 200) } =
      n + 4 * connected s + s.capsLock.toNat + 5 + if connected s = 0 then 1 else 0 := by
  have hdelay : hasDelay (.replicate n (castStep 1 0 0 200)) = false := by
    unfold hasDelay
    rw [List.any_replicate]
    split_ifs <;> rfl
  have hwords := wordsBeforeBranch_status
    (s := { s with steps := .replicate n (castStep 1 0 0 200) }) hpower hdelay hcall
  rw [hwords, List.length_replicate]
  rfl

/-- 247 steps without a delay while everything is connected: 265 words. -/
theorem budget_exceeded :
    ¬ ∀ (pc : UInt32) (ops : List Op), (∀ op ∈ ops, op.Accepted) →
      (runOps (.new pc) ops).steps.length ≤ 247 → Whole (runOps (.new pc) ops) := by
  intro hall
  have hops : ∀ op ∈ [.watcher (.wifi true), .watcher (.bluetooth true),
      .watcher (.cellular true)] ++ stageOps (.replicate 247 (castStep 1 0 0 200)),
      op.Accepted := by
    intro op hop
    rcases List.mem_append.mp hop with hop | hop
    · simp only [List.mem_cons, List.not_mem_nil, or_false] at hop
      rcases hop with rfl | rfl | rfl <;> trivial
    · refine stageOps_accepted ?_ op hop
      intro step hstep
      rw [List.eq_of_mem_replicate hstep]
      exact setPWM_accepted
  have hrun := runOps_stage (runOps (.new 0) [.watcher (.wifi true), .watcher (.bluetooth true),
    .watcher (.cellular true)]) (.replicate 247 (castStep 1 0 0 200))
  rw [← runOps_append] at hrun
  have hwhole := hall 0 _ hops (by rw [hrun]; exact (List.length_replicate ..).le)
  rw [whole_iff (stepOk_runOps hops 0), hrun] at hwhole
  have hwords := wordsBeforeBranch_plain (s := runOps (.new 0) [.watcher (.wifi true),
    .watcher (.bluetooth true), .watcher (.cellular true)]) rfl rfl 247
  have hconnected : connected (runOps (.new 0) [.watcher (.wifi true),
    .watcher (.bluetooth true), .watcher (.cellular true)]) = 3 := rfl
  rw [hconnected] at hwords
  have hlt := hwords.symm.trans_lt hwhole
  omega

end GemianLeds
