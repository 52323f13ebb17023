import GemianLeds.Interaction.Merge
import GemianLeds.LightState.Operations
import Mathlib.Data.List.Basic

/-! Daemon actions and connectivity calls as whole operations: they store different fields,
so the order in which the two threads come to them does not show in the end. -/
namespace GemianLeds
open Interaction

/-- The fields a run stores. -/
def setAll (s : LightState) (ops : List Op) : LightState := ops.foldl (fun s op => op.set s) s

/-- The last load of the chip in a list of writes: from the last write on that disables it, with
which every `update` begins. -/
def lastLoad : List Write → Option (List Write)
  | [] => none
  | w :: ws => (lastLoad ws).or (if w = .reg GCR 0 then some (w :: ws) else none)

theorem lastLoad_append_of_some {ws' load : List Write} (h : lastLoad ws' = some load)
    (ws : List Write) : lastLoad (ws ++ ws') = some load := by
  induction ws with
  | nil => exact h
  | cons w ws ih => rw [List.cons_append, lastLoad, ih, Option.some_or]

theorem lastLoad_eq_none_iff {ws : List Write} : lastLoad ws = none ↔ .reg GCR 0 ∉ ws := by
  induction ws with
  | nil => simp [lastLoad]
  | cons w ws ih =>
    rw [lastLoad, Option.or_eq_none_iff, ih, List.mem_cons, not_or, and_comm, eq_comm (b := w)]
    simp

theorem lastLoad_suffix {ws load : List Write} (h : lastLoad ws = some load) : load <:+ ws := by
  induction ws with
  | nil => cases h
  | cons w ws ih =>
    rw [lastLoad, Option.or_eq_some_iff] at h
    rcases h with h | ⟨-, h⟩
    · exact (ih h).trans (List.suffix_cons w ws)
    · split_ifs at h
      exact (Option.some.inj h) ▸ List.suffix_rfl

/-- Words and class LEDs are no reason to disable the chip. -/
theorem disable_not_mem_render (pc : UInt32) (es : List Emission) :
    .reg GCR 0 ∉ render pc es := by
  induction es generalizing pc with
  | nil => simp [render]
  | cons e es ih =>
    cases e with
    | word w =>
      rw [render, List.mem_append, not_or]
      refine ⟨?_, ih (pc + 1)⟩
      split <;> simp [GCR, WDATA]
    | classLED led on => simpa [render] using ih pc

/-- An `update` disables the chip once, before everything else. -/
theorem lastLoad_update (s : LightState) : lastLoad (updateWrites s) = some (updateWrites s) := by
  have hrest :
      .reg GCR 0 ∉ (setupWrites s).tail ++ (render 0 (programEmission s) ++ runWrites) := by
    rw [List.mem_append, List.mem_append, not_or, not_or]
    refine ⟨?_, disable_not_mem_render 0 _, ?_⟩
    · simp [setupWrites, GCR, IMAX1, IMAX2, IMAX3, IMAX4, IMAX5, LER1, LER2, CTRS1, CTRS2, PMR,
        RMR, WADDR]
    · simp [runWrites, GCR, SADDR, PMR, RMR]
  have hupdate : updateWrites s =
      .reg GCR 0 :: ((setupWrites s).tail ++ (render 0 (programEmission s) ++ runWrites)) := rfl
  rw [hupdate, lastLoad, lastLoad_eq_none_iff.mpr hrest, if_pos rfl, Option.none_or]

/-- The writes of the last `update` in a run. -/
def lastUpdate (s : LightState) (ops : List Op) : Option (List Write) := lastLoad (opsWrites s ops)

theorem lastUpdate_concat (s : LightState) (ops : List Op) {op : Op} (h : op.callsUpdate) :
    lastUpdate s (ops ++ [op]) = some (updateWrites (op.set (runOps s ops))) := by
  obtain ⟨ws, hws⟩ := opsWrites_concat h s ops
  have hnext : updateWrites (op.next (runOps s ops)) = updateWrites (op.set (runOps s ops)) := by
    simp [Op.next, h]
  rw [runOps_concat, hnext] at hws
  rw [lastUpdate, hws]
  exact lastLoad_append_of_some (lastLoad_update _) ws

/-- The writes of the last update are what the device writes of a run end with. -/
theorem lastUpdate_suffix {s : LightState} {ops : List Op} {ws : List Write}
    (h : lastUpdate s ops = some ws) : ws <:+ opsWrites s ops := lastLoad_suffix h

/-- The counter has no part in what an operation stores. -/
theorem Op.set_at (op : Op) (s : LightState) (pc : UInt32) :
    op.set (s.at pc) = (op.set s).at pc := by
  rcases op with (_ | _ | _ | _ | _ | _) | (_ | _ | _) <;> rfl

theorem runOps_at (s : LightState) (ops : List Op) : ∃ pc, runOps s ops = (setAll s ops).at pc := by
  suffices ∀ s' pc, s' = s.at pc → ∃ pc', runOps s' ops = (setAll s ops).at pc' from
    this s s.programCounter rfl
  induction ops generalizing s with
  | nil => exact fun s' pc h => ⟨pc, h⟩
  | cons op ops ih =>
    intro s' pc h
    obtain ⟨pc', hnext⟩ := op.next_at s'
    rw [runOps_cons, setAll, List.foldl_cons, ← setAll]
    refine ih (op.set s) _ pc' ?_
    rw [hnext, h, Op.set_at, LightState.at_at]

/-- After a run that ends with an update, the state and the last writes come from the fields
stored along it. -/
theorem run_ends_with_update (s : LightState) (ops : List Op) {op : Op} (h : op.callsUpdate) :
    runOps s (ops ++ [op]) = (setAll s (ops ++ [op])).updated ∧
      lastUpdate s (ops ++ [op]) = some (updateWrites (setAll s (ops ++ [op]))) := by
  obtain ⟨pc, hpc⟩ := runOps_at s ops
  have hset : setAll s (ops ++ [op]) = op.set (setAll s ops) := by simp [setAll]
  rw [runOps_concat, lastUpdate_concat s ops h, hpc, hset]
  simp only [Op.next, h, cond_true, Op.set_at]
  exact ⟨rfl, rfl⟩

/-- The daemon's actions and the watcher's calls store different fields. -/
theorem set_comm (action : DaemonAction) (call : WatcherCall) (s : LightState) :
    (Op.watcher call).set ((Op.daemon action).set s) =
      (Op.daemon action).set ((Op.watcher call).set s) := by
  rcases action with _ | _ | _ | _ | _ | _ <;> rcases call with _ | _ | _ <;> rfl

theorem setAll_merge {actions : List DaemonAction} {calls : List WatcherCall} {ops : List Op}
    (h : Merge (actions.map .daemon) (calls.map .watcher) ops) (s : LightState) :
    setAll s ops = setAll (setAll s (actions.map .daemon)) (calls.map .watcher) := by
  refine h.foldl_eq _ ?_ s
  intro x hx y hy s
  obtain ⟨action, -, rfl⟩ := List.mem_map.mp hx
  obtain ⟨call, -, rfl⟩ := List.mem_map.mp hy
  exact set_comm action call s

/-- A merge of the two threads ends with an update when the daemon's actions do. -/
theorem merge_ends_with_update {actions : List DaemonAction} {calls : List WatcherCall}
    {ops : List Op} {action : DaemonAction} (hlast : actions.getLast? = some action)
    (hupdate : (Op.daemon action).callsUpdate)
    (h : Merge (actions.map .daemon) (calls.map .watcher) ops) :
    ∃ ops' op, ops = ops' ++ [op] ∧ op.callsUpdate := by
  rcases List.eq_nil_or_concat' ops with rfl | ⟨ops', op, rfl⟩
  · rw [List.map_eq_nil_iff.mp h.of_nil.1] at hlast
    cases hlast
  · refine ⟨ops', op, rfl, ?_⟩
    rcases h.last with hop | hop
    · rw [List.getLast?_map, hlast] at hop
      cases hop
      exact hupdate
    · rw [List.getLast?_map] at hop
      obtain ⟨call, -, rfl⟩ := Option.map_eq_some_iff.mp hop
      cases call <;> rfl

/-- Two interleavings of the same actions and calls end in the same light state, and their
last updates write the same. -/
theorem interleavings_agree (s : LightState) (actions : List DaemonAction)
    (calls : List WatcherCall) (action : DaemonAction) (ops ops' : List Op)
    (hlast : actions.getLast? = some action) (hupdate : (Op.daemon action).callsUpdate)
    (h : Merge (actions.map .daemon) (calls.map .watcher) ops)
    (h' : Merge (actions.map .daemon) (calls.map .watcher) ops') :
    runOps s ops = runOps s ops' ∧ lastUpdate s ops = lastUpdate s ops' ∧
      lastUpdate s ops ≠ none := by
  have hset : setAll s ops = setAll s ops' := by rw [setAll_merge h, setAll_merge h']
  obtain ⟨init, op, rfl, hop⟩ := merge_ends_with_update hlast hupdate h
  obtain ⟨init', op', rfl, hop'⟩ := merge_ends_with_update hlast hupdate h'
  obtain ⟨hstate, hwrites⟩ := run_ends_with_update s init hop
  obtain ⟨hstate', hwrites'⟩ := run_ends_with_update s init' hop'
  rw [hstate, hwrites, hstate', hwrites', hset]
  exact ⟨rfl, rfl, by simp⟩

/-- A connectivity change before and after a clear request, and then the torch. -/
theorem interleavings_agree_torch :
    runOps (.new 0) [.daemon .clearBlock, .watcher (.wifi true), .daemon (.torch true)] =
        runOps (.new 0) [.watcher (.wifi true), .daemon .clearBlock, .daemon (.torch true)] ∧
      lastUpdate (.new 0) [.daemon .clearBlock, .watcher (.wifi true), .daemon (.torch true)] =
        lastUpdate (.new 0)
          [.watcher (.wifi true), .daemon .clearBlock, .daemon (.torch true)] := by
  have hagree := interleavings_agree (.new 0) [.clearBlock, .torch true] [.wifi true] (.torch true)
    _ _ rfl rfl (.left (.right (.left .nil))) (.right (.left (.left .nil)))
  exact ⟨hagree.1, hagree.2.1⟩

end GemianLeds
