import GemianLeds.LightState.Emission

/-! The operations of a light state, by the thread that calls them, and what each of them
does when it runs alone. -/
namespace GemianLeds
open Interaction

/-- The actions the daemon queues for its own thread. -/
inductive DaemonAction where
  | capsLock (state : Bool)
  | setBlockRGB (step : BlockAnimStep)
  | clearBlock
  | pushBlock
  | torch (on : Bool)
  | call (earpiece leftUp : Bool)
  deriving DecidableEq

/-- The calls the connection watcher makes from its event loop. -/
inductive WatcherCall where
  | wifi (state : Bool)
  | bluetooth (state : Bool)
  | cellular (state : Bool)
  deriving DecidableEq

inductive Op where
  | daemon (action : DaemonAction)
  | watcher (call : WatcherCall)
  deriving DecidableEq

def DaemonAction.code : DaemonAction → LightM Unit
  | .capsLock state => handleCapsLock state
  | .setBlockRGB step => handleSetBlockRGB step.led step.colour step.type step.value
  | .clearBlock => handleClearBlock
  | .pushBlock => handlePushBlock
  | .torch on => handleTorch on
  | .call earpiece leftUp => handleCall earpiece leftUp

def WatcherCall.code : WatcherCall → LightM Unit
  | .wifi state => handleConnectivityWifi state
  | .bluetooth state => handleConnectivityBluetooth state
  | .cellular state => handleConnectivityCellular state

def Op.code : Op → LightM Unit
  | .daemon action => action.code
  | .watcher call => call.code

def torchStep : BlockAnimStep := ⟨0x1f, .red, .setPWM, 0xff⟩

/-- The fields an operation stores, `programCounter` apart. -/
def Op.set : Op → LightState → LightState
  | .daemon (.capsLock state), s => { s with capsLock := state }
  | .daemon (.setBlockRGB step), s => { s with steps := s.steps ++ [step] }
  | .daemon .clearBlock, s => { s with steps := [] }
  | .daemon .pushBlock, s => s
  | .daemon (.torch on), s =>
      { s with
        powerLevels := bif on then POWER_LEVEL_20b111s else POWER_LEVEL_20b001s
        steps := bif on then [torchStep] else [] }
  | .daemon (.call earpiece leftUp), s =>
      { s with callEarpiece := earpiece, callLeftUp := leftUp }
  | .watcher (.wifi state), s => { s with connectivityWifi := state }
  | .watcher (.bluetooth state), s => { s with connectivityBluetooth := state }
  | .watcher (.cellular state), s => { s with connectivityCellular := state }

def Op.callsUpdate : Op → Bool
  | .daemon (.setBlockRGB _) => false
  | .daemon .clearBlock => false
  | _ => true

theorem setAndUpdate_run (set : LightState → LightState) (s : LightState) :
    (setAndUpdate set).run s = ⟨(), (set s).updated, updateWrites (set s)⟩ := by
  simp [setAndUpdate, Program.run_bind, update_run]

theorem handleTorch_run (on : Bool) (s : LightState) :
    (handleTorch on).run s =
      ⟨(), ((Op.daemon (.torch on)).set s).updated,
        updateWrites ((Op.daemon (.torch on)).set s) ++
          updateWrites ((Op.daemon (.torch on)).set s)⟩ := by
  have hset : (do
      Program.modify fun s =>
        { s with powerLevels := if on then POWER_LEVEL_20b111s else POWER_LEVEL_20b001s }
      handleClearBlock
      Program.when (fun _ => on) (emplaceBack 0x1f .red .setPWM 0xff) : LightM Unit).run s =
        ⟨(), (Op.daemon (.torch on)).set s, []⟩ := by
    cases on <;> simp [handleClearBlock, emplaceBack, Program.run_bind, Op.set, torchStep]
  have hsplit : handleTorch on = (do
      (do
        Program.modify fun s =>
          { s with powerLevels := if on then POWER_LEVEL_20b111s else POWER_LEVEL_20b001s }
        handleClearBlock
        Program.when (fun _ => on) (emplaceBack 0x1f .red .setPWM 0xff))
      handlePushBlock
      update : LightM Unit) := by
    simp only [handleTorch, Program.bind_assoc]
  rw [hsplit, Program.run_bind_of hset, handlePushBlock, Program.run_bind_of (update_run _),
    update_run]
  simp

/-- The writes of an operation: `handleTorch` updates twice, the staging operations never. -/
def Op.writes (op : Op) (s : LightState) : List Write :=
  match op with
  | .daemon (.setBlockRGB _) => []
  | .daemon .clearBlock => []
  | .daemon (.torch _) => updateWrites (op.set s) ++ updateWrites (op.set s)
  | _ => updateWrites (op.set s)

/-- The light state an operation leaves. -/
def Op.next (op : Op) (s : LightState) : LightState :=
  bif op.callsUpdate then (op.set s).updated else op.set s

theorem Op.next_at (op : Op) (s : LightState) : ∃ pc, op.next s = (op.set s).at pc := by
  unfold Op.next
  cases op.callsUpdate with
  | true => exact ⟨_, rfl⟩
  | false => exact ⟨(op.set s).programCounter, rfl⟩

theorem Op.next_steps (op : Op) (s : LightState) : (op.next s).steps = (op.set s).steps := by
  obtain ⟨pc, h⟩ := op.next_at s
  rw [h, LightState.at_steps]

theorem Op.next_powerLevels (op : Op) (s : LightState) :
    (op.next s).powerLevels = (op.set s).powerLevels := by
  obtain ⟨pc, h⟩ := op.next_at s
  rw [h]
  rfl

theorem Op.next_callEarpiece (op : Op) (s : LightState) :
    (op.next s).callEarpiece = (op.set s).callEarpiece := by
  obtain ⟨pc, h⟩ := op.next_at s
  rw [h]
  rfl

/-- Every operation stores its fields and, unless it only stages steps, reprograms the chip
from the light state that results. -/
theorem Op.code_run (op : Op) (s : LightState) :
    op.code.run s = ⟨(), op.next s, op.writes s⟩ := by
  cases op with
  | watcher call => cases call <;> exact setAndUpdate_run _ s
  | daemon action =>
    cases action with
    | capsLock state => exact setAndUpdate_run _ s
    | setBlockRGB step => rfl
    | clearBlock => rfl
    | pushBlock => exact update_run s
    | torch on => exact handleTorch_run on s
    | call earpiece leftUp =>
      simp [Op.code, DaemonAction.code, handleCall, Program.run_bind, update_run, Op.next,
        Op.callsUpdate, Op.set, Op.writes]

/-- A run of whole operations. -/
def runOps (s : LightState) (ops : List Op) : LightState :=
  ops.foldl (fun s op => (op.code.run s).state) s

@[simp] theorem runOps_nil (s : LightState) : runOps s [] = s := rfl

@[simp] theorem runOps_cons (s : LightState) (op : Op) (ops : List Op) :
    runOps s (op :: ops) = runOps (op.next s) ops := by
  simp [runOps, Op.code_run]

theorem runOps_append (s : LightState) (ops ops' : List Op) :
    runOps s (ops ++ ops') = runOps (runOps s ops) ops' := List.foldl_append ..

theorem runOps_concat (s : LightState) (ops : List Op) (op : Op) :
    runOps s (ops ++ [op]) = op.next (runOps s ops) := by
  rw [runOps_append]
  simp

/-- The device writes of a run. -/
def opsWrites (s : LightState) : List Op → List Write
  | [] => []
  | op :: ops => (op.code.run s).output ++ opsWrites (op.code.run s).state ops

@[simp] theorem opsWrites_nil (s : LightState) : opsWrites s [] = [] := rfl

@[simp] theorem opsWrites_cons (s : LightState) (op : Op) (ops : List Op) :
    opsWrites s (op :: ops) = op.writes s ++ opsWrites (op.next s) ops := by
  simp [opsWrites, Op.code_run]

theorem opsWrites_append (s : LightState) (ops ops' : List Op) :
    opsWrites s (ops ++ ops') = opsWrites s ops ++ opsWrites (runOps s ops) ops' := by
  induction ops generalizing s with
  | nil => rfl
  | cons op ops ih => simp [ih]

/-- The writes of an operation that calls `update` end with those for the state it leaves. -/
theorem Op.writes_eq {op : Op} (h : op.callsUpdate) (s : LightState) :
    ∃ ws, op.writes s = ws ++ updateWrites (op.next s) := by
  have hnext : updateWrites (op.next s) = updateWrites (op.set s) := by simp [Op.next, h]
  rw [hnext]
  rcases op with (_ | _ | _ | _ | _ | _) | (_ | _ | _)
  case daemon.torch => exact ⟨_, rfl⟩
  case daemon.setBlockRGB | daemon.clearBlock => cases h
  all_goals exact ⟨[], rfl⟩

theorem Op.writes_staging {op : Op} (h : op.callsUpdate = false) (s : LightState) :
    op.writes s = [] := by
  rcases op with (_ | _ | _ | _ | _ | _) | (_ | _ | _)
  case daemon.setBlockRGB | daemon.clearBlock => rfl
  all_goals cases h

/-- So do the writes of a run that ends with such an operation. -/
theorem opsWrites_concat {op : Op} (h : op.callsUpdate) (s : LightState) (ops : List Op) :
    ∃ ws, opsWrites s (ops ++ [op]) = ws ++ updateWrites (runOps s (ops ++ [op])) := by
  obtain ⟨ws, hws⟩ := Op.writes_eq h (runOps s ops)
  refine ⟨opsWrites s ops ++ ws, ?_⟩
  rw [opsWrites_append, runOps_concat, opsWrites_cons, opsWrites_nil, List.append_nil, hws,
    List.append_assoc]

/-- The operations that stage a list of steps. -/
def stageOps (steps : List BlockAnimStep) : List Op :=
  steps.map fun step => .daemon (.setBlockRGB step)

theorem runOps_stage (s : LightState) (steps : List BlockAnimStep) :
    runOps s (stageOps steps) = { s with steps := s.steps ++ steps } := by
  induction steps generalizing s with
  | nil => simp [stageOps]
  | cons step steps ih =>
    rw [stageOps, List.map_cons, runOps_cons, ← stageOps, ih]
    simp [Op.next, Op.callsUpdate, Op.set]

/-- Every operation of a run finds a state that satisfies `P`. -/
def Along (P : Op → LightState → Prop) : LightState → List Op → Prop
  | _, [] => True
  | s, op :: ops => P op s ∧ Along P (op.next s) ops

theorem Along.invariant {P : Op → LightState → Prop} {I : LightState → Prop} {s : LightState}
    {ops : List Op} (h : Along P s ops) (hstep : ∀ op s, P op s → I s → I (op.next s))
    (hs : I s) : I (runOps s ops) := by
  induction ops generalizing s with
  | nil => exact hs
  | cons op ops ih =>
    rw [runOps_cons]
    exact ih h.2 (hstep op s h.1 hs)

/-- What every operation of a run preserves holds at its end. -/
theorem runOps_invariant {I : LightState → Prop} {ops : List Op}
    (hstep : ∀ op ∈ ops, ∀ s, I s → I (op.next s)) {s : LightState} (h : I s) :
    I (runOps s ops) := by
  induction ops generalizing s with
  | nil => exact h
  | cons op ops ih =>
    rw [runOps_cons]
    exact ih (fun op' h' => hstep op' (by simp [h'])) (hstep op (by simp) s h)

end GemianLeds
