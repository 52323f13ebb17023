import GemianLeds.DBus.Handlers
import GemianLeds.Connman.Messages

/-! What the clients of the daemon decide of its light state, apart from the connectivity that
connman decides and from the counter. Requests change it by themselves, whatever the watcher
does in between. -/
namespace GemianLeds

/-- The fields of a light state that requests set, and `powerState`, which nothing sets. -/
@[ext] structure Requested where
  capsLock : Bool
  powerState : Int32
  callEarpiece : Bool
  callLeftUp : Bool
  steps : List BlockAnimStep
  powerLevels : UInt64

def LightState.requested (s : LightState) : Requested :=
  ⟨s.capsLock, s.powerState, s.callEarpiece, s.callLeftUp, s.steps, s.powerLevels⟩

def Requested.perform (r : Requested) : DaemonAction → Requested
  | .capsLock state => { r with capsLock := state }
  | .setBlockRGB step => { r with steps := r.steps ++ [step] }
  | .clearBlock => { r with steps := [] }
  | .pushBlock => r
  | .torch on =>
      { r with
        steps := bif on then [torchStep] else []
        powerLevels := bif on then POWER_LEVEL_20b111s else POWER_LEVEL_20b001s }
  | .call earpiece leftUp => { r with callEarpiece := earpiece, callLeftUp := leftUp }

theorem requested_next (op : Op) (s : LightState) :
    (op.next s).requested = (op.set s).requested := by
  obtain ⟨pc, hnext⟩ := op.next_at s
  rw [hnext]
  rfl

/-- What clients decide changes by their actions alone. -/
@[simp] theorem requested_daemon (action : DaemonAction) (s : LightState) :
    ((Op.daemon action).next s).requested = s.requested.perform action := by
  rw [requested_next]
  cases action <;> rfl

@[simp] theorem requested_watcher (call : WatcherCall) (s : LightState) :
    ((Op.watcher call).next s).requested = s.requested := by
  rw [requested_next]
  cases call <;> rfl

/-- The action of an operation of the daemon. -/
def Op.action? : Op → Option DaemonAction
  | .daemon action => some action
  | .watcher _ => none

theorem requested_ops (ops : List Op) (s : LightState) :
    (runOps s ops).requested = (ops.filterMap Op.action?).foldl Requested.perform s.requested := by
  induction ops generalizing s with
  | nil => rfl
  | cons op ops ih =>
    rw [runOps_cons, ih]
    cases op with
    | daemon action =>
      rw [requested_daemon]
      rfl
    | watcher call =>
      rw [requested_watcher]
      rfl

theorem filterMap_action? (actions : List DaemonAction) :
    (actions.map Op.daemon).filterMap Op.action? = actions := by
  rw [List.filterMap_map]
  exact List.filterMap_some

theorem filterMap_action?_calls (calls : List WatcherCall) :
    (calls.map Op.watcher).filterMap Op.action? = [] := by
  rw [List.filterMap_map]
  exact List.filterMap_none calls

theorem Session.step_light {sess sess' : Session} {e : SessionEvent}
    (h : sess.step e = some sess') :
    sess'.light = runOps sess.light (e.actions.map .daemon) := by
  cases e with
  | request r =>
    obtain rfl := Option.some.inj h
    rfl
  | expire armedBy => exact expire_light h

/-- A session is decided by the actions it asks for. -/
theorem Session.run_requested {sess sess' : Session} {events : List SessionEvent}
    (h : sess.run events = some sess') :
    sess'.light.requested =
      (events.flatMap SessionEvent.actions).foldl Requested.perform sess.light.requested := by
  induction events generalizing sess with
  | nil =>
    obtain rfl := Option.some.inj h
    rfl
  | cons e events ih =>
    obtain ⟨sess₁, h₁, h₂⟩ := Option.bind_eq_some_iff.mp h
    rw [ih h₂, Session.step_light h₁, requested_ops, filterMap_action?, List.flatMap_cons,
      List.foldl_append]

end GemianLeds
