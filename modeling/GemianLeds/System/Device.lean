import GemianLeds.System.Parts
import GemianLeds.AW9120.Board
import Mathlib.Data.Finset.Card

/-! The whole of the running daemon: its clients and connman, the object on the bus with its
timers, the action queue and the main thread, the watcher, the light state and the chip. An
operation on the light state is one step here: those of the main thread and of the watcher's thread
do not overlap. -/
namespace GemianLeds
open Interaction

/-- What `Daemon::run` does before its loop. -/
inductive Setup where
  | registerHandler (event : LEDsEvent)
  | startProcessing
  deriving DecidableEq

def Setup.event : Setup → ObjectEvent
  | .registerHandler event => .register event
  | .startProcessing => .registerObject

/-- The registrations that `run` holds after a call, from those before it. -/
def Setup.keeps (registrations : Finset LEDsEvent) : Setup → Finset LEDsEvent
  | .registerHandler event => insert event registrations
  | .startProcessing => registrations

/-- `register_event_handlers`, then `start_event_processing`. -/
def runSetup : List Setup :=
  [.registerHandler .capsLock, .registerHandler .block, .registerHandler .clearBlock,
    .registerHandler .pushBlock, .registerHandler .torch, .registerHandler .call, .startProcessing]

structure Device where
  watcher : Watcher
  setup : List Setup
  registrations : Finset LEDsEvent
  leds : LEDs
  daemon : Daemon DaemonAction
  board : Board
  /-- The operations on the light state so far, in order. -/
  performed : List Op

inductive DeviceEvent where
  | connman (e : WatcherEvent)
  | setUp
  /-- The clients and the event loop of the object. -/
  | bus (e : ObjectEvent)
  /-- The main thread, and `stop` and `flush` from any thread. -/
  | queue (e : DaemonEvent DaemonAction)
  /-- `run` has left its loop, and one of its registrations goes, in no order that is specified. -/
  | release (event : LEDsEvent)
  /-- The chip executes a word. -/
  | tick

namespace Device

/-- `main` begins: the configuration builds the light state and the watcher. -/
def start (powered : Technology → Bool) (programCounter : UInt32) (board : Board) : Device where
  watcher := .start powered programCounter
  setup := runSetup
  registrations := ∅
  leds := .new
  daemon := .new
  board := board
  performed := []

/-- What operations write reaches the chip. -/
def write (s : Device) (ops : List Op) : Device :=
  { s with
    board := s.board.writes (opsWrites s.watcher.light ops)
    performed := s.performed ++ ops }

def step (ramp : Instruction → Channels → ℕ) (s : Device) : DeviceEvent → Option Device
  | .connman (.daemon _) => none
  | .connman e =>
      (s.watcher.step e).map fun watcher =>
        { s.write ((s.watcher.calls e).map .watcher) with watcher }
  | .setUp =>
      match s.setup with
      | [] => none
      | x :: setup =>
          if s.watcher.Started then
            (s.leds.step x.event).map fun (leds, _) =>
              { s with setup, registrations := x.keeps s.registrations, leds }
          else none
  | .bus e =>
      if e.fromBus then
        (s.leds.step e).map fun (leds, actions) =>
          { s with leds, daemon := s.daemon.enqueueAll actions }
      else none
  | .queue (.enqueueAction _) => none
  | .queue e =>
      if e matches .setRunning ∧ s.setup ≠ [] then none
      else
        (s.daemon.step e).map fun daemon =>
          let ops := (s.daemon.performs e).map Op.daemon
          { s.write ops with
            daemon
            watcher := { s.watcher with light := runOps s.watcher.light ops } }
  | .release event =>
      match s.daemon.point with
      | .exited =>
          if event ∈ s.registrations then
            (s.leds.step (.unregister event)).map fun (leds, _) =>
              { s with registrations := s.registrations.erase event, leds }
          else none
      | _ => none
  | .tick => some { s with board := s.board.tick ramp }

variable {ramp : Instruction → Channels → ℕ} {s s' : Device}

/-- Everything one event does. -/
inductive Effect (ramp : Instruction → Channels → ℕ) (s s' : Device) : DeviceEvent → Prop where
  | connman (e : WatcherEvent) (watcher : Watcher) (he : ∀ action, e ≠ .daemon action)
      (hwatcher : s.watcher.step e = some watcher)
      (hs : s' = { s.write ((s.watcher.calls e).map .watcher) with watcher }) :
      Effect ramp s s' (.connman e)
  | setUp (x : Setup) (setup : List Setup) (leds : LEDs) (actions : List DaemonAction)
      (hsetup : s.setup = x :: setup) (hstarted : s.watcher.Started)
      (hleds : s.leds.step x.event = some (leds, actions))
      (hs : s' = { s with setup, registrations := x.keeps s.registrations, leds }) :
      Effect ramp s s' .setUp
  | bus (e : ObjectEvent) (leds : LEDs) (actions : List DaemonAction) (he : e.fromBus = true)
      (hleds : s.leds.step e = some (leds, actions))
      (hs : s' = { s with leds, daemon := s.daemon.enqueueAll actions }) :
      Effect ramp s s' (.bus e)
  | queue (e : DaemonEvent DaemonAction) (daemon : Daemon DaemonAction)
      (he : ∀ action, e ≠ .enqueueAction action) (hsetup : e = .setRunning → s.setup = [])
      (hdaemon : s.daemon.step e = some daemon)
      (hs : s' =
        { s.write ((s.daemon.performs e).map .daemon) with
          daemon
          watcher :=
            { s.watcher with
              light := runOps s.watcher.light ((s.daemon.performs e).map .daemon) } }) :
      Effect ramp s s' (.queue e)
  | release (event : LEDsEvent) (leds : LEDs) (actions : List DaemonAction)
      (hpoint : s.daemon.point = .exited) (hevent : event ∈ s.registrations)
      (hleds : s.leds.step (.unregister event) = some (leds, actions))
      (hs : s' = { s with registrations := s.registrations.erase event, leds }) :
      Effect ramp s s' (.release event)
  | tick (hs : s' = { s with board := s.board.tick ramp }) : Effect ramp s s' .tick

theorem step_effect {e : DeviceEvent} (h : s.step ramp e = some s') : Effect ramp s s' e := by
  cases e with
  | connman e =>
    have heffect (he : ∀ action, e ≠ .daemon action)
        (h : (s.watcher.step e).map (fun watcher =>
          { s.write ((s.watcher.calls e).map .watcher) with watcher }) = some s') :
        Effect ramp s s' (.connman e) := by
      obtain ⟨watcher, hwatcher, hs⟩ := Option.map_eq_some_iff.mp h
      exact .connman e watcher he hwatcher hs.symm
    cases e with
    | daemon action => cases h
    | _ => exact heffect nofun h
  | setUp =>
    unfold step at h
    simp only at h
    split at h
    next => cases h
    next x setup hsetup =>
      split at h
      next hstarted =>
        obtain ⟨⟨leds, actions⟩, hleds, hs⟩ := Option.map_eq_some_iff.mp h
        exact .setUp x setup leds actions hsetup hstarted hleds hs.symm
      next => cases h
  | bus e =>
    unfold step at h
    simp only at h
    split at h
    next he =>
      obtain ⟨⟨leds, actions⟩, hleds, hs⟩ := Option.map_eq_some_iff.mp h
      exact .bus e leds actions he hleds hs.symm
    next => cases h
  | queue e =>
    have heffect (he : ∀ action, e ≠ .enqueueAction action)
        (hsetup : e = .setRunning → s.setup = [])
        (h : (s.daemon.step e).map (fun daemon =>
          { s.write ((s.daemon.performs e).map Op.daemon) with
            daemon
            watcher :=
              { s.watcher with
                light := runOps s.watcher.light ((s.daemon.performs e).map .daemon) } }) =
            some s') :
        Effect ramp s s' (.queue e) := by
      obtain ⟨daemon, hdaemon, hs⟩ := Option.map_eq_some_iff.mp h
      exact .queue e daemon he hsetup hdaemon hs.symm
    unfold step at h
    cases e with
    | enqueueAction action => cases h
    | setRunning =>
      simp only at h
      split at h
      next => cases h
      next hsetup =>
        refine heffect nofun (fun _ => ?_) h
        by_contra hne
        exact hsetup ⟨trivial, hne⟩
    | _ => exact heffect nofun nofun h
  | release event =>
    unfold step at h
    simp only at h
    split at h
    next hpoint =>
      obtain ⟨hevent, h⟩ := Option.ite_none_right_eq_some.mp h
      obtain ⟨⟨leds, actions⟩, hleds, hs⟩ := Option.map_eq_some_iff.mp h
      exact .release event leds actions hpoint hevent hleds hs.symm
    next => cases h
  | tick => exact .tick (Option.some.inj h).symm

end Device
end GemianLeds
