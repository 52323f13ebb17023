import GemianLeds.AW9120.Loading
import GemianLeds.System.Device

/-! Whatever clients, connman, timers and threads do, and in whatever order: every request is
answered once and in order, and the light state is, up to the actions still queued, that of a
session with the daemon alone. -/
namespace GemianLeds
open Interaction

namespace LEDs
variable {leds leds' : LEDs} {actions : List DaemonAction}

/-- The event loop leaves the handlers and the object as they are. -/
theorem step_fromBus {e : ObjectEvent} (he : e.fromBus = true)
    (h : leds.step e = some (leds', actions)) :
    leds'.handlers = leds.handlers ∧ leds'.object = leds.object := by
  unfold step at h
  cases e with
  | register event | registerObject | unregister event => cases he
  | send r =>
    simp only at h
    split at h
    next =>
      cases h
      exact ⟨rfl, rfl⟩
    next => cases h
  | expire armedBy =>
    simp only at h
    split at h
    next =>
      cases h
      exact ⟨rfl, rfl⟩
    next => cases h
  | handle =>
    simp only at h
    split at h
    next => cases h
    next r inbox hinbox =>
      unfold answer at h
      split at h
      next =>
        cases h
        exact ⟨rfl, rfl⟩
      next =>
        cases h
        exact ⟨rfl, rfl⟩

/-- A call of the main thread enqueues nothing. -/
theorem step_call {e : ObjectEvent} (he : e.fromBus = false)
    (h : leds.step e = some (leds', actions)) : actions = [] ∧ e.sent = [] := by
  cases e with
  | register event | registerObject | unregister event =>
    cases h
    exact ⟨rfl, rfl⟩
  | send r | handle | expire armedBy => cases he

end LEDs

/-- The requests that an event sends. -/
def DeviceEvent.sent : DeviceEvent → List Request
  | .bus e => e.sent
  | _ => []

namespace Device
variable {ramp : Instruction → Channels → ℕ} {s s' : Device}

/-- How far the main thread has come, and what there is on the bus by then. -/
structure Wired (s : Device) : Prop where
  setup : s.setup <:+ runSetup
  handlers : ∀ event, .registerHandler event ∈ s.setup ∨ s.leds.handlers event ≠ .empty
  manned : s.daemon.point ≠ .exited →
    ∀ event, .registerHandler event ∈ s.setup ∨ s.leds.handlers event = .given ()
  object : s.setup ≠ [] → s.leds.object = false
  starting : s.setup ≠ [] → s.daemon.point = .starting
  started : s.setup ≠ runSetup → s.watcher.Started

theorem mem_runSetup (event : LEDsEvent) : .registerHandler event ∈ runSetup := by
  cases event <;> decide

theorem start_wired (powered : Technology → Bool) (pc : UInt32) (b : Board) :
    (start powered pc b).Wired where
  setup := List.suffix_rfl
  handlers event := .inl (mem_runSetup event)
  manned _ event := .inl (mem_runSetup event)
  object _ := rfl
  starting _ := rfl
  started h := absurd rfl h

/-- Nothing is set up after the object. -/
theorem setup_last {setup : List Setup} (h : .startProcessing :: setup <:+ runSetup) :
    setup = [] := by
  simpa [runSetup, List.suffix_cons_iff] using h

/-- The main thread registers the object when it has registered all the handlers. -/
theorem Wired.allows (hs : s.Wired) {x : Setup} {setup : List Setup}
    (hsetup : s.setup = x :: setup) : s.leds.Allows x.event := by
  cases x with
  | registerHandler event => exact hs.object (by rw [hsetup]; exact List.cons_ne_nil _ _)
  | startProcessing =>
    intro event
    have hlast := setup_last (hsetup ▸ hs.setup)
    have hslot := hs.handlers event
    rw [hsetup, hlast] at hslot
    exact hslot.resolve_left (by simp)

theorem Wired.setUp (hs : s.Wired) {x : Setup} {setup : List Setup} {leds : LEDs}
    {actions : List DaemonAction} (hsetup : s.setup = x :: setup) (hstarted : s.watcher.Started)
    (hleds : s.leds.step x.event = some (leds, actions)) :
    Wired { s with setup, registrations := x.keeps s.registrations, leds } := by
  have hne : s.setup ≠ [] := by
    rw [hsetup]
    exact List.cons_ne_nil x setup
  have hsuffix := hs.setup
  have hhandlers := hs.handlers
  have hmanned := hs.manned
  rw [hsetup] at hsuffix hhandlers hmanned
  cases x with
  | registerHandler event =>
    cases hleds
    refine ⟨(List.suffix_cons _ _).trans hsuffix, fun event' => ?_, fun hpoint event' => ?_,
      fun _ => hs.object hne, fun _ => hs.starting hne, fun _ => hstarted⟩
    · by_cases heq : event' = event
      · subst heq
        exact .inr (by simp)
      · simpa [heq] using hhandlers event'
    · by_cases heq : event' = event
      · subst heq
        exact .inr (by simp)
      · simpa [heq] using hmanned hpoint event'
  | startProcessing =>
    cases hleds
    obtain rfl := setup_last hsuffix
    exact ⟨(List.suffix_cons _ _).trans hsuffix, fun event => by simpa using hhandlers event,
      fun hpoint event => by simpa using hmanned hpoint event, fun h => absurd rfl h,
      fun h => absurd rfl h, fun _ => hstarted⟩

theorem step_wired {e : DeviceEvent} (hs : s.Wired) (h : s.step ramp e = some s') : s'.Wired := by
  cases step_effect h with
  | connman e watcher he hwatcher hs' =>
    subst hs'
    exact ⟨hs.setup, hs.handlers, hs.manned, hs.object, hs.starting,
      fun hne => Watcher.started_step (hs.started hne) hwatcher⟩
  | setUp x setup leds actions hsetup hstarted hleds hs' =>
    subst hs'
    exact hs.setUp hsetup hstarted hleds
  | bus e leds actions he hleds hs' =>
    obtain ⟨hhandlers, hobject⟩ := LEDs.step_fromBus he hleds
    have hpoint : (s.daemon.enqueueAll actions).point = s.daemon.point := by
      rw [Daemon.enqueueAll_eq]
    subst hs'
    refine ⟨hs.setup, ?_, ?_, ?_, ?_, hs.started⟩
    · simpa only [hhandlers] using hs.handlers
    · simpa only [hhandlers, hpoint] using hs.manned
    · simpa only [hobject] using hs.object
    · simpa only [hpoint] using hs.starting
  | queue e daemon he hsetup hdaemon hs' =>
    obtain ⟨-, hleaves, hexited⟩ := Daemon.step_point hdaemon
    subst hs'
    refine ⟨hs.setup, hs.handlers, fun hpoint => hs.manned fun h => hpoint (hexited h), hs.object,
      fun hne => ?_, hs.started⟩
    by_contra hpoint
    exact hne (hsetup (hleaves (hs.starting hne) hpoint))
  | release event leds actions hpoint _ hleds hs' =>
    have hdone : s.setup = [] := by
      by_contra hne
      exact absurd (hpoint.symm.trans (hs.starting hne)) nofun
    cases hleds
    subst hs'
    refine ⟨hs.setup, fun event' => ?_, fun hne => absurd hpoint hne, fun h => absurd hdone h,
      fun h => absurd hdone h, hs.started⟩
    change _ ∨ unregisterHandler (event, ()) s.leds.handlers event' ≠ .empty
    rcases LEDs.unregistered event event' s.leds.handlers with hnull | ⟨-, hkept⟩
    · exact .inr (by simp [hnull])
    · rw [hkept]
      exact hs.handlers event'
  | tick hs' =>
    subst hs'
    exact ⟨hs.setup, hs.handlers, hs.manned, hs.object, hs.starting, hs.started⟩

/-- The chip holds the program of the light state: it was programmed for it and has only executed
words since. -/
def Plays (ramp : Instruction → Channels → ℕ) (b : Board) (light : LightState) : Prop :=
  HoldsProgram b light ∧
    ∃ (b' : Board) (n : ℕ), b = (Board.tick ramp)^[n] (b'.writes (update.run light).output)

theorem plays_update (ramp : Instruction → Channels → ℕ) (b : Board) (light : LightState) :
    Plays ramp (b.writes (updateWrites light)) light := by
  refine ⟨b.update_loaded light, b, 0, ?_⟩
  rw [update_run]
  rfl

theorem Plays.tick {b : Board} {light : LightState} (h : Plays ramp b light) :
    Plays ramp (b.tick ramp) light := by
  obtain ⟨hholds, b', n, hboard⟩ := h
  refine ⟨?_, b', n + 1, ?_⟩
  · rw [HoldsProgram, Board.tick_sram]
    exact hholds
  · rw [Function.iterate_succ_apply', ← hboard]

/-- Unless steps were staged last, it is the present light state. -/
def Programmed (ramp : Instruction → Channels → ℕ) (s : Device) : Prop :=
  ∀ op ∈ s.performed.getLast?, op.callsUpdate → Plays ramp s.board s.watcher.light

theorem plays_write (hs : s.Programmed ramp) (ops : List Op) :
    ∀ op ∈ (s.performed ++ ops).getLast?, op.callsUpdate →
      Plays ramp (s.board.writes (opsWrites s.watcher.light ops)) (runOps s.watcher.light ops) := by
  rcases List.eq_nil_or_concat' ops with rfl | ⟨before, last, rfl⟩
  · rw [List.append_nil]
    exact hs
  · intro op hop hupdate
    rw [← List.append_assoc, List.getLast?_concat] at hop
    obtain rfl := Option.some.inj hop
    obtain ⟨ws, hws⟩ := opsWrites_concat hupdate s.watcher.light before
    rw [hws, Board.writes_append]
    exact plays_update ramp _ _

/-- A daemon action is a step of the watcher's light state. -/
theorem watcher_actions (watcher : Watcher) (actions : List DaemonAction) :
    runFrom Watcher.step watcher (actions.map .daemon) =
      some { watcher with light := runOps watcher.light (actions.map .daemon) } := by
  induction actions generalizing watcher with
  | nil => rfl
  | cons action actions ih =>
    rw [List.map_cons, runFrom_cons]
    exact ih { watcher with light := runOps watcher.light [.daemon action] }

/-- The state of a device, against the requests that were sent to it. -/
structure Follows (ramp : Instruction → Channels → ℕ) (powered : Technology → Bool) (pc : UInt32)
    (s : Device) (sent : List Request) : Prop where
  wired : s.Wired
  leds : s.leds.Sound pc
  sent : s.leds.answered.map Prod.fst ++ s.leds.inbox = sent
  in_order : eventActions s.daemon.executed ++ s.daemon.waiting =
    s.leds.handed.flatMap SessionEvent.actions
  performed : s.performed.filterMap Op.action? = eventActions s.daemon.executed
  light : s.watcher.light = runOps (.new pc) s.performed
  watcher : ∃ events, runFrom Watcher.step (.start powered pc) events = some s.watcher
  programmed : s.Programmed ramp

theorem start_follows (powered : Technology → Bool) (pc : UInt32) (b : Board) :
    (start powered pc b).Follows ramp powered pc [] where
  wired := start_wired powered pc b
  leds := LEDs.new_sound pc
  sent := rfl
  in_order := rfl
  performed := rfl
  light := rfl
  watcher := ⟨[], rfl⟩
  programmed op hop := by cases hop

variable {powered : Technology → Bool} {pc : UInt32} {sent : List Request}

/-- A call of the main thread changes the handlers or the object. -/
theorem Follows.call (hs : s.Follows ramp powered pc sent) {e : ObjectEvent} {leds : LEDs}
    {actions : List DaemonAction} (he : e.fromBus = false) (hallows : s.leds.Allows e)
    (hleds : s.leds.step e = some (leds, actions)) {setup : List Setup}
    {registrations : Finset LEDsEvent} (hwired : Wired { s with setup, registrations, leds }) :
    Follows ramp powered pc { s with setup, registrations, leds } (sent ++ []) := by
  obtain ⟨hnone, hquiet⟩ := LEDs.step_call he hleds
  have hsent := LEDs.step_sent hs.leds hleds
  have hactions := LEDs.step_actions hs.leds hleds
  rw [hquiet, hs.sent] at hsent
  rw [hnone, List.append_nil] at hactions
  exact ⟨hwired, LEDs.step_sound hs.leds hallows hleds, hsent, hactions ▸ hs.in_order,
    hs.performed, hs.light, hs.watcher, hs.programmed⟩

theorem step_follows {e : DeviceEvent} (hs : s.Follows ramp powered pc sent)
    (h : s.step ramp e = some s') : s'.Follows ramp powered pc (sent ++ e.sent) := by
  have hwired := step_wired hs.wired h
  have hsame := hs.sent.trans (List.append_nil sent).symm
  cases step_effect h with
  | connman e watcher he hwatcher hs' =>
    obtain ⟨events, hrun⟩ := hs.watcher
    have hlight := Watcher.step_calls hwatcher he
    subst hs'
    refine ⟨hwired, hs.leds, hsame, hs.in_order, ?_, ?_,
      ⟨events ++ [e], runFrom_concat.mpr ⟨_, hrun, hwatcher⟩⟩, ?_⟩
    · change (s.performed ++ _).filterMap _ = _
      rw [List.filterMap_append, filterMap_action?_calls, List.append_nil]
      exact hs.performed
    · change watcher.light = runOps (.new pc) (s.performed ++ _)
      rw [runOps_append, ← hs.light, hlight]
    · intro op hop hupdate
      change Plays ramp (s.board.writes _) watcher.light
      rw [hlight]
      exact plays_write hs.programmed _ op hop hupdate
  | setUp x setup leds actions hsetup hstarted hleds hs' =>
    subst hs'
    exact hs.call (by cases x <;> rfl) (hs.wired.allows hsetup) hleds hwired
  | bus e leds actions he hleds hs' =>
    have hallows : s.leds.Allows e := by
      cases e with
      | register event | registerObject => cases he
      | unregister event | send r | handle | expire armedBy => trivial
    have hexecuted : (s.daemon.enqueueAll actions).executed = s.daemon.executed := by
      rw [Daemon.enqueueAll_eq]
    subst hs'
    refine ⟨hwired, LEDs.step_sound hs.leds hallows hleds, ?_, ?_, ?_, hs.light, hs.watcher,
      hs.programmed⟩
    · change leds.answered.map Prod.fst ++ leds.inbox = _
      rw [LEDs.step_sent hs.leds hleds, hs.sent]
      rfl
    · change eventActions (s.daemon.enqueueAll actions).executed ++
        (s.daemon.enqueueAll actions).waiting = leds.handed.flatMap _
      rw [hexecuted, Daemon.enqueueAll_waiting, LEDs.step_actions hs.leds hleds, ← hs.in_order,
        List.append_assoc]
    · change s.performed.filterMap _ = eventActions (s.daemon.enqueueAll actions).executed
      rw [hexecuted, hs.performed]
  | queue e daemon he hsetup hdaemon hs' =>
    obtain ⟨events, hrun⟩ := hs.watcher
    have hactions := watcher_actions s.watcher (s.daemon.performs e)
    subst hs'
    refine ⟨hwired, hs.leds, hsame, ?_, ?_, ?_,
      ⟨events ++ (s.daemon.performs e).map .daemon, ?_⟩, plays_write hs.programmed _⟩
    · exact (Daemon.step_waiting hdaemon he).trans hs.in_order
    · change (s.performed ++ _).filterMap _ = eventActions daemon.executed
      rw [List.filterMap_append, filterMap_action?, hs.performed, Daemon.step_performs hdaemon]
    · change runOps s.watcher.light _ = runOps (.new pc) (s.performed ++ _)
      rw [runOps_append, ← hs.light]
    · rw [runFrom_append, hrun]
      exact hactions
  | release event leds actions hpoint _ hleds hs' =>
    subst hs'
    exact hs.call (e := .unregister event) rfl trivial hleds hwired
  | tick hs' =>
    subst hs'
    refine ⟨hwired, hs.leds, hsame, hs.in_order, hs.performed, hs.light, hs.watcher, ?_⟩
    intro op hop hupdate
    exact (hs.programmed op hop hupdate).tick

/-- The requests that a history sends. -/
def requestsSent (events : List DeviceEvent) : List Request := events.flatMap DeviceEvent.sent

theorem run_follows {b : Board} {events : List DeviceEvent}
    (h : runFrom (step ramp) (start powered pc b) events = some s) :
    s.Follows ramp powered pc (requestsSent events) := by
  refine runFrom_history (I := fun s events => s.Follows ramp powered pc (requestsSent events)) h
    (start_follows powered pc b) fun hs hstep => ?_
  have hnext := step_follows hs hstep
  unfold requestsSent
  rw [List.flatMap_append, List.flatMap_singleton]
  exact hnext

/-- While the loop has not been left, the handlers are the daemon's whenever a request was sent. -/
theorem Follows.handed (hs : s.Follows ramp powered pc sent) (hpoint : s.daemon.point ≠ .exited) :
    s.leds.handed.filterMap SessionEvent.request? = s.leds.answered.map Prod.fst ∧
      ∃ sess, (Session.start pc).run s.leds.handed = some sess ∧ sess.timers = s.leds.timers := by
  obtain ⟨sess, hrun, hsame⟩ := hs.leds.session
  by_cases hsetup : s.setup = []
  · have hmanned : s.leds.Manned := by
      intro event
      have hslot := hs.wired.manned hpoint event
      rw [hsetup] at hslot
      exact hslot.resolve_left List.not_mem_nil
    refine ⟨hs.leds.requests hmanned, sess, hrun, (hsame ?_).2⟩
    rw [hmanned]
    nofun
  · obtain ⟨-, hanswered, -, htimers, hhanded⟩ := hs.leds.early (hs.wired.object hsetup)
    rw [hanswered, htimers, hhanded]
    exact ⟨rfl, _, rfl, rfl⟩

/-- The light state lags behind the session by the waiting actions only. -/
theorem Follows.requested (hs : s.Follows ramp powered pc sent) {sess : Session}
    (hrun : (Session.start pc).run s.leds.handed = some sess) :
    s.daemon.waiting.foldl Requested.perform s.watcher.light.requested = sess.light.requested := by
  have hlight := requested_ops s.performed (.new pc)
  rw [← hs.light, hs.performed] at hlight
  rw [Session.run_requested hrun, ← hs.in_order, List.foldl_append, hlight]
  rfl

/-- The flags of a quiet watcher are connman's states. -/
theorem Follows.connectivity (hs : s.Follows ramp powered pc sent) (hstarted : s.watcher.Started)
    (hquiet : s.watcher.Quiet) (t : Technology) :
    connectivityOf s.watcher.light t = s.watcher.powered t := by
  obtain ⟨events, hrun⟩ := hs.watcher
  obtain ⟨hconsistent, hfeed⟩ := Watcher.run_refines hrun
  obtain ⟨feedEvents, hrun⟩ := hfeed t
  apply Feed.run_shows hrun (hconsistent.queried_of_started hstarted t)
  · change s.watcher.wire.filterMap _ = []
    rw [hquiet.1]
    rfl
  · change s.watcher.queue.filterMap _ = []
    rw [hquiet.2]
    rfl

/-- When everything is done, the last operation updated if the last action did. -/
theorem Follows.plays (hs : s.Follows ramp powered pc sent) (hqueue : s.daemon.waiting = [])
    {action : DaemonAction}
    (hlast : (s.leds.handed.flatMap SessionEvent.actions).getLast? = some action)
    (hupdate : (Op.daemon action).callsUpdate) : Plays ramp s.board s.watcher.light := by
  have hactions : s.performed.filterMap Op.action? =
      s.leds.handed.flatMap SessionEvent.actions := by
    rw [hs.performed, ← hs.in_order, hqueue, List.append_nil]
  rcases List.eq_nil_or_concat' s.performed with hnil | ⟨before, last, hperformed⟩
  · rw [← hactions, hnil] at hlast
    cases hlast
  · apply hs.programmed last
    · rw [hperformed, List.getLast?_concat]
      rfl
    · cases last with
      | watcher call => cases call <;> rfl
      | daemon action' =>
        rw [← hactions, hperformed, List.filterMap_append] at hlast
        obtain rfl := Option.some.inj ((List.getLast?_concat ..).symm.trans hlast)
        exact hupdate

/-- Nothing has come through before the watcher has started. -/
theorem Follows.started (hs : s.Follows ramp powered pc sent) (hhanded : s.leds.handed ≠ []) :
    s.watcher.Started := by
  apply hs.wired.started
  intro hsetup
  have hobject := hs.wired.object (by rw [hsetup]; exact List.cons_ne_nil _ _)
  exact hhanded (hs.leds.early hobject).2.2.2.2

end Device

/-- The start of the daemon, with a connman that answers at once. -/
def startUp : List DeviceEvent :=
  let query : List DeviceEvent := [.connman .proceed, .connman (.answer [] []), .connman .arrive]
  .replicate 3 (.connman .proceed) ++ query ++ query ++ query ++ .replicate 7 .setUp ++
    [.queue .setRunning, .queue .test]

/-- The main thread takes an action from the queue and performs it. -/
def performNext : List DeviceEvent :=
  [.queue .dequeueAction, .queue .execute, .queue .test]

/-- Whatever happens and in whatever order, every request sent is answered once, in order, with
the reply of its method, or is still to be answered; and the light state is, but for the actions
that wait in the queue, that of a session in which the daemon performs every request and expiry
at once. Until the loop is left, these are all the requests, and the timers are the session's. -/
theorem requests_followed (ramp : Instruction → Channels → ℕ) (powered : Technology → Bool)
    (pc : UInt32) (b : Board) (events : List DeviceEvent) (s : Device)
    (h : runFrom (Device.step ramp) (.start powered pc b) events = some s) :
    s.leds.answered.map Prod.fst ++ s.leds.inbox = Device.requestsSent events ∧
      (∀ x ∈ s.leds.answered, x.2 = (dbusMethodCall x.1).reply) ∧
      ∃ sess, (Session.start pc).run s.leds.handed = some sess ∧
        s.daemon.waiting.foldl Requested.perform s.watcher.light.requested =
          sess.light.requested ∧
        (s.daemon.point ≠ .exited →
          s.leds.handed.filterMap SessionEvent.request? = s.leds.answered.map Prod.fst ∧
            sess.timers = s.leds.timers) := by
  have hs := Device.run_follows h
  obtain ⟨sess, hrun, -⟩ := hs.leds.session
  refine ⟨hs.sent, hs.leds.replies, sess, hrun, hs.requested hrun, fun hpoint => ?_⟩
  obtain ⟨hrequests, sess', hrun', htimers⟩ := hs.handed hpoint
  obtain rfl := Option.some.inj (hrun.symm.trans hrun')
  exact ⟨hrequests, htimers⟩

/-- The torch for a while, and the timer expires while the main thread has two actions to do. -/
theorem requests_followed_torch :
    ∃ s : Device,
      runFrom (Device.step fun _ _ => 0) (.start (fun _ => false) 0 .blank)
          (startUp ++ [.bus (.send (.setTorch true 500)), .bus (.send (.setCapsLock true)),
            .bus .handle] ++ performNext ++ [.bus .handle, .bus (.expire 1)]) = some s ∧
        s.daemon.waiting = [.capsLock true, .torch false] ∧
        ∃ sess, (Session.start 0).run s.leds.handed = some sess ∧
          s.daemon.waiting.foldl Requested.perform s.watcher.light.requested =
            sess.light.requested := by
  have hrun : ((runFrom (Device.step fun _ _ => 0) (.start (fun _ => false) 0 .blank)
      (startUp ++ [.bus (.send (.setTorch true 500)), .bus (.send (.setCapsLock true)),
        .bus .handle] ++ performNext ++ [.bus .handle, .bus (.expire 1)])).any
      fun s => s.daemon.waiting = [.capsLock true, .torch false]) = true := by
    decide +kernel
  obtain ⟨s, hs, hwaiting⟩ := (Option.any_eq_true _ _).mp hrun
  obtain ⟨-, -, sess, hsess, hrequested, -⟩ :=
    requests_followed (fun _ _ => 0) (fun _ => false) 0 .blank _ s hs
  exact ⟨s, hs, of_decide_eq_true hwaiting, sess, hsess, hrequested⟩

/-- As long as operations on the light state do not overlap: once the queue is empty and connman's
messages are dealt with, unless steps were staged last, the chip has a program for the light state
that the requests and connman ask for. -/
theorem device_settles (ramp : Instruction → Channels → ℕ) (powered : Technology → Bool)
    (pc : UInt32) (b : Board) (events : List DeviceEvent) (s : Device) (action : DaemonAction)
    (h : runFrom (Device.step ramp) (.start powered pc b) events = some s)
    (hqueue : s.daemon.waiting = []) (hquiet : s.watcher.Quiet)
    (hlast : (s.leds.handed.flatMap SessionEvent.actions).getLast? = some action)
    (hupdate : (Op.daemon action).callsUpdate) :
    (∃ sess, (Session.start pc).run s.leds.handed = some sess ∧
      s.watcher.light.requested = sess.light.requested) ∧
    (∀ t, connectivityOf s.watcher.light t = s.watcher.powered t) ∧
    Device.Plays ramp s.board s.watcher.light := by
  have hs := Device.run_follows h
  obtain ⟨sess, hrun, -⟩ := hs.leds.session
  have hrequested := hs.requested hrun
  rw [hqueue] at hrequested
  have hstarted : s.watcher.Started := by
    apply hs.started
    intro hnone
    rw [hnone] at hlast
    cases hlast
  exact ⟨⟨sess, hrun, hrequested⟩, hs.connectivity hstarted hquiet, hs.plays hqueue hlast hupdate⟩

/-- A call, and the wifi goes on before the main thread comes to it. -/
theorem device_settles_call :
    ∃ s : Device,
      runFrom (Device.step fun _ _ => 0) (.start (fun _ => false) 0 .blank)
          (startUp ++ [.bus (.send (.setCall true false)), .bus .handle,
            .connman (.change .wifi true), .connman .arrive, .connman .dispatch] ++ performNext ++
            [.tick]) = some s ∧
        s.watcher.light.callEarpiece = true ∧ connectivityOf s.watcher.light .wifi = true ∧
        Device.Plays (fun _ _ => 0) s.board s.watcher.light := by
  have hrun : ((runFrom (Device.step fun _ _ => 0) (.start (fun _ => false) 0 .blank)
      (startUp ++ [.bus (.send (.setCall true false)), .bus .handle,
        .connman (.change .wifi true), .connman .arrive, .connman .dispatch] ++ performNext ++
        [.tick])).any fun s =>
          s.watcher.light.callEarpiece = true ∧ s.watcher.powered .wifi = true ∧
            s.daemon.waiting = [] ∧ s.watcher.wire.isEmpty ∧ s.watcher.queue.isEmpty ∧
            (s.leds.handed.flatMap SessionEvent.actions).getLast? = some (.call true false)) =
      true := by
    decide +kernel
  obtain ⟨s, hs, hchecked⟩ := (Option.any_eq_true _ _).mp hrun
  obtain ⟨hcall, hwifi, hqueue, hwire, hdispatched, hlast⟩ := of_decide_eq_true hchecked
  obtain ⟨-, hconnectivity, hplays⟩ :=
    device_settles (fun _ _ => 0) (fun _ => false) 0 .blank _ s (.call true false) hs hqueue
      ⟨List.isEmpty_iff.mp hwire, List.isEmpty_iff.mp hdispatched⟩ hlast rfl
  exact ⟨s, hs, hcall, (hconnectivity .wifi).trans hwifi, hplays⟩

end GemianLeds
