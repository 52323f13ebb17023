import GemianLeds.System.Liveness
import GemianLeds.System.Refinement

/-! The threads of the daemon wait for each other: the main thread for its calls on the event
loop, a callback of the event loop for the mutex of the action queue, and whoever has the mutex
for nobody, unless a signal comes then. So they stand still only when there is nothing to do. -/
namespace GemianLeds
open Interaction

/-- The steps that follow from what has happened before. -/
def ProcessEvent.works : ProcessEvent → Bool
  | .connman e => e.works
  | .beginSetUp | .beginRelease _ | .returned | .finish => true
  | .loop .tick => false
  | .loop _ => true
  | .queue (.lock (.acquire .dbus)) => true
  | .queue e => e.continues
  | _ => false

/-- The requests that an event sends. -/
def ProcessEvent.sent : ProcessEvent → List Request
  | .send r => [r]
  | _ => []

namespace Process
variable {ramp : Instruction → Channels → ℕ} {s : Process}

/-- No thread can go on. -/
def Still (ramp : Instruction → Channels → ℕ) (s : Process) : Prop :=
  ∀ e : ProcessEvent, e.works → s.step ramp e = none

/-- An event of the queue that can happen does so, if it is permitted. -/
theorem Still.queue (h : s.Still ramp) {x : NotifyEvent DaemonAction Caller}
    (hworks : ProcessEvent.works (.queue x)) (hpermits : s.permits x = true) :
    s.queue.step x = none := by
  have hnone : s.step ramp (.queue x) = none := h _ hworks
  unfold step at hnone
  simp only [if_pos hpermits] at hnone
  exact Option.map_eq_none_iff.mp hnone

/-- What the queue does by itself is permitted, but for what a thread adds and for the start of
the loop. -/
theorem permits_of_continues {x : NotifyEvent DaemonAction Caller} (hx : x.continues = true)
    (hsome : (s.queue.step x).isSome) :
    s.permits x = true ∨ (∃ t, s.queue.locked.owner = some (.adding t)) ∨
      x = .lock (.main .setRunning) := by
  cases x with
  | notifyOne => exact .inl rfl
  | lock x =>
    cases x with
    | acquire t => cases hx
    | main e =>
      cases e with
      | setRunning => exact .inr (.inr rfl)
      | _ => exact .inl rfl
    | add call =>
      refine .inr (.inl ?_)
      obtain ⟨queue, hqueue⟩ := Option.isSome_iff_exists.mp hsome
      cases NotifiedDaemon.step_effect hqueue with
      | holds _ locked _ hlocked _ | releases _ locked _ _ hlocked _ =>
        cases LockedDaemon.step_effect hlocked with
        | add t call daemon howner => exact ⟨t, howner⟩
    | flushReturns n | signal => cases hx
    | release | handlerLocks | handlerPushes | handlerUnlocks => exact .inl rfl

/-- At the start of its loop the main thread has no mutex and no signal handler on top. -/
theorem setRunning_enabled (hsome : (s.queue.step (.lock (.main .setRunning))).isSome) :
    s.queue.locked.handler = .idle ∧ s.queue.locked.dequeue = .outside := by
  obtain ⟨queue, hqueue⟩ := Option.isSome_iff_exists.mp hsome
  cases NotifiedDaemon.step_effect hqueue with
  | holds _ locked _ hlocked _ | releases _ locked _ _ hlocked _ =>
    cases LockedDaemon.step_effect hlocked with
    | main _ hidle he =>
      cases he with
      | setRunning daemon hdequeue => exact ⟨hidle, hdequeue⟩

/-- A thread that has the mutex adds its action, notifies the main thread and releases the
mutex. -/
theorem Still.not_adding (h : s.Still ramp) (hs : s.Lively) (t : Caller) :
    s.queue.locked.owner ≠ some (.adding t) := by
  intro howner
  have hadd (call : QueueCall DaemonAction) (daemon : Daemon DaemonAction)
      (hdaemon : s.queue.locked.daemon.step call.event = some daemon)
      (hpermits : s.permits (.lock (.add call)) = true) : False := by
    have hnone := h.queue (x := .lock (.add call)) rfl hpermits
    unfold NotifiedDaemon.step LockedDaemon.step at hnone
    simp [LockEvent.releases, howner, LockedDaemon.act, hdaemon] at hnone
  cases t with
  | dbus =>
    obtain ⟨hasked, hhanded⟩ := hs.adding howner
    obtain ⟨a, ha⟩ := s.leds.asked_cases.resolve_left hasked
    refine hadd (.enqueueAction a) _ rfl ?_
    have hheld : s.queue.locked.heldByDBus = true := by
      unfold LockedDaemon.heldByDBus
      rw [howner]
    simp [permits, hheld, ha, hhanded]
  | other n =>
    -- such a thread calls `flush` or `stop`, which never wait for anything here
    refine hadd .stop _ rfl ?_
    have hheld : s.queue.locked.heldByDBus = false := by
      unfold LockedDaemon.heldByDBus
      rw [howner]
    simp [permits, hheld]

theorem Still.not_added (h : s.Still ramp) (t : Caller) :
    s.queue.locked.owner ≠ some (.added t) := by
  intro howner
  cases hnotified : s.queue.notified with
  | true =>
    have hnone := h.queue (x := .lock .release) rfl rfl
    unfold NotifiedDaemon.step LockedDaemon.step at hnone
    simp [hnotified, howner] at hnone
  | false =>
    have hnone := h.queue (x := .notifyOne) rfl rfl
    have hadded : s.queue.locked.hasAdded = true := by
      unfold LockedDaemon.hasAdded
      rw [howner]
    unfold NotifiedDaemon.step at hnone
    simp only [hadded, hnotified, Bool.not_false, Bool.and_true, if_true] at hnone
    split at hnone <;> cases hnone

/-- The mutex is free, and the main thread is where it waits for an action or has left the loop,
unless it has not come to its loop. -/
theorem Still.queue_rests (h : s.Still ramp) (hs : s.Lively) :
    s.queue.locked.owner = none ∧ s.queue.locked.handler = .idle ∧
      (s.queue.Resting ∨ (s.queue.step (.lock (.main .setRunning))).isSome) := by
  have hmain := NotifiedDaemon.enabled_or_resting hs.live.wakeful hs.live.consistent hs.live.placed
  have hcases : s.queue.Resting ∨ (s.queue.step (.lock (.main .setRunning))).isSome := by
    rcases hmain with ⟨x, hx, hsome⟩ | hresting
    · rcases permits_of_continues hx hsome with hpermits | ⟨t, howner⟩ | rfl
      · have hworks : ProcessEvent.works (.queue x) := by
          cases x with
          | notifyOne => rfl
          | lock x =>
            cases x with
            | acquire t => cases hx
            | _ => exact hx
        rw [h.queue hworks hpermits] at hsome
        cases hsome
      · exact absurd howner (h.not_adding hs t)
      · exact .inr hsome
    · exact .inl hresting
  rcases hcases with hresting | hsome
  · exact ⟨hresting.1, hresting.2.1, .inl hresting⟩
  · obtain ⟨hidle, hdequeue⟩ := setRunning_enabled hsome
    refine ⟨?_, hidle, .inr hsome⟩
    cases howner : s.queue.locked.owner with
    | none => rfl
    | some holder =>
      cases holder with
      | adding t => exact absurd howner (h.not_adding hs t)
      | added t => exact absurd howner (h.not_added t)
      | main =>
        have hholds := hs.live.consistent.owner.mp howner
        rw [hdequeue] at hholds
        cases hholds
      | handler =>
        rcases hs.live.wakeful.handler.mp howner with hpushing | hunlocking
        · exact absurd (hidle.symm.trans hpushing) nofun
        · exact absurd (hidle.symm.trans hunlocking) nofun

/-- Connman has answered all that was asked of it, and the watcher has heard it. -/
theorem Still.watcher (h : s.Still ramp) (hs : s.Lively) :
    s.watcher.Started ∧ s.watcher.Quiet := by
  refine hs.replying.at_rest fun e he => ?_
  have hnone := h (.connman e) he
  cases e with
  | answer before after => exact Option.map_eq_none_iff.mp hnone
  | arrive | proceed | dispatch => exact Option.map_eq_none_iff.mp hnone
  | change | changeOther | daemon => cases he

/-- A callback returns, or acquires the mutex for its action. -/
theorem Still.no_callback (h : s.Still ramp) (hsound : s.Sound) (hs : s.Lively) :
    s.leds.current = none := by
  obtain ⟨howner, -, -⟩ := h.queue_rests hs
  have hheld : s.queue.locked.heldByDBus = false := by
    unfold LockedDaemon.heldByDBus
    rw [howner]
  cases hj : s.leds.current with
  | none => rfl
  | some j =>
    obtain ⟨leds, hleds⟩ := LEDsLoop.finish_enabled hsound.hosted hs.alive hj
    have hwaits : ¬(s.leds.asked = [] ∨ s.handed = true ∧ s.queue.locked.heldByDBus = false) := by
      intro hdone
      have hnone : s.step ramp .finish = none := h .finish rfl
      unfold step at hnone
      simp only [if_pos hdone, hleds] at hnone
      cases hnone
    obtain ⟨hasked, hhanded⟩ := not_or.mp hwaits
    simp only [hheld, and_true, Bool.not_eq_true] at hhanded
    -- the callback has not handed over its action, so it goes for the mutex
    have hnone := h.queue (x := .lock (.acquire .dbus)) rfl (by simp [permits, hasked, hhanded])
    unfold NotifiedDaemon.step LockedDaemon.step at hnone
    simp [LockEvent.releases, howner] at hnone

/-- The event loop has been constructed and has nothing to run. -/
theorem Still.loop_idle (h : s.Still ramp) (hsound : s.Sound) (hs : s.Lively) :
    s.leds.loop.point = .polling ∧ s.leds.loop.Idle ∧ s.leds.loop.phase ≠ .constructing := by
  rcases LEDsLoop.enabled_or_idle hsound.hosted hsound.coherent hs.alive with
    ⟨e, he, leds, hleds⟩ | ⟨j, hj⟩ | hidle
  · have hworks : ProcessEvent.works (.loop e) := by
      cases e with
      | tick => exact absurd rfl he
      | _ => rfl
    have hnone : (s.leds.step (.loop e)).map (fun leds => { s with leds }) = none := h _ hworks
    rw [hleds] at hnone
    cases hnone
  · rw [h.no_callback hsound hs] at hj
    cases hj
  · exact hidle

/-- The main thread has come back from its call. -/
theorem Still.not_awaiting (h : s.Still ramp) (hsound : s.Sound) (hs : s.Lively) :
    s.awaited = none := by
  obtain ⟨-, hhandler, -⟩ := h.queue_rests hs
  obtain ⟨-, hidle, -⟩ := h.loop_idle hsound hs
  cases hawaited : s.awaited with
  | none => rfl
  | some call =>
    obtain ⟨n, c⟩ := call
    rcases hs.called n c hawaited with hpending | hvalue
    · -- a call that is not done would be run
      obtain ⟨source, hsource, -, rfl⟩ := (hsound.coherent.kept.pending n).mp hpending
      rw [hsound.coherent.phased.stray hsound.hosted.carries.alive, List.append_nil] at hsource
      obtain ⟨j, hj, hfits⟩ := hsound.hosted.carries.fits source hsource
      obtain rfl := Option.some.inj (hj.symm.trans (hsound.awaited _ c hawaited))
      obtain ⟨due, hdue, -⟩ := hidle source hsource
      exact absurd (hdue.symm.trans hfits.2) nofun
    · have hnone : s.step ramp .returned = none := h .returned rfl
      unfold step at hnone
      simp only [hawaited, hhandler, if_pos hvalue] at hnone
      cases hnone

/-- The event loop takes in what the main thread calls. -/
theorem enqueue_enabled (hopen : s.leds.loop.phase ≠ .constructing) {x : ObjectEvent}
    (hx : x.fromBus = false) :
    s.leds.step (.enqueue x) = some (s.leds.attached .idle (.call x)) := by
  unfold LEDsLoop.step EventLoop.step
  simp [hx, hopen, LEDsLoop.attached]

/-- And when it has left its loop it has released all that it held. -/
theorem Still.released (h : s.Still ramp) (hsound : s.Sound) (hs : s.Lively)
    (hexited : s.daemon.point = .exited) : s.registrations = ∅ := by
  obtain ⟨-, hhandler, -⟩ := h.queue_rests hs
  obtain ⟨-, -, hopen⟩ := h.loop_idle hsound hs
  apply Finset.eq_empty_iff_forall_notMem.mpr
  intro event hevent
  have hnone : s.step ramp (.beginRelease event) = none := h (.beginRelease event) rfl
  have hleds := enqueue_enabled hopen (x := .unregister event) rfl
  unfold step at hnone
  simp only [hexited, h.not_awaiting hsound hs, hhandler, if_pos hevent, begin_] at hnone
  rw [show MainCall.event (.release event) = .unregister event from rfl, hleds] at hnone
  cases hnone

/-- The daemon and the object have nothing to do until a request comes in, a timer runs out or
something changes at connman. -/
structure Rested (s : Process) : Prop where
  started : s.watcher.Started
  quiet : s.watcher.Quiet
  setup : s.setup = []
  released : s.daemon.point = .exited → s.registrations = ∅
  returned : s.awaited = none
  queue : s.queue.Resting
  polling : s.leds.loop.point = .polling
  idle : s.leds.loop.Idle
  constructed : s.leds.loop.phase ≠ .constructing

theorem Rested.no_callback (h : s.Rested) : s.leds.current = none := by
  unfold LEDsLoop.current
  rw [h.polling]

theorem Rested.nothing_asked (h : s.Rested) : s.leds.asked = [] := by
  unfold LEDsLoop.asked
  rw [h.no_callback]

theorem Rested.device_leds (h : s.Rested) (hsound : s.Sound) : s.device.leds = s.leds.view := by
  change s.object = s.leds.view
  have hhanded : s.handed = false := by
    by_contra hhanded
    exact hsound.handing (Bool.eq_true_of_not_eq_false hhanded) h.nothing_asked
  unfold object
  rw [hhanded]
  rfl

theorem Rested.answered (h : s.Rested) (hsound : s.Sound) {powered : Technology → Bool}
    {pc : UInt32} {sent : List Request} (hfollows : s.device.Follows ramp powered pc sent) :
    s.leds.leds.answered.map Prod.fst = sent := by
  have hsent := hfollows.sent
  rw [h.device_leds hsound] at hsent
  rw [← hsent]
  change _ = _ ++ s.leds.inbox
  rw [LEDsLoop.inbox_of_idle h.idle, List.append_nil]
  rfl

end Process

end GemianLeds
