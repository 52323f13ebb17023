import GemianLeds.System.Process
import GemianLeds.System.Following

/-! The threads of the daemon, with their waiting and locking, do what the daemon does when calls
on the event loop and of the action queue happen at once. A callback of the event loop counts as
done when it has added its action to the queue. -/
namespace GemianLeds
open Interaction

/-- What comes from outside, and what is done about it on the main thread. -/
def DeviceEvent.seen : DeviceEvent → List DeviceEvent
  | .connman e => [.connman e]
  | .bus (.send r) => [.bus (.send r)]
  | .queue e => [.queue e]
  | .tick => [.tick]
  | _ => []

def ProcessEvent.seen : ProcessEvent → List DeviceEvent
  | .connman e => [.connman e]
  | .send r => [.bus (.send r)]
  | .queue e => bif e.hands then [] else e.daemonEvents.map .queue
  | .tick => [.tick]
  | _ => []

theorem ProcessEvent.seen_queue (e : NotifyEvent DaemonAction Caller) :
    seen (.queue e) = bif e.hands then [] else e.daemonEvents.map .queue := rfl

namespace NotifyEvent
variable {α τ : Type} (e : NotifyEvent α τ)

theorem daemonEvents_cases : e.daemonEvents = [] ∨ ∃ x, e.daemonEvents = [x] := by
  cases e with
  | notifyOne => exact .inl rfl
  | lock e =>
    cases e with
    | main e => cases e <;> first | exact .inl rfl | exact .inr ⟨_, rfl⟩
    | add call => exact .inr ⟨call.event, rfl⟩
    | flushReturns n | handlerPushes => exact .inr ⟨_, rfl⟩
    | acquire t | release | signal | handlerLocks | handlerUnlocks => exact .inl rfl

theorem hands_of_enqueueAction {a : α} (h : e.daemonEvents = [.enqueueAction a]) :
    e.hands = true := by
  cases e with
  | notifyOne => cases h
  | lock e =>
    cases e with
    | main e => cases e <;> cases h
    | add call =>
      cases call with
      | enqueueAction a => rfl
      | flush n | stop => cases h
    | _ => cases h

theorem eq_of_setRunning (h : e.daemonEvents = [.setRunning]) : e = .lock (.main .setRunning) := by
  cases e with
  | notifyOne => cases h
  | lock e =>
    cases e with
    | main e =>
      cases e with
      | setRunning => rfl
      | _ => cases h
    | add call => cases call <;> cases h
    | _ => cases h

end NotifyEvent

namespace Device
variable {ramp : Instruction → Channels → ℕ} {s s' : Device}

theorem step_connman {e : WatcherEvent} (he : ∀ action, e ≠ .daemon action) :
    s.step ramp (.connman e) = (s.watcher.step e).map fun watcher =>
      { s.write ((s.watcher.calls e).map .watcher) with watcher } := by
  cases e with
  | daemon action => exact absurd rfl (he action)
  | _ => rfl

theorem step_queue {e : DaemonEvent DaemonAction} (he : ∀ action, e ≠ .enqueueAction action)
    (hsetup : e = .setRunning → s.setup = []) :
    s.step ramp (.queue e) = (s.daemon.step e).map fun daemon =>
      { s.write ((s.daemon.performs e).map .daemon) with
        daemon
        watcher :=
          { s.watcher with
            light := runOps s.watcher.light ((s.daemon.performs e).map .daemon) } } := by
  cases e with
  | enqueueAction action => exact absurd rfl (he action)
  | setRunning => exact if_neg fun hnot => hnot.2 (hsetup rfl)
  | _ => rfl

theorem step_bus {e : ObjectEvent} (he : e.fromBus) {leds : LEDs} {actions : List DaemonAction}
    (h : s.leds.step e = some (leds, actions)) :
    s.step ramp (.bus e) = some { s with leds, daemon := s.daemon.enqueueAll actions } := by
  refine (if_pos he).trans ?_
  rw [h]
  rfl

end Device

namespace Process
variable {ramp : Instruction → Channels → ℕ} {s s' : Process}

/-- What is left of the set-up and of the registrations before a call that has been begun. -/
def before (s : Process) : MainCall → List Setup × Finset LEDsEvent
  | .setUp x => (x :: s.setup, s.registrations)
  | .release event => (s.setup, insert event s.registrations)

/-- What is left of them, the call under way included as long as its callback has not returned. -/
def left (s : Process) : List Setup × Finset LEDsEvent :=
  match s.awaited with
  | some (n, c) =>
      if s.leds.loop.promises[n]? = some .pending then s.before c
      else (s.setup, c.keeps s.registrations)
  | none => (s.setup, s.registrations)

/-- The object, with the callback that has handed over its action. -/
def object (s : Process) : LEDs := bif s.handed then s.leds.ahead else s.leds.view

/-- The device whose main thread has this left to do, with this object. -/
def deviceWith (s : Process) (left : List Setup × Finset LEDsEvent) (leds : LEDs) : Device where
  watcher := s.watcher
  setup := left.1
  registrations := left.2
  leds := leds
  daemon := s.daemon
  board := s.board
  performed := s.performed

def device (s : Process) : Device := s.deviceWith s.left s.object

theorem left_eq (hs : s.Sound) (leds : LEDsLoop) (handed : Bool)
    (hkept : ∀ n c p, s.awaited = some (n, c) → s.leds.loop.promises[n]? = some p →
      leds.loop.promises[n]? = some p) :
    left { s with leds, handed } = s.left := by
  unfold left
  simp only
  cases hawaited : s.awaited with
  | none => rfl
  | some call =>
    obtain ⟨n, c⟩ := call
    have hlt := (List.getElem?_eq_some_iff.mp (hs.awaited n c hawaited)).1
    rw [hs.hosted.carries.length] at hlt
    have hpromise := List.getElem?_eq_getElem hlt
    simp only [hkept n _ _ hawaited hpromise, hpromise]
    rfl

theorem left_undisturbed (hs : s.Sound) {leds : LEDsLoop} (handed : Bool)
    (h : s.leds.Undisturbed leds) : left { s with leds, handed } = s.left := by
  apply left_eq hs
  intro n c p hawaited hp
  obtain ⟨rest, hrest⟩ := h.promises
  rw [← hrest, List.getElem?_append_left (List.getElem?_eq_some_iff.mp hp).1]
  exact hp

theorem device_eq {s s' : Process} (hwatcher : s'.watcher = s.watcher)
    (hleft : s'.left = s.left) (hobject : s'.object = s.object)
    (hdaemon : s'.daemon = s.daemon) (hboard : s'.board = s.board)
    (hperformed : s'.performed = s.performed) : s'.device = s.device := by
  unfold device deviceWith
  rw [hwatcher, hleft, hobject, hdaemon, hboard, hperformed]

/-- As long as the history of the object does not grow. -/
theorem object_undisturbed (hs : s.Sound) {leds : LEDsLoop} (h : s.leds.Undisturbed leds)
    (hview : leds.view = s.leds.view) : object { s with leds } = s.object := by
  unfold object
  cases hhanded : s.handed with
  | false => exact hview
  | true => exact h.ahead (hs.handing hhanded) hview

theorem begins_device (hs : s.Sound) (hfree : s.awaited = none) {c : MainCall}
    {setup : List Setup} {registrations : Finset LEDsEvent} (hc : Begins s c setup registrations)
    {leds : LEDsLoop} (h : s.leds.step (.enqueue c.event) = some leds) :
    device
        { s with
          setup
          registrations
          leds
          awaited := some (s.leds.loop.promises.length, c) } =
      s.device := by
  have hne : LEDsLoopEvent.enqueue c.event ≠ .finish := nofun
  have hkept := LEDsLoop.step_undisturbed hs.hosted hne h
  have hhosted := LEDsLoop.step_hosted hs.hosted h
  obtain ⟨-, -, heq⟩ := LEDsLoop.eq_of_enqueue h
  have hhistory : leds.history = s.leds.history := by
    rw [heq]
    rfl
  have hview := LEDsLoop.view_of_history hs.hosted hhosted hhistory
  refine device_eq rfl ?_ (object_undisturbed hs hkept hview) rfl rfl rfl
  unfold left
  rw [hfree]
  refine (if_pos (LEDsLoop.enqueue_pending h)).trans ?_
  cases hc with
  | setUp x setup hsetup hstarted => exact congrArg (·, s.registrations) hsetup.symm
  | release event hpoint hevent => exact congrArg (s.setup, ·) (Finset.insert_erase hevent)

/-- Nothing happens to the daemon. -/
theorem stutters {e : ProcessEvent} (hdevice : s'.device = s.device) (he : e.seen = []) :
    ∃ events, runFrom (Device.step ramp) s.device events = some s'.device ∧
      events.flatMap DeviceEvent.seen = e.seen :=
  ⟨[], congrArg some hdevice.symm, he.symm⟩

theorem simulates_one {e : ProcessEvent} (x : DeviceEvent)
    (hstep : s.device.step ramp x = some s'.device) (hx : x.seen = e.seen) :
    ∃ events, runFrom (Device.step ramp) s.device events = some s'.device ∧
      events.flatMap DeviceEvent.seen = e.seen :=
  ⟨[x], (runFrom_singleton ..).trans hstep, (List.flatMap_singleton ..).trans hx⟩

theorem send_simulates (hs : s.Sound) {r : Request} {leds : LEDsLoop}
    (h : s.leds.step (.send r) = some leds) :
    s.device.step ramp (.bus (.send r)) = some (device { s with leds }) := by
  have hne : LEDsLoopEvent.send r ≠ .finish := nofun
  have hkept := LEDsLoop.step_undisturbed hs.hosted hne h
  have hobject : s.object.step (.send r) = some (object { s with leds }, []) := by
    unfold object
    cases hhanded : s.handed with
    | true => exact LEDsLoop.send_ahead hs.hosted (hs.handing hhanded) h
    | false =>
      obtain ⟨hobject, hview⟩ := LEDsLoop.send_view hs.hosted h
      change s.leds.view.step (.send r) = some (leds.view, [])
      rw [hview]
      exact if_pos hobject
  have hdevice : device { s with leds } =
      { s.device with leds := object { s with leds } } :=
    congrArg (s.deviceWith · (object { s with leds })) (left_undisturbed hs s.handed hkept)
  rw [hdevice]
  exact congrArg (Option.map _) hobject

/-- A callback returns that is not a call of the main thread. -/
theorem left_finish (hs : s.Sound) {leds : LEDsLoop} {j : ObjectJob}
    (hj : s.leds.current = some j) (hother : ∀ x, j ≠ .call x)
    (h : s.leds.step .finish = some leds) (handed : Bool) :
    left { s with leds, handed } = s.left := by
  apply left_eq hs
  intro n c p hawaited hp
  obtain ⟨source, batch, hpoint, hjob⟩ := LEDsLoop.current_eq_some hj
  refine LEDsLoop.finish_promise_other hpoint h ?_ hp
  rintro rfl
  exact hother c.event (Option.some.inj (hjob.symm.trans (hs.awaited _ c hawaited)))

/-- The call that the main thread waits for is done. -/
theorem call_simulates (hs : s.Sound) {leds : LEDsLoop} {x : ObjectEvent}
    (hj : s.leds.current = some (.call x)) (hhanded : s.handed = false)
    (hasked : s.leds.asked = []) (h : s.leds.step .finish = some leds) :
    ∃ e : DeviceEvent, s.device.step ramp e = some (device { s with leds, handed := false }) ∧
      e.seen = [] := by
  obtain ⟨source, batch, hpoint, hjob⟩ := LEDsLoop.current_eq_some hj
  have hfits := hs.hosted.carries.calling hpoint
  obtain ⟨j, hjob', hfits⟩ := hfits
  obtain rfl := Option.some.inj (hjob.symm.trans hjob')
  have hpromise : source.kind.hasPromise := by
    rw [hfits.2]
    rfl
  have hmem := List.mem_append_left s.leds.loop.stray (hs.hosted.carries.sound.mem_calling hpoint)
  have hpending := (hs.coherent.kept.pending source.number).mpr ⟨source, hmem, hpromise, rfl⟩
  obtain ⟨c, hawaited⟩ := hs.calls source.number x hjob hpending
  obtain rfl := ObjectJob.call.inj
    (Option.some.inj (hjob.symm.trans (hs.awaited source.number c hawaited)))
  have hset := LEDsLoop.finish_promise_call hs.hosted hpoint hjob h
  have hview := (LEDsLoop.finish_view hs.hosted h hj).2 _ rfl
  rw [hasked] at hview
  have hobject : s.object = s.leds.view := by
    unfold object
    rw [hhanded]
    rfl
  have hbefore : s.left = s.before c := by
    unfold left
    simp only [hawaited, hpending, if_true]
  have hafter : left { s with leds, handed := false } = (s.setup, c.keeps s.registrations) := by
    unfold left
    simp only [hawaited]
    refine if_neg fun hnot => ?_
    exact absurd (hset.symm.trans hnot) nofun
  have hdevice : device { s with leds, handed := false } =
      { s.device with
        setup := s.setup
        registrations := c.keeps s.registrations
        leds := leds.view } :=
    congrArg (s.deviceWith · leds.view) hafter
  rw [hdevice]
  cases c with
  | setUp y =>
    refine ⟨.setUp, ?_, rfl⟩
    have hsetup : s.device.setup = y :: s.setup := congrArg Prod.fst hbefore
    have hregistrations : s.device.registrations = s.registrations := congrArg Prod.snd hbefore
    have hstarted : s.device.watcher.Started := hs.begun _ _ hawaited
    unfold Device.step
    simp only [hsetup, if_pos hstarted, hregistrations]
    change (s.object.step y.event).map _ = _
    rw [hobject, show s.leds.view.step y.event = _ from hview]
    rfl
  | release event =>
    refine ⟨.release event, ?_, rfl⟩
    obtain ⟨hpoint', hbegun⟩ := hs.releasing _ _ hawaited
    have hsetup : s.device.setup = s.setup := congrArg Prod.fst hbefore
    have hregistrations : s.device.registrations = insert event s.registrations :=
      congrArg Prod.snd hbefore
    have hexited : s.device.daemon.point = .exited := hpoint'
    have hevent : event ∈ s.device.registrations := by
      rw [hregistrations]
      exact Finset.mem_insert_self event s.registrations
    have herase : s.device.registrations.erase event = s.registrations := by
      rw [hregistrations]
      exact Finset.erase_insert hbegun
    unfold Device.step
    simp only [hexited, if_pos hevent, herase]
    change (s.object.step (.unregister event)).map _ = _
    rw [hobject, show s.leds.view.step (.unregister event) = _ from hview, ← hsetup]
    rfl

/-- A callback of the bus returns that has had nothing to hand over. -/
theorem bus_simulates (hs : s.Sound) {leds : LEDsLoop} {j : ObjectJob} {x : ObjectEvent}
    (hx : x.fromBus) (hj : s.leds.current = some j) (hevent : j.event? = some x)
    (hhanded : s.handed = false) (hasked : s.leds.asked = [])
    (h : s.leds.step .finish = some leds) :
    s.device.step ramp (.bus x) = some (device { s with leds, handed := false }) := by
  have hview := (LEDsLoop.finish_view hs.hosted h hj).2 x hevent
  rw [hasked] at hview
  have hother (y : ObjectEvent) : j ≠ .call y := by
    rintro rfl
    obtain rfl := Option.some.inj hevent
    obtain ⟨source, batch, hpoint, hjob⟩ := LEDsLoop.current_eq_some hj
    obtain ⟨j, hjob', hfits⟩ := hs.hosted.carries.calling hpoint
    obtain rfl := Option.some.inj (hjob.symm.trans hjob')
    exact absurd (hfits.1.symm.trans hx) nofun
  have hdevice : device { s with leds, handed := false } = { s.device with leds := leds.view } :=
    congrArg (s.deviceWith · leds.view) (left_finish hs hj hother h false)
  have hobject : s.device.leds = s.leds.view := by
    change s.object = _
    unfold object
    rw [hhanded]
    rfl
  rw [hdevice]
  exact Device.step_bus hx (by rw [hobject]; exact hview)

theorem finish_simulates (hs : s.Sound) {leds : LEDsLoop}
    (hdone : s.leds.asked = [] ∨ s.handed = true ∧ s.queue.locked.heldByDBus = false)
    (h : s.leds.step .finish = some leds) :
    ∃ events, runFrom (Device.step ramp) s.device events =
        some (device { s with leds, handed := false }) ∧ events.flatMap DeviceEvent.seen = [] := by
  have hfinish := h
  rw [LEDsLoop.step_finish] at hfinish
  obtain ⟨j, hj, -⟩ := Option.bind_eq_some_iff.mp hfinish
  have hahead := LEDsLoop.finish_ahead hs.hosted h
  cases hhanded : s.handed with
  | true =>
    -- it was done when the action was added
    have hother (x : ObjectEvent) : j ≠ .call x := by
      rintro rfl
      apply hs.handing hhanded
      unfold LEDsLoop.asked
      rw [hj]
    have hobject : object { s with leds, handed := false } = s.object := by
      unfold object
      rw [hhanded]
      exact hahead
    exact ⟨[], congrArg some (device_eq rfl (left_finish hs hj hother h false).symm
      hobject.symm rfl rfl rfl), rfl⟩
  | false =>
    have hasked : s.leds.asked = [] := by
      rcases hdone with hasked | ⟨hnot, -⟩
      · exact hasked
      · exact absurd (hhanded.symm.trans hnot) nofun
    have hone {e : DeviceEvent}
        (hstep : s.device.step ramp e = some (device { s with leds, handed := false }))
        (he : e.seen = []) : ∃ events, runFrom (Device.step ramp) s.device events =
          some (device { s with leds, handed := false }) ∧
            events.flatMap DeviceEvent.seen = [] :=
      ⟨[e], (runFrom_singleton ..).trans hstep, (List.flatMap_singleton ..).trans he⟩
    cases j with
    | nothing =>
      have hobject : object { s with leds, handed := false } = s.object := by
        unfold object
        rw [hhanded]
        exact (LEDsLoop.finish_view hs.hosted h hj).1 rfl
      exact ⟨[], congrArg some (device_eq rfl (left_finish hs hj nofun h false).symm
        hobject.symm rfl rfl rfl), rfl⟩
    | call x =>
      obtain ⟨e, hstep, he⟩ := call_simulates hs hj hhanded hasked h
      exact hone hstep he
    | request r => exact hone (bus_simulates hs rfl hj rfl hhanded hasked h) rfl
    | torchOff n => exact hone (bus_simulates hs rfl hj rfl hhanded hasked h) rfl

/-- The callback under way adds its action to the queue. -/
theorem hands_simulates (hs : s.Sound) {a : DaemonAction} (hasked : s.leds.asked = [a])
    (hhanded : s.handed = false) {queue : NotifiedDaemon DaemonAction Caller}
    (hqueue : s.daemon.step (.enqueueAction a) = some queue.locked.daemon) :
    ∃ e : DeviceEvent,
      s.device.step ramp e = some (device { s with queue, handed := true }) ∧ e.seen = [] := by
  have hsome : s.leds.asked ≠ [] := by
    rw [hasked]
    exact List.cons_ne_nil _ _
  obtain ⟨x, hx, -, hstep⟩ := LEDsLoop.step_asked hs.hosted hsome
  have hbus : x.fromBus := by
    rcases hx with rfl | ⟨n, rfl⟩ <;> rfl
  have hobject : s.device.leds = s.leds.view := by
    change s.object = _
    unfold object
    rw [hhanded]
    rfl
  have hdaemon : queue.locked.daemon = s.daemon.enqueueAll [a] := (Option.some.inj hqueue).symm
  refine ⟨.bus x, ?_, ?_⟩
  · rw [← hobject, hasked] at hstep
    rw [Device.step_bus hbus hstep]
    unfold device deviceWith daemon
    rw [hdaemon]
    rfl
  · rcases hx with rfl | ⟨n, rfl⟩ <;> rfl

/-- No operation is performed. -/
theorem queue_idle (s : Process) (queue : NotifiedDaemon DaemonAction Caller) (handed : Bool) :
    { s.write [] with
        queue
        handed
        watcher := { s.watcher with light := runOps s.watcher.light [] } } =
      { s with queue, handed } := by
  unfold write
  rw [List.append_nil]
  rfl

theorem queue_simulates (hs : s.Sound) {e : NotifyEvent DaemonAction Caller}
    {queue : NotifiedDaemon DaemonAction Caller} (hpermits : s.permits e = true)
    (h : s.queue.step e = some queue) :
    ∃ events, runFrom (Device.step ramp) s.device events = some (device
        { s.write ((e.daemonEvents.flatMap s.daemon.performs).map .daemon) with
          queue
          handed := s.handed || e.hands
          watcher :=
            { s.watcher with
              light := runOps s.watcher.light
                ((e.daemonEvents.flatMap s.daemon.performs).map .daemon) } }) ∧
      events.flatMap DeviceEvent.seen = ProcessEvent.seen (.queue e) := by
  have hrun := NotifiedDaemon.step_refines h
  rw [ProcessEvent.seen_queue]
  cases hhands : e.hands with
  | true =>
    obtain ⟨a, rfl⟩ := NotifyEvent.hands_eq_true hhands
    obtain ⟨hasked, hhanded⟩ := permits_hands hpermits
    rw [show NotifyEvent.daemonEvents _ = [DaemonEvent.enqueueAction a] from rfl,
      runFrom_singleton] at hrun
    obtain ⟨x, hstep, hx⟩ := @hands_simulates ramp s hs a hasked hhanded queue hrun
    refine ⟨[x], ?_, (List.flatMap_singleton ..).trans hx⟩
    rw [runFrom_singleton, hstep, Bool.or_true]
    exact congrArg (some ∘ device) (queue_idle s queue true).symm
  | false =>
    rw [Bool.or_false]
    rcases e.daemonEvents_cases with hnone | ⟨x, hx⟩
    · rw [hnone] at hrun ⊢
      refine ⟨[], congrArg some ?_, rfl⟩
      have hdaemon : queue.locked.daemon = s.daemon := (Option.some.inj hrun).symm
      have hsame : device { s with queue, handed := s.handed } = s.device :=
        device_eq rfl rfl rfl hdaemon rfl rfl
      rw [← hsame]
      exact congrArg device (queue_idle s queue s.handed).symm
    · rw [hx, runFrom_singleton] at hrun
      rw [hx, List.flatMap_singleton]
      have hother (action : DaemonAction) : x ≠ .enqueueAction action := by
        rintro rfl
        exact Bool.false_ne_true (hhands.symm.trans (e.hands_of_enqueueAction hx))
      have hsetup : x = .setRunning → s.device.setup = [] := by
        rintro rfl
        obtain rfl := e.eq_of_setRunning hx
        obtain ⟨hsetup, hfree⟩ := permits_setRunning hpermits
        change s.left.1 = []
        unfold left
        rw [hfree]
        exact hsetup
      refine ⟨[.queue x], ?_, rfl⟩
      rw [runFrom_singleton, Device.step_queue hother hsetup]
      exact congrArg (Option.map _) hrun

theorem step_simulates {e : ProcessEvent} (hs : s.Sound) (h : s.step ramp e = some s') :
    ∃ events, runFrom (Device.step ramp) s.device events = some s'.device ∧
      events.flatMap DeviceEvent.seen = e.seen := by
  cases step_effect h with
  | connman e watcher he hwatcher hs' =>
    subst hs'
    apply simulates_one (.connman e) _ rfl
    rw [Device.step_connman he]
    exact congrArg (Option.map _) hwatcher
  | begins e c setup registrations leds he hfree hc hleds hs' =>
    subst hs'
    apply stutters (begins_device hs hfree hc hleds)
    rcases he with rfl | ⟨event, rfl⟩ <;> rfl
  | returned n c hawaited hready hs' =>
    subst hs'
    refine stutters (device_eq rfl ?_ rfl rfl rfl rfl) rfl
    unfold left
    rw [hawaited]
    refine (if_neg fun hpending => ?_).symm
    exact absurd (hready.symm.trans hpending) nofun
  | send r leds hleds hs' =>
    subst hs'
    exact simulates_one (.bus (.send r)) (send_simulates hs hleds) rfl
  | loop e leds hleds hs' =>
    subst hs'
    have hne : LEDsLoopEvent.loop e ≠ .finish := nofun
    have hkept := LEDsLoop.step_undisturbed hs.hosted hne hleds
    have hhosted := LEDsLoop.step_hosted hs.hosted hleds
    obtain ⟨-, loop, -, rfl⟩ := LEDsLoop.eq_of_loop hleds
    have hview := LEDsLoop.view_of_history hs.hosted hhosted rfl
    exact stutters (device_eq rfl (left_undisturbed hs s.handed hkept)
      (object_undisturbed hs hkept hview) rfl rfl rfl) rfl
  | finish leds hdone hleds hs' =>
    subst hs'
    exact finish_simulates hs hdone hleds
  | queue e queue hpermits hqueue hs' =>
    subst hs'
    exact queue_simulates hs hpermits hqueue
  | tick hs' =>
    subst hs'
    exact simulates_one .tick rfl rfl

end Process

/-- The threads of the daemon refine the daemon as a whole: in every run of them in which operations
on the light state do not overlap, however else they are interleaved and wherever they wait, the
object on the bus, the action queue, the watcher, the light state and the chip go through the
states of a run in which every callback and every operation of the queue happens at once, with the
same messages, requests and calls from outside and the same steps of the main thread in its loop,
in the same order. -/
theorem threads_refine_device (ramp : Instruction → Channels → ℕ) (powered : Technology → Bool)
    (pc : UInt32) (b : Board) (events : List ProcessEvent) (s : Process)
    (h : runFrom (Process.step ramp) (.start powered pc b) events = some s) :
    ∃ events', runFrom (Device.step ramp) (.start powered pc b) events' = some s.device ∧
      events'.flatMap DeviceEvent.seen = events.flatMap ProcessEvent.seen :=
  runFrom_simulates Process.device h (Process.start_sound powered pc b) Process.step_sound
    Process.step_simulates

/-- The start of the daemon, until its main thread is asleep in `dequeue_action`. -/
def startThreads : List ProcessEvent :=
  let iterate : List ProcessEvent := [.loop .check, .loop (.poll []), .loop .dispatch, .finish,
    .loop .dispatch]
  let query : List ProcessEvent := [.connman .proceed, .connman (.answer [] []), .connman .arrive]
  let main (e : MainEvent) : ProcessEvent := .queue (.lock (.main e))
  [.loop .runLoop] ++ iterate ++ [.loop .constructed] ++ .replicate 3 (.connman .proceed) ++
    query ++ query ++ query ++ (List.replicate 7 (.beginSetUp :: iterate ++ [.returned])).flatten ++
    [main .setRunning, main .test, main .lock, main .testQueue]

/-- The caps lock LED is lit before the handler of the request has returned. -/
def litEarly : List ProcessEvent :=
  let main (e : MainEvent) : ProcessEvent := .queue (.lock (.main e))
  startThreads ++ [.send (.setCapsLock true), .loop .check, .loop (.poll []), .loop .dispatch,
    .queue (.lock (.acquire .dbus)), .queue (.lock (.add (.enqueueAction (.capsLock true)))),
    .queue .notifyOne, .queue (.lock .release), main .relock, main .testQueue, main .popFront,
    main .unlock, main .execute]

theorem threads_refine_device_early :
    ∃ s : Process,
      runFrom (Process.step fun _ _ => 0) (.start (fun _ => false) 0 .blank) litEarly = some s ∧
        s.watcher.light.capsLock = true ∧ s.leds.leds.answered = [] ∧
        ∃ events, runFrom (Device.step fun _ _ => 0) (.start (fun _ => false) 0 .blank) events =
            some s.device ∧
          events.flatMap DeviceEvent.seen = litEarly.flatMap ProcessEvent.seen := by
  have hrun : ((runFrom (Process.step fun _ _ => 0) (.start (fun _ => false) 0 .blank)
      litEarly).any fun s => s.watcher.light.capsLock = true ∧ s.leds.leds.answered = []) =
      true := by
    decide +kernel
  obtain ⟨s, hs, hchecked⟩ := (Option.any_eq_true _ _).mp hrun
  obtain ⟨hcapsLock, hanswered⟩ := of_decide_eq_true hchecked
  exact ⟨s, hs, hcapsLock, hanswered,
    threads_refine_device (fun _ _ => 0) (fun _ => false) 0 .blank litEarly s hs⟩

end GemianLeds
