import GemianLeds.DBus.Callbacks
import GemianLeds.Daemon.Flush
import GemianLeds.System.Device

/-! The running daemon with its threads: the main thread, which waits for its calls on the event
loop of the object, that loop with the callback it is in, and the action queue with its mutex and
its condition variable. As in a device, operations on the light state do not overlap; and the signal
handler runs on the main thread. -/
namespace GemianLeds
open Interaction

/-- Who uses the action queue besides the main thread: the event loop of the object, and any other
threads. -/
inductive Caller where
  | dbus
  | other (n : ℕ)

/-- What the main thread has called on the event loop, and waits for. -/
inductive MainCall where
  | setUp (x : Setup)
  | release (event : LEDsEvent)

def MainCall.event : MainCall → ObjectEvent
  | .setUp x => x.event
  | .release event => .unregister event

/-- The registrations that `run` holds when the call has returned. -/
def MainCall.keeps (registrations : Finset LEDsEvent) : MainCall → Finset LEDsEvent
  | .setUp x => x.keeps registrations
  | .release _ => registrations

/-- The event loop has the mutex of the action queue. -/
def LockedDaemon.heldByDBus {α : Type} (s : LockedDaemon α Caller) : Bool :=
  match s.owner with
  | some (.adding .dbus) | some (.added .dbus) => true
  | _ => false

/-- A thread adds the action of an event. -/
def NotifyEvent.hands {α τ : Type} : NotifyEvent α τ → Bool
  | .lock (.add (.enqueueAction _)) => true
  | _ => false

theorem NotifyEvent.hands_eq_true {α τ : Type} {e : NotifyEvent α τ} (h : e.hands = true) :
    ∃ a, e = .lock (.add (.enqueueAction a)) := by
  cases e with
  | notifyOne => cases h
  | lock e =>
    cases e with
    | add call =>
      cases call with
      | enqueueAction a => exact ⟨a, rfl⟩
      | flush n | stop => cases h
    | _ => cases h

structure Process where
  watcher : Watcher
  /-- What `run` has not begun of what it does before its loop. -/
  setup : List Setup
  /-- The registrations that it holds and has not begun to release. -/
  registrations : Finset LEDsEvent
  /-- The call that the main thread waits for, and the number of its source. -/
  awaited : Option (ℕ × MainCall)
  leds : LEDsLoop
  queue : NotifiedDaemon DaemonAction Caller
  /-- The callback under way has handed over its action. -/
  handed : Bool
  board : Board
  performed : List Op

inductive ProcessEvent where
  | connman (e : WatcherEvent)
  /-- The main thread begins the next call of the set-up, or the release of a registration, and
  comes back from it. -/
  | beginSetUp
  | beginRelease (event : LEDsEvent)
  | returned
  | send (r : Request)
  | loop (e : LoopEvent)
  | finish
  | queue (e : NotifyEvent DaemonAction Caller)
  /-- The chip executes a word. -/
  | tick

namespace Process

def daemon (s : Process) : Daemon DaemonAction := s.queue.locked.daemon

def start (powered : Technology → Bool) (programCounter : UInt32) (board : Board) : Process where
  watcher := .start powered programCounter
  setup := runSetup
  registrations := ∅
  awaited := none
  leds := .start
  queue := .new
  handed := false
  board := board
  performed := []

def write (s : Process) (ops : List Op) : Process :=
  { s with
    board := s.board.writes (opsWrites s.watcher.light ops)
    performed := s.performed ++ ops }

/-- `EventLoopHandlerRegistration`: the callback is enqueued, and its future waited for. -/
def begin_ (s : Process) (c : MainCall) : Option Process :=
  (s.leds.step (.enqueue c.event)).map fun leds =>
    { s with leds, awaited := some (s.leds.loop.promises.length, c) }

/-- The event loop uses the queue in a callback that hands over an action, and the other threads
for other calls. The main thread comes to its loop when the set-up is done. -/
def permits (s : Process) : NotifyEvent DaemonAction Caller → Bool
  | .lock (.acquire .dbus) => s.leds.asked ≠ [] && !s.handed
  | .lock (.add (.enqueueAction a)) =>
      s.queue.locked.heldByDBus && s.leds.asked = [a] && !s.handed
  | .lock (.add _) => !s.queue.locked.heldByDBus
  | .lock (.main .setRunning) => s.setup.isEmpty && s.awaited.isNone
  | _ => true

def step (ramp : Instruction → Channels → ℕ) (s : Process) : ProcessEvent → Option Process
  | .connman (.daemon _) => none
  | .connman e =>
      (s.watcher.step e).map fun watcher =>
        { s.write ((s.watcher.calls e).map .watcher) with watcher }
  -- the main thread stands still while the signal handler runs
  | .beginSetUp =>
      match s.setup, s.awaited, s.queue.locked.handler with
      | x :: setup, none, .idle =>
          if s.watcher.Started then ({ s with setup }).begin_ (.setUp x) else none
      | _, _, _ => none
  | .beginRelease event =>
      match s.daemon.point, s.awaited, s.queue.locked.handler with
      | .exited, none, .idle =>
          if event ∈ s.registrations then
            ({ s with registrations := s.registrations.erase event }).begin_ (.release event)
          else none
      | _, _, _ => none
  | .returned =>
      match s.awaited, s.queue.locked.handler with
      | some (n, c), .idle =>
          if s.leds.loop.promises[n]? = some .value then
            some { s with registrations := c.keeps s.registrations, awaited := none }
          else none
      | _, _ => none
  | .send r => (s.leds.step (.send r)).map fun leds => { s with leds }
  | .loop e => (s.leds.step (.loop e)).map fun leds => { s with leds }
  | .finish =>
      -- `enqueue_action` returns before the handler does
      if s.leds.asked = [] ∨ (s.handed = true ∧ s.queue.locked.heldByDBus = false) then
        (s.leds.step .finish).map fun leds => { s with leds, handed := false }
      else none
  | .queue e =>
      if s.permits e then
        (s.queue.step e).map fun queue =>
          let ops := (e.daemonEvents.flatMap s.daemon.performs).map Op.daemon
          { s.write ops with
            queue
            handed := s.handed || e.hands
            watcher := { s.watcher with light := runOps s.watcher.light ops } }
      else none
  | .tick => some { s with board := s.board.tick ramp }

variable {ramp : Instruction → Channels → ℕ} {s s' : Process}

/-- When the main thread may begin a call, and what is left then of the set-up and of the
registrations. -/
inductive Begins (s : Process) : MainCall → List Setup → Finset LEDsEvent → Prop where
  | setUp (x : Setup) (setup : List Setup) (hsetup : s.setup = x :: setup)
      (hstarted : s.watcher.Started) : Begins s (.setUp x) setup s.registrations
  | release (event : LEDsEvent) (hpoint : s.daemon.point = .exited)
      (hevent : event ∈ s.registrations) :
      Begins s (.release event) s.setup (s.registrations.erase event)

/-- Everything one event does. -/
inductive Effect (ramp : Instruction → Channels → ℕ) (s s' : Process) : ProcessEvent → Prop where
  | connman (e : WatcherEvent) (watcher : Watcher) (he : ∀ action, e ≠ .daemon action)
      (hwatcher : s.watcher.step e = some watcher)
      (hs : s' = { s.write ((s.watcher.calls e).map .watcher) with watcher }) :
      Effect ramp s s' (.connman e)
  | begins (e : ProcessEvent) (c : MainCall) (setup : List Setup)
      (registrations : Finset LEDsEvent) (leds : LEDsLoop)
      (he : e = .beginSetUp ∨ ∃ event, e = .beginRelease event) (hfree : s.awaited = none)
      (hc : Begins s c setup registrations) (hleds : s.leds.step (.enqueue c.event) = some leds)
      (hs : s' =
        { s with
          setup
          registrations
          leds
          awaited := some (s.leds.loop.promises.length, c) }) :
      Effect ramp s s' e
  | returned (n : ℕ) (c : MainCall) (hawaited : s.awaited = some (n, c))
      (hready : s.leds.loop.promises[n]? = some .value)
      (hs : s' = { s with registrations := c.keeps s.registrations, awaited := none }) :
      Effect ramp s s' .returned
  | send (r : Request) (leds : LEDsLoop) (hleds : s.leds.step (.send r) = some leds)
      (hs : s' = { s with leds }) : Effect ramp s s' (.send r)
  | loop (e : LoopEvent) (leds : LEDsLoop) (hleds : s.leds.step (.loop e) = some leds)
      (hs : s' = { s with leds }) : Effect ramp s s' (.loop e)
  | finish (leds : LEDsLoop)
      (hdone : s.leds.asked = [] ∨ s.handed = true ∧ s.queue.locked.heldByDBus = false)
      (hleds : s.leds.step .finish = some leds) (hs : s' = { s with leds, handed := false }) :
      Effect ramp s s' .finish
  | queue (e : NotifyEvent DaemonAction Caller) (queue : NotifiedDaemon DaemonAction Caller)
      (hpermits : s.permits e = true) (hqueue : s.queue.step e = some queue)
      (hs : s' =
        { s.write ((e.daemonEvents.flatMap s.daemon.performs).map .daemon) with
          queue
          handed := s.handed || e.hands
          watcher :=
            { s.watcher with
              light := runOps s.watcher.light
                ((e.daemonEvents.flatMap s.daemon.performs).map .daemon) } }) :
      Effect ramp s s' (.queue e)
  | tick (hs : s' = { s with board := s.board.tick ramp }) : Effect ramp s s' .tick

theorem step_effect {e : ProcessEvent} (h : s.step ramp e = some s') : Effect ramp s s' e := by
  unfold step at h
  cases e with
  | connman e =>
    have heffect (he : ∀ action, e ≠ .daemon action)
        (h : (s.watcher.step e).map (fun watcher =>
          { s.write ((s.watcher.calls e).map .watcher) with watcher }) = some s') :
        Effect ramp s s' (.connman e) := by
      obtain ⟨watcher, hwatcher, hs⟩ := Option.map_eq_some_iff.mp h
      exact .connman e watcher he hwatcher hs.symm
    cases e with
    | daemon action => cases h
    | _ => exact heffect nofun h
  | beginSetUp =>
    simp only at h
    split at h
    next x setup hsetup hfree hidle =>
      obtain ⟨hstarted, h⟩ := Option.ite_none_right_eq_some.mp h
      obtain ⟨leds, hleds, hs⟩ := Option.map_eq_some_iff.mp h
      exact .begins _ (.setUp x) setup s.registrations leds (.inl rfl) hfree
        (.setUp x setup hsetup hstarted) hleds hs.symm
    next => cases h
  | beginRelease event =>
    simp only at h
    split at h
    next hpoint hfree hidle =>
      obtain ⟨hevent, h⟩ := Option.ite_none_right_eq_some.mp h
      obtain ⟨leds, hleds, hs⟩ := Option.map_eq_some_iff.mp h
      exact .begins _ (.release event) s.setup _ leds (.inr ⟨event, rfl⟩) hfree
        (.release event hpoint hevent) hleds hs.symm
    next => cases h
  | returned =>
    simp only at h
    split at h
    next n c hawaited hidle =>
      obtain ⟨hready, h⟩ := Option.ite_none_right_eq_some.mp h
      exact .returned n c hawaited hready (Option.some.inj h).symm
    next => cases h
  | send r =>
    obtain ⟨leds, hleds, hs⟩ := Option.map_eq_some_iff.mp h
    exact .send r leds hleds hs.symm
  | loop e =>
    obtain ⟨leds, hleds, hs⟩ := Option.map_eq_some_iff.mp h
    exact .loop e leds hleds hs.symm
  | finish =>
    obtain ⟨hdone, h⟩ := Option.ite_none_right_eq_some.mp h
    obtain ⟨leds, hleds, hs⟩ := Option.map_eq_some_iff.mp h
    exact .finish leds hdone hleds hs.symm
  | queue e =>
    obtain ⟨hpermits, h⟩ := Option.ite_none_right_eq_some.mp h
    obtain ⟨queue, hqueue, hs⟩ := Option.map_eq_some_iff.mp h
    exact .queue e queue hpermits hqueue hs.symm
  | tick => exact .tick (Option.some.inj h).symm

/-- An action is added by the event loop, in a callback that asks for it. -/
theorem permits_hands {a : DaemonAction}
    (h : s.permits (.lock (.add (.enqueueAction a))) = true) :
    s.leds.asked = [a] ∧ s.handed = false := by
  obtain ⟨⟨-, hasked⟩, hhanded⟩ := by simpa [permits] using h
  exact ⟨hasked, hhanded⟩

theorem permits_setRunning (h : s.permits (.lock (.main .setRunning)) = true) :
    s.setup = [] ∧ s.awaited = none := by
  obtain ⟨hsetup, hfree⟩ := by simpa [permits] using h
  exact ⟨hsetup, hfree⟩

/-! ### The threads together -/

/-- The calls on the event loop are the one that the main thread waits for, and only a callback
that asks for it has handed over an action. -/
structure Sound (s : Process) : Prop where
  hosted : s.leds.Hosted
  coherent : s.leds.loop.Coherent
  handing : s.handed = true → s.leds.asked ≠ []
  calls : ∀ n x, s.leds.jobs[n]? = some (.call x) → s.leds.loop.promises[n]? = some .pending →
    ∃ c, s.awaited = some (n, c)
  awaited : ∀ n c, s.awaited = some (n, c) → s.leds.jobs[n]? = some (.call c.event)
  begun : ∀ n x, s.awaited = some (n, .setUp x) → s.watcher.Started
  releasing : ∀ n event, s.awaited = some (n, .release event) →
    s.daemon.point = .exited ∧ event ∉ s.registrations

theorem start_sound (powered : Technology → Bool) (pc : UInt32) (b : Board) :
    (start powered pc b).Sound where
  hosted := LEDsLoop.start_hosted
  coherent :=
    have hstart : runFrom EventLoop.step .start [] = some EventLoop.start := rfl
    EventLoop.run_coherent hstart
  handing h := by cases h
  calls n x hjob := by
    cases n with
    | zero => cases hjob
    | succ n => cases hjob
  awaited n c h := by cases h
  begun n x h := by cases h
  releasing n event h := by cases h

/-- The parts that a step of the event loop leaves as they are. -/
theorem Sound.leds (hs : s.Sound) {e : LEDsLoopEvent} {leds : LEDsLoop} {handed : Bool}
    (h : s.leds.step e = some leds) (he : ∀ x, e ≠ .enqueue x)
    (hhanding : handed = true → leds.asked ≠ []) : Sound { s with leds, handed } where
  hosted := LEDsLoop.step_hosted hs.hosted h
  coherent := by
    obtain ⟨events, hloop⟩ := LEDsLoop.step_loop h
    exact runFrom_invariant hloop hs.coherent EventLoop.step_coherent
  handing := hhanding
  calls n x hjob hpending := by
    obtain ⟨jobs, hjobs, hcalls⟩ := LEDsLoop.step_jobs h
    have hlt : n < s.leds.jobs.length := by
      by_contra hge
      have hmem : ObjectJob.call x ∈ jobs := by
        rw [hjobs, List.getElem?_append_right (Nat.le_of_not_lt hge)] at hjob
        exact List.mem_of_getElem? hjob
      exact he x (hcalls x hmem)
    rw [hjobs, List.getElem?_append_left hlt] at hjob
    exact hs.calls n x hjob (LEDsLoop.pending_before hs.hosted hs.coherent h hlt hpending)
  awaited n c hawaited := by
    obtain ⟨jobs, hjobs, -⟩ := LEDsLoop.step_jobs h
    have hjob := hs.awaited n c hawaited
    rw [hjobs, List.getElem?_append_left (List.getElem?_eq_some_iff.mp hjob).1]
    exact hjob
  begun := hs.begun
  releasing := hs.releasing

/-- The main thread makes a call of its own. -/
theorem Sound.begins (hs : s.Sound) (hfree : s.awaited = none) {c : MainCall}
    {setup : List Setup} {registrations : Finset LEDsEvent} (hc : Begins s c setup registrations)
    {leds : LEDsLoop} (h : s.leds.step (.enqueue c.event) = some leds) :
    Sound
      { s with
        setup
        registrations
        leds
        awaited := some (s.leds.loop.promises.length, c) } := by
  have hne : LEDsLoopEvent.enqueue c.event ≠ .finish := nofun
  have hkept := LEDsLoop.step_undisturbed hs.hosted hne h
  have hjobs : leds.jobs = s.leds.jobs ++ [.call c.event] := by
    obtain ⟨-, -, rfl⟩ := LEDsLoop.eq_of_enqueue h
    rfl
  constructor
  · exact LEDsLoop.step_hosted hs.hosted h
  · obtain ⟨events, hloop⟩ := LEDsLoop.step_loop h
    exact runFrom_invariant hloop hs.coherent EventLoop.step_coherent
  · intro hhanded
    have hasked := hs.handing hhanded
    change leds.asked ≠ []
    rwa [hkept.asked hasked]
  · intro n x hjob hpending
    by_cases hlt : n < s.leds.jobs.length
    · change leds.jobs[n]? = _ at hjob
      rw [hjobs, List.getElem?_append_left hlt] at hjob
      have hbefore := LEDsLoop.pending_before hs.hosted hs.coherent h hlt hpending
      obtain ⟨c', hc'⟩ := hs.calls n x hjob hbefore
      rw [hfree] at hc'
      cases hc'
    · have hle := (List.getElem?_eq_some_iff.mp hjob).1
      change n < leds.jobs.length at hle
      rw [hjobs, List.length_append, List.length_singleton] at hle
      have hlength := hs.hosted.carries.length
      obtain rfl : n = s.leds.loop.promises.length := by omega
      exact ⟨c, rfl⟩
  · intro n c' heq
    obtain ⟨rfl, rfl⟩ := Prod.mk.inj (Option.some.inj heq)
    change leds.jobs[s.leds.loop.promises.length]? = _
    rw [hjobs, ← hs.hosted.carries.length]
    exact List.getElem?_concat_length ..
  · intro n x heq
    obtain ⟨rfl, rfl⟩ := Prod.mk.inj (Option.some.inj heq)
    cases hc with
    | setUp x setup hsetup hstarted => exact hstarted
  · intro n event heq
    obtain ⟨rfl, rfl⟩ := Prod.mk.inj (Option.some.inj heq)
    cases hc with
    | release event hpoint hevent => exact ⟨hpoint, Finset.notMem_erase event s.registrations⟩

theorem step_sound {e : ProcessEvent} (hs : s.Sound) (h : s.step ramp e = some s') : s'.Sound := by
  cases step_effect h with
  | connman e watcher he hwatcher hs' =>
    subst hs'
    exact ⟨hs.hosted, hs.coherent, hs.handing, hs.calls, hs.awaited,
      fun n x hx => Watcher.started_step (hs.begun n x hx) hwatcher, hs.releasing⟩
  | begins e c setup registrations leds he hfree hc hleds hs' =>
    subst hs'
    exact hs.begins hfree hc hleds
  | returned n c hawaited hready hs' =>
    subst hs'
    refine ⟨hs.hosted, hs.coherent, hs.handing, fun m x hjob hpending => ?_, nofun, nofun, nofun⟩
    obtain ⟨c', hc'⟩ := hs.calls m x hjob hpending
    obtain ⟨rfl, -⟩ := Prod.mk.inj (Option.some.inj (hawaited.symm.trans hc'))
    exact absurd (hready.symm.trans hpending) nofun
  | send r leds hleds hs' =>
    subst hs'
    have hne : LEDsLoopEvent.send r ≠ .finish := nofun
    refine hs.leds hleds nofun fun hhanded => ?_
    have hasked := hs.handing hhanded
    rwa [(LEDsLoop.step_undisturbed hs.hosted hne hleds).asked hasked]
  | loop e leds hleds hs' =>
    subst hs'
    have hne : LEDsLoopEvent.loop e ≠ .finish := nofun
    refine hs.leds hleds nofun fun hhanded => ?_
    have hasked := hs.handing hhanded
    rwa [(LEDsLoop.step_undisturbed hs.hosted hne hleds).asked hasked]
  | finish leds hdone hleds hs' =>
    subst hs'
    exact hs.leds hleds nofun nofun
  | queue e queue hpermits hqueue hs' =>
    subst hs'
    refine ⟨hs.hosted, hs.coherent, fun hhanded => ?_, hs.calls, hs.awaited, hs.begun, ?_⟩
    · rcases Bool.or_eq_true_iff.mp hhanded with hhanded | hhands
      · exact hs.handing hhanded
      · obtain ⟨a, rfl⟩ := NotifyEvent.hands_eq_true hhands
        change s.leds.asked ≠ []
        rw [(permits_hands hpermits).1]
        exact List.cons_ne_nil _ _
    · intro n event hevent
      obtain ⟨hpoint, hbegun⟩ := hs.releasing n event hevent
      have hrun := NotifiedDaemon.step_refines hqueue
      exact ⟨runFrom_invariant (I := fun d => d.point = .exited) hrun hpoint
        fun hd hstep => (Daemon.step_point hstep).2.2 hd, hbegun⟩
  | tick hs' =>
    subst hs'
    exact ⟨hs.hosted, hs.coherent, hs.handing, hs.calls, hs.awaited, hs.begun, hs.releasing⟩

end Process
end GemianLeds
