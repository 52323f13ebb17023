import GemianLeds.System.Following
import GemianLeds.Daemon.Flush
import GemianLeds.Interaction.Progress

/-! The daemon comes to rest. What its threads, connman and the timers have to do is bounded by
what clients, connman and callers have begun; and when nothing is left to do, every request has
been answered and performed. -/
namespace GemianLeds
open Interaction

/-- The steps that follow from what has happened before. -/
def WatcherEvent.works : WatcherEvent → Bool
  | .answer _ _ | .arrive | .proceed | .dispatch => true
  | _ => false

def ObjectEvent.works : ObjectEvent → Bool
  | .handle | .expire _ => true
  | _ => false

def DaemonEvent.works {α : Type} : DaemonEvent α → Bool
  | .setRunning | .test | .dequeueAction | .execute => true
  | _ => false

def DeviceEvent.works : DeviceEvent → Bool
  | .connman e => e.works
  | .setUp => true
  | .bus e => e.works
  | .queue e => e.works
  | .release _ => true
  | .tick => false

/-- The steps that give the others something to do: changes at connman, requests, and calls of
`flush` and `stop`. -/
def WatcherEvent.begins : WatcherEvent → Bool
  | .change _ _ | .changeOther _ _ => true
  | _ => false

def DaemonEvent.begins {α : Type} : DaemonEvent α → Bool
  | .enqueueAction _ | .flush _ | .stop => true
  | _ => false

def DeviceEvent.begins : DeviceEvent → Bool
  | .connman e => e.begins
  | .bus e => e.sent ≠ []
  | .queue e => e.begins
  | _ => false

/-! ### What is left to do -/

def QueryState.work : QueryState → ℕ
  | .asked _ => 3
  | _ => 0

def RunPoint.work {α : Type} : RunPoint α → ℕ
  | .starting => 2
  | .testing => 1
  | .dequeuing => 0
  | .executing _ => 2
  | .exited => 0

namespace Watcher
variable {s s' : Watcher}

/-- A message arrives and is dispatched, and a query is made, answered and its reply arrives. -/
def work (s : Watcher) : ℕ :=
  2 * s.wire.length + s.queue.length + s.query.work + s.subscriptions.length + 4 * s.queries.length

theorem step_work {e : WatcherEvent} (h : s.step e = some s') :
    e.works.toNat + s'.work ≤ s.work + 2 * e.begins.toNat := by
  unfold work
  cases step_effect h with
  | change t powered hs' | changeOther t property hs' =>
    subst hs'
    simp [WatcherEvent.works, WatcherEvent.begins]
    omega
  | answer t before after hquery hs' =>
    subst hs'
    simp [WatcherEvent.works, WatcherEvent.begins, hquery, QueryState.work]
    omega
  | arriveSignal x wire hwire hs' =>
    subst hs'
    simp only [hwire, List.length_cons, WatcherEvent.works, WatcherEvent.begins, Bool.toNat_true,
      Bool.toNat_false]
    split
    · rw [List.length_append, List.length_singleton]
      omega
    · omega
  | arriveReply t before powered after wire hwire hs' =>
    subst hs'
    have hquery : QueryState.work (if s.query = .answered t then .idle else s.query) ≤
        s.query.work := by
      split
      · exact Nat.zero_le _
      · exact le_refl _
    simp only [hwire, List.length_cons, WatcherEvent.works, WatcherEvent.begins, Bool.toNat_true,
      Bool.toNat_false]
    omega
  | subscribe t subscriptions hquery hsubscriptions hs' =>
    subst hs'
    simp [WatcherEvent.works, WatcherEvent.begins, hsubscriptions]
    omega
  | query t queries hquery hsubscriptions hqueries hs' =>
    subst hs'
    simp [WatcherEvent.works, WatcherEvent.begins, hqueries, hquery, QueryState.work]
    omega
  | dispatch x queue hquery hqueue hs' =>
    subst hs'
    simp [WatcherEvent.works, WatcherEvent.begins, hqueue]
    omega
  | daemon action hs' =>
    subst hs'
    simp [WatcherEvent.works, WatcherEvent.begins]

end Watcher

namespace LEDs
variable {leds leds' : LEDs} {actions : List DaemonAction} {pc : UInt32}

/-- A request is handled, its action comes to the queue, and its timer expires with another. -/
def work (leds : LEDs) : ℕ := 8 * leds.inbox.length + 4 * leds.timers.length

theorem length_actions (r : Request) : (dbusMethodCall r).actions.length ≤ 1 := by
  cases r.asks with
  | torch on hactions => simp [hactions]
  | one action hactions _ _ => simp [hactions]
  | nothing hactions _ _ => simp [hactions]

theorem afterAnswer_work {r : Request} {inbox : List Request} (hinbox : leds.inbox = r :: inbox)
    (handed : List SessionEvent) :
    1 + (leds.afterAnswer r inbox handed).work + 3 ≤ leds.work := by
  have htimer := Option.length_toList_le
    (o := (dbusMethodCall r).timer.map fun _ => leds.torchRequests + r.torchCount)
  simp only [work, afterAnswer, hinbox, List.length_cons, List.length_append]
  omega

theorem step_work {e : ObjectEvent} (hs : leds.Sound pc) (h : leds.step e = some (leds', actions)) :
    e.works.toNat + leds'.work + 3 * actions.length ≤ leds.work + 8 * e.sent.length := by
  cases step_effect hs h with
  | register event hleds hactions | registerObject hleds hactions
  | unregister event hleds hactions =>
    subst hleds hactions
    simp [work, ObjectEvent.works]
  | send r hobject hleds hactions =>
    subst hleds hactions
    simp [work, ObjectEvent.works, ObjectEvent.sent]
    omega
  | through r inbox hinbox htorch hleds hactions =>
    have hwork := leds.afterAnswer_work hinbox (leds.handed ++ [.request r])
    have hlength := length_actions r
    subst hleds hactions
    simp only [ObjectEvent.works, Bool.toNat_true]
    omega
  | lost r inbox hinbox event hnull htorch hleds hactions =>
    have hwork := leds.afterAnswer_work hinbox leds.handed
    subst hleds hactions
    simp only [ObjectEvent.works, Bool.toNat_true, List.length_nil]
    omega
  | expires armedBy hmem hslot hleds hactions | lapses armedBy hmem hslot hleds hactions =>
    have hlength := List.length_erase_add_one hmem
    subst hleds hactions
    simp only [work, ObjectEvent.works, Bool.toNat_true, List.length_singleton, List.length_nil]
    omega

end LEDs

namespace Daemon
variable {α : Type} {d d' : Daemon α}

/-- An action is taken, performed, and followed by the test of the loop. -/
def work (d : Daemon α) : ℕ := 3 * d.actionQueue.length + d.point.work

theorem step_work {e : DaemonEvent α} (h : d.step e = some d') :
    e.works.toNat + d'.work ≤ d.work + 3 * e.begins.toNat := by
  unfold work
  cases step_effect h with
  | enqueueAction a hd | flush n hn hd | stop hd =>
    subst hd
    simp [DaemonEvent.works, DaemonEvent.begins, enqueueAction, flush, stop, enqueuePriorityAction]
    omega
  | flushReturns n hn hd =>
    subst hd
    simp [DaemonEvent.works, DaemonEvent.begins]
  | setRunning hpoint hd | continues hpoint hrunning hd | leaves hpoint hrunning hd =>
    subst hd
    simp [DaemonEvent.works, DaemonEvent.begins, hpoint, RunPoint.work]
    omega
  | dequeueAction ev rest hpoint hqueue hd =>
    subst hd
    simp [DaemonEvent.works, DaemonEvent.begins, hpoint, hqueue, RunPoint.work]
    omega
  | execute ev hpoint hd =>
    subst hd
    simp [DaemonEvent.works, DaemonEvent.begins, hpoint, call_actionQueue, RunPoint.work]
    omega

theorem enqueueAll_work (d : Daemon α) (events : List α) :
    (d.enqueueAll events).work = d.work + 3 * events.length := by
  rw [enqueueAll_eq]
  simp only [work, List.length_append, List.length_map]
  omega

end Daemon

/-- A handler that is registered is released in the end. -/
def Setup.work : Setup → ℕ
  | .registerHandler _ => 2
  | .startProcessing => 1

theorem Setup.keeps_work (x : Setup) (registrations : Finset LEDsEvent) :
    1 + (x.keeps registrations).card ≤ registrations.card + x.work := by
  cases x with
  | registerHandler event =>
    have hcard := Finset.card_insert_le event registrations
    change 1 + (insert event registrations).card ≤ registrations.card + 2
    omega
  | startProcessing => exact (Nat.add_comm ..).le

namespace Device
variable {ramp : Instruction → Channels → ℕ} {s s' : Device}
variable {powered : Technology → Bool} {pc : UInt32} {sent : List Request}

/-- What the main thread has left of the set-up, and the registrations that it has to release. -/
def mainWork (s : Device) : ℕ := (s.setup.map Setup.work).sum + s.registrations.card

def work (s : Device) : ℕ := s.watcher.work + s.mainWork + s.leds.work + s.daemon.work

/-- A step of work leaves less to do, and what begins something adds what a request asks for. -/
theorem step_work {e : DeviceEvent} (hs : s.Follows ramp powered pc sent)
    (h : s.step ramp e = some s') : e.works.toNat + s'.work ≤ s.work + 8 * e.begins.toNat := by
  unfold work
  cases step_effect h with
  | connman e watcher he hwatcher hs' =>
    have hwork := Watcher.step_work hwatcher
    subst hs'
    change e.works.toNat + (watcher.work + s.mainWork + s.leds.work + s.daemon.work) ≤
      _ + 8 * e.begins.toNat
    omega
  | setUp x setup leds actions hsetup hstarted hleds hs' =>
    have hwork := LEDs.step_work hs.leds hleds
    have hkept := x.keeps_work s.registrations
    obtain ⟨-, hsent⟩ := LEDs.step_call (by cases x <;> rfl) hleds
    subst hs'
    rw [hsent, List.length_nil] at hwork
    simp only [DeviceEvent.works, DeviceEvent.begins, Bool.toNat_true, mainWork, hsetup,
      List.map_cons, List.sum_cons]
    omega
  | bus e leds actions he hleds hs' =>
    have hwork := LEDs.step_work hs.leds hleds
    have hsent : e.sent.length ≤ (decide (e.sent ≠ [])).toNat := by
      cases e <;> simp [ObjectEvent.sent]
    subst hs'
    change e.works.toNat +
        (s.watcher.work + s.mainWork + leds.work + (s.daemon.enqueueAll actions).work) ≤
      _ + 8 * (decide (e.sent ≠ [])).toNat
    rw [Daemon.enqueueAll_work]
    omega
  | queue e daemon he hsetup hdaemon hs' =>
    have hwork := Daemon.step_work hdaemon
    subst hs'
    change e.works.toNat + (s.watcher.work + s.mainWork + s.leds.work + daemon.work) ≤
      _ + 8 * e.begins.toNat
    omega
  | release event leds actions hpoint hevent hleds hs' =>
    have hwork := LEDs.step_work hs.leds hleds
    have hcard := Finset.card_erase_add_one hevent
    subst hs'
    simp only [ObjectEvent.sent, List.length_nil] at hwork
    simp only [DeviceEvent.works, DeviceEvent.begins, Bool.toNat_true, mainWork]
    omega
  | tick hs' =>
    subst hs'
    simp [DeviceEvent.works, mainWork]

theorem run_work {b : Board} {events : List DeviceEvent}
    (h : runFrom (step ramp) (start powered pc b) events = some s) :
    events.countP DeviceEvent.works + s.work ≤ 30 + 8 * events.countP DeviceEvent.begins := by
  have hcount := done_or_count_add_rank_le (I := fun s => ∃ sent, s.Follows ramp powered pc sent)
    (P := fun _ _ => True) (fun _ => False) work DeviceEvent.works DeviceEvent.begins 8
    (throughout_of_forall _ fun _ _ _ => trivial) h ⟨[], start_follows powered pc b⟩
    fun _ hs hstep => ?_
  · exact hcount.resolve_left id
  · obtain ⟨sent, hs⟩ := hs
    exact ⟨⟨_, step_follows hs hstep⟩, id, .inr (step_work hs hstep)⟩

end Device

/-! ### Nothing is left to do -/

namespace Watcher
variable {s s' : Watcher}

/-- The reply to a query that has been answered is on the way. -/
def Replying (s : Watcher) : Prop :=
  ∀ t, s.query = .answered t → ∃ before powered after, .reply t before powered after ∈ s.wire

theorem step_replying {e : WatcherEvent} (hs : s.Replying) (h : s.step e = some s') :
    s'.Replying := by
  intro t ht
  cases step_effect h with
  | change u powered hs' | changeOther u property hs' =>
    subst hs'
    obtain ⟨before, on, after, hmem⟩ := hs t ht
    exact ⟨before, on, after, List.mem_append_left _ hmem⟩
  | answer u before after hquery hs' =>
    subst hs'
    obtain rfl := QueryState.answered.inj ht
    exact ⟨before, s.powered u, after, List.mem_append_right _ List.mem_cons_self⟩
  | arriveSignal x wire hwire hs' =>
    subst hs'
    obtain ⟨before, on, after, hmem⟩ := hs t ht
    rw [hwire, List.mem_cons] at hmem
    exact ⟨before, on, after, hmem.resolve_left nofun⟩
  | arriveReply u before on after wire hwire hs' =>
    subst hs'
    change (if s.query = .answered u then QueryState.idle else s.query) = .answered t at ht
    split at ht
    next => cases ht
    next hquery =>
      obtain ⟨before', on', after', hmem⟩ := hs t ht
      rw [hwire, List.mem_cons] at hmem
      refine ⟨before', on', after', hmem.resolve_left fun heq => hquery ?_⟩
      rw [ht, (FromConnman.reply.inj heq).1]
  | subscribe u subscriptions hquery hsubscriptions hs' =>
    subst hs'
    exact absurd (hquery.symm.trans ht) nofun
  | query u queries hquery hsubscriptions hqueries hs' =>
    subst hs'
    cases ht
  | dispatch x queue hquery hqueue hs' | daemon action hs' =>
    subst hs'
    exact hs t ht

theorem run_replying {powered : Technology → Bool} {pc : UInt32} {events : List WatcherEvent}
    (h : runFrom step (start powered pc) events = some s) : s.Replying :=
  runFrom_invariant h (fun t ht => by cases ht) step_replying

/-- A watcher that has nothing to do has started and shows what it has heard. -/
theorem Replying.at_rest (hs : s.Replying) (h : ∀ e, e.works → s.step e = none) :
    s.Started ∧ s.Quiet := by
  have hwire : s.wire = [] := by
    have harrive := h .arrive rfl
    unfold step at harrive
    simp only at harrive
    split at harrive
    next hwire => exact hwire
    next => cases harrive
    next =>
      rw [reply_calls] at harrive
      cases harrive
  have hquery : s.query = .idle := by
    cases hquery : s.query with
    | idle => rfl
    | asked t =>
      have hanswer := h (.answer [] []) rfl
      unfold step at hanswer
      simp only [hquery] at hanswer
      cases hanswer
    | answered t =>
      obtain ⟨_, _, _, hmem⟩ := hs t hquery
      rw [hwire] at hmem
      cases hmem
  have hproceed := h .proceed rfl
  have hdispatch := h .dispatch rfl
  unfold step at hproceed hdispatch
  have hqueue : s.queue = [] := by
    cases hqueue : s.queue with
    | nil => rfl
    | cons x queue =>
      simp only [hquery, hqueue, signal_calls] at hdispatch
      cases hdispatch
  have hsubscriptions : s.subscriptions = [] := by
    cases hsubscriptions : s.subscriptions with
    | nil => rfl
    | cons t subscriptions =>
      simp only [hquery, hsubscriptions] at hproceed
      cases hproceed
  have hqueries : s.queries = [] := by
    cases hqueries : s.queries with
    | nil => rfl
    | cons t queries =>
      simp only [hquery, hsubscriptions, hqueries] at hproceed
      cases hproceed
  exact ⟨⟨hsubscriptions, hqueries, hquery⟩, hwire, hqueue⟩

end Watcher

namespace LEDs
variable {leds : LEDs}

theorem at_rest (h : ∀ e, e.works → leds.step e = none) : leds.inbox = [] ∧ leds.timers = [] := by
  constructor
  · have hhandle := h .handle rfl
    unfold step at hhandle
    simp only at hhandle
    split at hhandle
    next hinbox => exact hinbox
    next => cases hhandle
  · apply List.eq_nil_iff_forall_not_mem.mpr
    intro armedBy hmem
    have hexpire := h (.expire armedBy) rfl
    unfold step at hexpire
    simp only [if_pos hmem] at hexpire
    cases hexpire

end LEDs

namespace Daemon
variable {α : Type} {d : Daemon α}

/-- The main thread waits for actions, or has left the loop. -/
theorem at_rest (h : ∀ e, e.works → d.step e = none) :
    d.point = .exited ∨ d.point = .dequeuing ∧ d.actionQueue = [] := by
  have hsetRunning := h .setRunning rfl
  have htest := h .test rfl
  have hdequeue := h .dequeueAction rfl
  have hexecute := h .execute rfl
  unfold step at hsetRunning htest hdequeue hexecute
  cases hpoint : d.point with
  | exited => exact .inl rfl
  | starting =>
    simp only [hpoint] at hsetRunning
    cases hsetRunning
  | testing =>
    simp only [hpoint] at htest
    cases htest
  | executing ev =>
    simp only [hpoint] at hexecute
    cases hexecute
  | dequeuing =>
    refine .inr ⟨rfl, ?_⟩
    cases hqueue : d.actionQueue with
    | nil => rfl
    | cons ev rest =>
      simp only [hpoint, dequeueAction, hqueue] at hdequeue
      cases hdequeue

theorem Unstopped.not_exited (hd : d.Unstopped) : d.point ≠ .exited := by
  intro hexited
  rcases hd.running with hstarting | ⟨-, hrunning⟩
  · exact absurd (hexited.symm.trans hstarting) nofun
  · exact hrunning hexited

theorem enqueueAll_unstopped (hd : d.Unstopped) (events : List α) :
    (d.enqueueAll events).Unstopped := by
  unfold enqueueAll
  induction events generalizing d with
  | nil => exact hd
  | cons a events ih => exact ih (step_unstopped (e := .enqueueAction a) hd nofun rfl)

end Daemon

namespace Device
variable {ramp : Instruction → Channels → ℕ} {s s' : Device}
variable {powered : Technology → Bool} {pc : UInt32} {sent : List Request}

/-- Nothing can be done until something new begins. -/
def AtRest (ramp : Instruction → Channels → ℕ) (s : Device) : Prop :=
  ∀ e : DeviceEvent, e.works → s.step ramp e = none

theorem step_unstopped {e : DeviceEvent} (hs : s.daemon.Unstopped) (he : e ≠ .queue .stop)
    (h : s.step ramp e = some s') : s'.daemon.Unstopped := by
  cases step_effect h with
  | queue e daemon _ hsetup hdaemon hs' =>
    subst hs'
    exact Daemon.step_unstopped hs (fun heq => he (congrArg _ heq)) hdaemon
  | bus e leds actions _ hleds hs' =>
    subst hs'
    exact Daemon.enqueueAll_unstopped hs actions
  | connman e watcher _ hwatcher hs' | setUp x setup leds actions hsetup hstarted hleds hs'
  | release event leds actions hpoint _ hleds hs' | tick hs' =>
    subst hs'
    exact hs

theorem run_unstopped {b : Board} {events : List DeviceEvent}
    (h : runFrom (step ramp) (start powered pc b) events = some s)
    (hstop : .queue .stop ∉ events) : s.daemon.Unstopped := by
  have hother : Throughout (step ramp) (fun _ e => e ≠ .queue .stop) (start powered pc b) events :=
    throughout_of_forall _ fun e he _ heq => hstop (heq ▸ he)
  exact hother.invariant (I := fun s => s.daemon.Unstopped) h Daemon.new_unstopped
    fun he hs hstep => step_unstopped hs he hstep

/-- The parts of a device at rest are. -/
structure Idle (s : Device) : Prop where
  setup : s.setup = []
  started : s.watcher.Started
  quiet : s.watcher.Quiet
  inbox : s.leds.inbox = []
  timers : s.leds.timers = []
  point : s.daemon.point = .exited ∨ s.daemon.point = .dequeuing ∧ s.daemon.actionQueue = []
  released : s.daemon.point = .exited → s.registrations = ∅

theorem AtRest.idle (hs : s.Follows ramp powered pc sent) (h : s.AtRest ramp) : s.Idle := by
  obtain ⟨events, hrun⟩ := hs.watcher
  obtain ⟨hstarted, hquiet⟩ := (Watcher.run_replying hrun).at_rest fun e he => by
    have hnone := h (.connman e) he
    cases e with
    | answer before after => exact Option.map_eq_none_iff.mp hnone
    | arrive | proceed | dispatch => exact Option.map_eq_none_iff.mp hnone
    | change | changeOther | daemon => cases he
  obtain ⟨hinbox, htimers⟩ := s.leds.at_rest fun e he => by
    have hnone := h (.bus e) he
    cases e with
    | handle | expire armedBy => exact Option.map_eq_none_iff.mp hnone
    | register | registerObject | unregister | send => cases he
  have hsetup : s.setup = [] := by
    have hnone := h .setUp rfl
    unfold step at hnone
    simp only [if_pos hstarted] at hnone
    split at hnone
    next hsetup => exact hsetup
    next x setup _ => cases x <;> cases hnone
  have hpoint := Daemon.at_rest (d := s.daemon) fun e he => by
    have hnone := h (.queue e) he
    cases e with
    | setRunning =>
      unfold step at hnone
      simp only at hnone
      rw [if_neg fun hearly => hearly.2 hsetup] at hnone
      exact Option.map_eq_none_iff.mp hnone
    | test | dequeueAction | execute => exact Option.map_eq_none_iff.mp hnone
    | enqueueAction | flush | flushReturns | stop => cases he
  refine ⟨hsetup, hstarted, hquiet, hinbox, htimers, hpoint, fun hexited => ?_⟩
  apply Finset.eq_empty_iff_forall_notMem.mpr
  intro event hevent
  have hnone := h (.release event) rfl
  unfold step at hnone
  simp only [hexited, if_pos hevent] at hnone
  cases hnone

/-- And the other way round. -/
theorem Idle.at_rest (hs : s.Idle) : s.AtRest ramp := by
  obtain ⟨hsubscriptions, hqueries, hquery⟩ := hs.started
  obtain ⟨hwire, hqueue⟩ := hs.quiet
  intro e he
  cases e with
  | connman e =>
    cases e with
    | change | changeOther | daemon => cases he
    | answer | arrive | proceed | dispatch =>
      simp [step, Watcher.step, hsubscriptions, hqueries, hquery, hwire, hqueue]
  | setUp => simp [step, hs.setup]
  | bus e =>
    cases e with
    | handle | expire => simp [step, LEDs.step, hs.inbox, hs.timers]
    | register | registerObject | unregister | send => cases he
  | queue e =>
    cases e with
    | enqueueAction | flush | flushReturns | stop => cases he
    | setRunning | test | dequeueAction | execute =>
      rcases hs.point with hpoint | ⟨hpoint, hempty⟩
      · simp [step, Daemon.step, hpoint]
      · simp [step, Daemon.step, Daemon.dequeueAction, hpoint, hempty]
  | release event =>
    rcases hs.point with hpoint | ⟨hpoint, -⟩
    · simp [step, hpoint, hs.released hpoint]
    · simp [step, hpoint]
  | tick => cases he

/-- All that was asked for has been done: the daemon has performed every request that was sent
and every timer that was armed, and the chip shows what they and connman ask for. -/
structure Settled (ramp : Instruction → Channels → ℕ) (pc : UInt32) (s : Device)
    (sent : List Request) : Prop where
  handed : s.leds.handed.filterMap SessionEvent.request? = sent
  requested : ∃ sess, (Session.start pc).run s.leds.handed = some sess ∧ sess.timers = [] ∧
    s.watcher.light.requested = sess.light.requested
  connectivity : ∀ t, connectivityOf s.watcher.light t = s.watcher.powered t
  plays : ∀ action ∈ (s.leds.handed.flatMap SessionEvent.actions).getLast?,
    (Op.daemon action).callsUpdate → Plays ramp s.board s.watcher.light

/-- As long as the loop has not been left. -/
theorem Idle.settled_of_point (hidle : s.Idle) (hs : s.Follows ramp powered pc sent)
    (hpoint : s.daemon.point ≠ .exited) : s.Settled ramp pc sent := by
  have hwaiting : s.daemon.waiting = [] := by
    obtain ⟨hdequeuing, hempty⟩ := hidle.point.resolve_left hpoint
    unfold Daemon.waiting Daemon.inHand
    rw [hdequeuing, hempty]
    rfl
  obtain ⟨hhanded, sess, hrun, htimers⟩ := hs.handed hpoint
  have hsent := hs.sent
  rw [hidle.inbox, List.append_nil] at hsent
  have hrequested := hs.requested hrun
  rw [hwaiting] at hrequested
  exact ⟨hhanded.trans hsent, ⟨sess, hrun, htimers.trans hidle.timers, hrequested⟩,
    hs.connectivity hidle.started hidle.quiet, fun action hlast => hs.plays hwaiting hlast⟩

theorem Idle.settled (hidle : s.Idle) (hs : s.Follows ramp powered pc sent)
    (hd : s.daemon.Unstopped) : s.Settled ramp pc sent :=
  hidle.settled_of_point hs hd.not_exited

end Device

/-- The daemon comes to rest: in every run its threads, connman and the timers take at most 30
steps and 8 more for each request, change at connman and call of `flush` and `stop`; and in a
state in which none of these steps can be taken, every request that was sent has been answered
and, unless `stop` was called, performed. -/
theorem comes_to_rest (ramp : Instruction → Channels → ℕ) (powered : Technology → Bool)
    (pc : UInt32) (b : Board) (events : List DeviceEvent) (s : Device)
    (h : runFrom (Device.step ramp) (.start powered pc b) events = some s) :
    events.countP DeviceEvent.works ≤ 30 + 8 * events.countP DeviceEvent.begins ∧
      (s.AtRest ramp →
        s.leds.answered.map Prod.fst = Device.requestsSent events ∧
          (.queue .stop ∉ events → s.Settled ramp pc (Device.requestsSent events))) := by
  have hs := Device.run_follows h
  refine ⟨(Nat.le_add_right _ _).trans (Device.run_work h), fun hrest => ?_⟩
  have hidle := hrest.idle hs
  have hsent := hs.sent
  rw [hidle.inbox, List.append_nil] at hsent
  exact ⟨hsent, fun hstop => hidle.settled hs (Device.run_unstopped h hstop)⟩

/-- The torch for a while, to the end. -/
theorem comes_to_rest_torch :
    ∃ s : Device,
      runFrom (Device.step fun _ _ => 0) (.start (fun _ => true) 0 .blank)
          (startUp ++ [.bus (.send (.setTorch true 500)), .bus .handle] ++ performNext ++
            [.bus (.expire 1)] ++ performNext) = some s ∧
        s.Settled (fun _ _ => 0) 0 [.setTorch true 500] := by
  have hrun : ((runFrom (Device.step fun _ _ => 0) (.start (fun _ => true) 0 .blank)
      (startUp ++ [.bus (.send (.setTorch true 500)), .bus .handle] ++ performNext ++
        [.bus (.expire 1)] ++ performNext)).any fun s =>
          s.setup = [] ∧ s.watcher.Started ∧ s.watcher.wire.isEmpty ∧ s.watcher.queue.isEmpty ∧
            s.leds.inbox = [] ∧ s.leds.timers = [] ∧ s.daemon.point.work = 0 ∧
            s.daemon.actionQueue.isEmpty) = true := by
    decide +kernel
  obtain ⟨s, hs, hchecked⟩ := (Option.any_eq_true _ _).mp hrun
  obtain ⟨hsetup, hstarted, hwire, hdispatched, hinbox, htimers, hpoint, hqueue⟩ :=
    of_decide_eq_true hchecked
  have hunstopped := Device.run_unstopped hs (by simp [startUp, performNext])
  have hidle : s.Idle := by
    refine ⟨hsetup, hstarted, ⟨List.isEmpty_iff.mp hwire, List.isEmpty_iff.mp hdispatched⟩, hinbox,
      htimers, ?_, ?_⟩
    · cases hp : s.daemon.point with
      | exited => exact .inl rfl
      | dequeuing => exact .inr ⟨rfl, List.isEmpty_iff.mp hqueue⟩
      | starting | testing | executing ev =>
        rw [hp] at hpoint
        cases hpoint
    · exact fun hexited => absurd hexited hunstopped.not_exited
  have hrest := (comes_to_rest (fun _ _ => 0) (fun _ => true) 0 .blank _ s hs).2 hidle.at_rest
  exact ⟨s, hs, hrest.2 (by simp [startUp, performNext])⟩

end GemianLeds
