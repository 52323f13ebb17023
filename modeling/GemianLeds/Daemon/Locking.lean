import GemianLeds.Daemon.ActionQueue

/-! The mutex of the action queue, at every point of `Daemon::dequeue_action`, and the signal
handler that interrupts the thread of `Daemon::run` and calls `Daemon::stop` on top of it. -/
namespace GemianLeds
open Interaction

/-- Where the main thread is in `dequeue_action`: at the constructor of `lock`, in
`action_queue_cv.wait` at the test of the predicate, asleep, or awake and about to lock again,
at `front` and `pop_front`, and at the destructor of `lock`. -/
inductive DequeuePoint where
  | outside
  | locking
  | testingQueue
  | sleeping
  | relocking
  | popping
  | unlocking
  deriving DecidableEq

/-- The points between an acquisition of the mutex and its release. -/
def DequeuePoint.holdsLock : DequeuePoint → Bool
  | .testingQueue | .popping | .unlocking => true
  | _ => false

/-- The points of `dequeue_action` before an action is taken. -/
def DequeuePoint.beforePop : DequeuePoint → Bool
  | .outside | .unlocking => false
  | _ => true

/-- Where the signal handler `stop_daemon` is, in its call of `Daemon::stop`. -/
inductive HandlerPoint where
  | idle
  | locking
  | pushing
  | unlocking
  deriving DecidableEq

/-- What other threads call. A call of `flush` is named by the number of its promise. -/
inductive QueueCall (α : Type) where
  | enqueueAction (a : α)
  | flush (n : ℕ)
  | stop

def QueueCall.event {α : Type} : QueueCall α → DaemonEvent α
  | .enqueueAction a => .enqueueAction a
  | .flush n => .flush n
  | .stop => .stop

/-- Who holds `action_queue_mutex`: the main thread in its own code, its signal handler, or
another thread, before or after it adds its action. -/
inductive Holder (τ : Type) where
  | main
  | handler
  | adding (t : τ)
  | added (t : τ)

/-- The daemon with its mutex, for threads `τ` besides the main one. -/
structure LockedDaemon (α τ : Type) where
  daemon : Daemon α
  dequeue : DequeuePoint
  handler : HandlerPoint
  owner : Option (Holder τ)

/-- The steps of the main thread. -/
inductive MainEvent where
  | setRunning
  | test
  | lock
  | testQueue
  | wake
  | relock
  | popFront
  | unlock
  | execute

inductive LockEvent (α τ : Type) where
  | main (e : MainEvent)
  | acquire (t : τ)
  | add (call : QueueCall α)
  | release
  | flushReturns (n : ℕ)
  /-- SIGINT or SIGTERM is delivered to the main thread. -/
  | signal
  | handlerLocks
  | handlerPushes
  | handlerUnlocks

/-- What a step is for the action queue: nothing, or one whole event. -/
def LockEvent.daemonEvents {α τ : Type} : LockEvent α τ → List (DaemonEvent α)
  | .main .setRunning => [.setRunning]
  | .main .test => [.test]
  | .main .popFront => [.dequeueAction]
  | .main .execute => [.execute]
  | .add call => [call.event]
  | .flushReturns n => [.flushReturns n]
  | .handlerPushes => [.stop]
  | _ => []

namespace LockedDaemon
variable {α τ : Type}

def new : LockedDaemon α τ := ⟨.new, .outside, .idle, none⟩

/-- An event of the action queue. -/
def act (s : LockedDaemon α τ) (e : DaemonEvent α) : Option (LockedDaemon α τ) :=
  (s.daemon.step e).map fun daemon => { s with daemon }

/-- A step of `Daemon::run`. -/
def mainStep (s : LockedDaemon α τ) : MainEvent → Option (LockedDaemon α τ)
  | .setRunning => if s.dequeue = .outside then s.act .setRunning else none
  | .test =>
      if s.dequeue = .outside then
        (s.act .test).map fun s =>
          { s with dequeue := if s.daemon.running then .locking else .outside }
      else none
  | .lock =>
      match s.dequeue, s.owner with
      | .locking, none => some { s with dequeue := .testingQueue, owner := some .main }
      | _, _ => none
  | .testQueue =>
      match s.dequeue, s.daemon.actionQueue with
      | .testingQueue, [] => some { s with dequeue := .sleeping, owner := none }
      | .testingQueue, _ :: _ => some { s with dequeue := .popping }
      | _, _ => none
  | .wake => if s.dequeue = .sleeping then some { s with dequeue := .relocking } else none
  | .relock =>
      match s.dequeue, s.owner with
      | .relocking, none => some { s with dequeue := .testingQueue, owner := some .main }
      | _, _ => none
  | .popFront =>
      if s.dequeue = .popping then
        (s.act .dequeueAction).map fun s => { s with dequeue := .unlocking }
      else none
  | .unlock =>
      if s.dequeue = .unlocking then some { s with dequeue := .outside, owner := none } else none
  | .execute => if s.dequeue = .outside then s.act .execute else none

/-- The main thread stands still while the handler runs, and all signals are masked then. -/
def step (s : LockedDaemon α τ) : LockEvent α τ → Option (LockedDaemon α τ)
  | .main e => if s.handler = .idle then s.mainStep e else none
  | .acquire t =>
      match s.owner with
      | none => some { s with owner := some (.adding t) }
      | some _ => none
  | .add call =>
      match s.owner with
      | some (.adding t) =>
          (s.act call.event).map fun s => { s with owner := some (.added t) }
      | _ => none
  | .release =>
      match s.owner with
      | some (.added _) => some { s with owner := none }
      | _ => none
  | .flushReturns n => s.act (.flushReturns n)
  | .signal => if s.handler = .idle then some { s with handler := .locking } else none
  | .handlerLocks =>
      match s.handler, s.owner with
      | .locking, none => some { s with handler := .pushing, owner := some .handler }
      | _, _ => none
  | .handlerPushes =>
      if s.handler = .pushing then (s.act .stop).map fun s => { s with handler := .unlocking }
      else none
  | .handlerUnlocks =>
      if s.handler = .unlocking then some { s with handler := .idle, owner := none } else none

/-- The handler tries to lock the mutex that the thread it interrupted holds. -/
def SelfLocked (s : LockedDaemon α τ) : Prop :=
  s.handler = .locking ∧ s.owner = some .main

/-- The owner of the mutex, the point of the main thread and the handler fit together. -/
structure Consistent (s : LockedDaemon α τ) : Prop where
  owner : s.owner = some .main ↔ s.dequeue.holdsLock = true
  interrupted : s.handler ≠ .idle → s.dequeue.holdsLock = false
  dequeuing : s.dequeue.beforePop = true → s.daemon.point = .dequeuing
  popping : s.dequeue = .popping → s.daemon.actionQueue ≠ []

variable {s s' : LockedDaemon α τ}

theorem new_consistent : (new : LockedDaemon α τ).Consistent where
  owner := ⟨nofun, nofun⟩
  interrupted h := absurd rfl h
  dequeuing h := by cases h
  popping h := by cases h

theorem act_spec {e : DaemonEvent α} (h : s.act e = some s') :
    ∃ daemon, s.daemon.step e = some daemon ∧ s' = { s with daemon } := by
  obtain ⟨daemon, hdaemon, rfl⟩ := Option.map_eq_some_iff.mp h
  exact ⟨daemon, hdaemon, rfl⟩

/-- Everything one step of the main thread does. -/
inductive MainEffect (s s' : LockedDaemon α τ) : MainEvent → Prop where
  | setRunning (daemon : Daemon α) (hdequeue : s.dequeue = .outside)
      (hdaemon : s.daemon.step .setRunning = some daemon) (hs : s' = { s with daemon }) :
      MainEffect s s' .setRunning
  | continues (daemon : Daemon α) (hdequeue : s.dequeue = .outside)
      (hdaemon : s.daemon.step .test = some daemon) (hrunning : daemon.running = true)
      (hs : s' = { s with daemon, dequeue := .locking }) : MainEffect s s' .test
  | leaves (daemon : Daemon α) (hdequeue : s.dequeue = .outside)
      (hdaemon : s.daemon.step .test = some daemon) (hrunning : daemon.running = false)
      (hs : s' = { s with daemon, dequeue := .outside }) : MainEffect s s' .test
  | lock (hdequeue : s.dequeue = .locking) (howner : s.owner = none)
      (hs : s' = { s with dequeue := .testingQueue, owner := some .main }) : MainEffect s s' .lock
  | sleeps (hdequeue : s.dequeue = .testingQueue) (hqueue : s.daemon.actionQueue = [])
      (hs : s' = { s with dequeue := .sleeping, owner := none }) : MainEffect s s' .testQueue
  | finds (hdequeue : s.dequeue = .testingQueue) (hqueue : s.daemon.actionQueue ≠ [])
      (hs : s' = { s with dequeue := .popping }) : MainEffect s s' .testQueue
  | wake (hdequeue : s.dequeue = .sleeping) (hs : s' = { s with dequeue := .relocking }) :
      MainEffect s s' .wake
  | relock (hdequeue : s.dequeue = .relocking) (howner : s.owner = none)
      (hs : s' = { s with dequeue := .testingQueue, owner := some .main }) : MainEffect s s' .relock
  | popFront (daemon : Daemon α) (hdequeue : s.dequeue = .popping)
      (hdaemon : s.daemon.step .dequeueAction = some daemon)
      (hs : s' = { s with daemon, dequeue := .unlocking }) : MainEffect s s' .popFront
  | unlock (hdequeue : s.dequeue = .unlocking)
      (hs : s' = { s with dequeue := .outside, owner := none }) : MainEffect s s' .unlock
  | execute (daemon : Daemon α) (hdequeue : s.dequeue = .outside)
      (hdaemon : s.daemon.step .execute = some daemon) (hs : s' = { s with daemon }) :
      MainEffect s s' .execute

theorem mainStep_effect {e : MainEvent} (h : s.mainStep e = some s') : MainEffect s s' e := by
  unfold mainStep at h
  cases e with
  | setRunning =>
    simp only at h
    split at h
    next hdequeue =>
      obtain ⟨daemon, hdaemon, rfl⟩ := act_spec h
      exact .setRunning daemon hdequeue hdaemon rfl
    next => cases h
  | test =>
    simp only at h
    split at h
    next hdequeue =>
      obtain ⟨t, ht, rfl⟩ := Option.map_eq_some_iff.mp h
      obtain ⟨daemon, hdaemon, rfl⟩ := act_spec ht
      cases hrunning : daemon.running with
      | true => exact .continues daemon hdequeue hdaemon hrunning rfl
      | false => exact .leaves daemon hdequeue hdaemon hrunning rfl
    next => cases h
  | lock =>
    simp only at h
    split at h
    next hdequeue howner => exact .lock hdequeue howner (Option.some.inj h).symm
    next => cases h
  | testQueue =>
    simp only at h
    split at h
    next hdequeue hqueue => exact .sleeps hdequeue hqueue (Option.some.inj h).symm
    next ev rest hdequeue hqueue =>
      have hne : s.daemon.actionQueue ≠ [] := by
        rw [hqueue]
        exact List.cons_ne_nil _ _
      exact .finds hdequeue hne (Option.some.inj h).symm
    next => cases h
  | wake =>
    simp only at h
    split at h
    next hdequeue => exact .wake hdequeue (Option.some.inj h).symm
    next => cases h
  | relock =>
    simp only at h
    split at h
    next hdequeue howner => exact .relock hdequeue howner (Option.some.inj h).symm
    next => cases h
  | popFront =>
    simp only at h
    split at h
    next hdequeue =>
      obtain ⟨t, ht, rfl⟩ := Option.map_eq_some_iff.mp h
      obtain ⟨daemon, hdaemon, rfl⟩ := act_spec ht
      exact .popFront daemon hdequeue hdaemon rfl
    next => cases h
  | unlock =>
    simp only at h
    split at h
    next hdequeue => exact .unlock hdequeue (Option.some.inj h).symm
    next => cases h
  | execute =>
    simp only at h
    split at h
    next hdequeue =>
      obtain ⟨daemon, hdaemon, rfl⟩ := act_spec h
      exact .execute daemon hdequeue hdaemon rfl
    next => cases h

/-- Everything one event does. -/
inductive Effect (s s' : LockedDaemon α τ) : LockEvent α τ → Prop where
  | main (e : MainEvent) (hidle : s.handler = .idle) (he : MainEffect s s' e) :
      Effect s s' (.main e)
  | acquire (t : τ) (howner : s.owner = none)
      (hs : s' = { s with owner := some (.adding t) }) : Effect s s' (.acquire t)
  | add (t : τ) (call : QueueCall α) (daemon : Daemon α) (howner : s.owner = some (.adding t))
      (hdaemon : s.daemon.step call.event = some daemon)
      (hs : s' = { s with daemon, owner := some (.added t) }) : Effect s s' (.add call)
  | release (t : τ) (howner : s.owner = some (.added t)) (hs : s' = { s with owner := none }) :
      Effect s s' .release
  | flushReturns (n : ℕ) (daemon : Daemon α)
      (hdaemon : s.daemon.step (.flushReturns n) = some daemon) (hs : s' = { s with daemon }) :
      Effect s s' (.flushReturns n)
  | signal (hidle : s.handler = .idle) (hs : s' = { s with handler := .locking }) :
      Effect s s' .signal
  | handlerLocks (hhandler : s.handler = .locking) (howner : s.owner = none)
      (hs : s' = { s with handler := .pushing, owner := some .handler }) : Effect s s' .handlerLocks
  | handlerPushes (daemon : Daemon α) (hhandler : s.handler = .pushing)
      (hdaemon : s.daemon.step .stop = some daemon)
      (hs : s' = { s with daemon, handler := .unlocking }) : Effect s s' .handlerPushes
  | handlerUnlocks (hhandler : s.handler = .unlocking)
      (hs : s' = { s with handler := .idle, owner := none }) : Effect s s' .handlerUnlocks

theorem step_effect {e : LockEvent α τ} (h : s.step e = some s') : Effect s s' e := by
  unfold step at h
  cases e with
  | main e =>
    simp only at h
    split at h
    next hidle => exact .main e hidle (mainStep_effect h)
    next => cases h
  | acquire t =>
    simp only at h
    split at h
    next howner => exact .acquire t howner (Option.some.inj h).symm
    next => cases h
  | add call =>
    simp only at h
    split at h
    next t howner =>
      obtain ⟨u, hu, rfl⟩ := Option.map_eq_some_iff.mp h
      obtain ⟨daemon, hdaemon, rfl⟩ := act_spec hu
      exact .add t call daemon howner hdaemon rfl
    next => cases h
  | release =>
    simp only at h
    split at h
    next t howner => exact .release t howner (Option.some.inj h).symm
    next => cases h
  | flushReturns n =>
    obtain ⟨daemon, hdaemon, rfl⟩ := act_spec h
    exact .flushReturns n daemon hdaemon rfl
  | signal =>
    simp only at h
    split at h
    next hidle => exact .signal hidle (Option.some.inj h).symm
    next => cases h
  | handlerLocks =>
    simp only at h
    split at h
    next hhandler howner => exact .handlerLocks hhandler howner (Option.some.inj h).symm
    next => cases h
  | handlerPushes =>
    simp only at h
    split at h
    next hhandler =>
      obtain ⟨u, hu, rfl⟩ := Option.map_eq_some_iff.mp h
      obtain ⟨daemon, hdaemon, rfl⟩ := act_spec hu
      exact .handlerPushes daemon hhandler hdaemon rfl
    next => cases h
  | handlerUnlocks =>
    simp only at h
    split at h
    next hhandler => exact .handlerUnlocks hhandler (Option.some.inj h).symm
    next => cases h

/-- A call from another thread fills the queue and leaves the loop where it is. -/
theorem call_spec {call : QueueCall α} {d d' : Daemon α} (h : d.step call.event = some d') :
    d'.point = d.point ∧ d'.actionQueue ≠ [] := by
  cases call with
  | enqueueAction a =>
    cases Daemon.step_effect h with
    | enqueueAction _ hd =>
      rw [hd]
      exact ⟨rfl, List.concat_ne_nil _ _⟩
  | flush n =>
    cases Daemon.step_effect h with
    | flush _ hn hd =>
      rw [hd]
      exact ⟨rfl, List.concat_ne_nil _ _⟩
  | stop =>
    cases Daemon.step_effect h with
    | stop hd =>
      rw [hd]
      exact ⟨rfl, List.cons_ne_nil _ _⟩

theorem Consistent.free (hs : s.Consistent) (h : s.dequeue.holdsLock = false) :
    s.owner ≠ some .main := by
  intro howner
  rw [hs.owner.mp howner] at h
  cases h

theorem Consistent.not_holding (hs : s.Consistent) (h : s.owner ≠ some .main) :
    s.dequeue.holdsLock = false :=
  Bool.eq_false_iff.mpr fun hholds => h (hs.owner.mpr hholds)

/-- The mutex is not the main thread's, and the main thread is at no point that has it. -/
theorem owner_iff {owner : Option (Holder τ)} {point : DequeuePoint}
    (howner : owner ≠ some .main) (hpoint : point.holdsLock = false) :
    owner = some .main ↔ point.holdsLock = true :=
  ⟨fun h => absurd h howner, fun h => absurd h (Bool.eq_false_iff.mp hpoint)⟩

/-- While the handler is idle, the points of the main thread matter only. -/
theorem consistent_of_idle (hidle : s.handler = .idle)
    (howner : s.owner = some .main ↔ s.dequeue.holdsLock = true)
    (hdequeuing : s.dequeue.beforePop = true → s.daemon.point = .dequeuing)
    (hpopping : s.dequeue = .popping → s.daemon.actionQueue ≠ []) : s.Consistent :=
  ⟨howner, fun h => absurd hidle h, hdequeuing, hpopping⟩

theorem mainEffect_consistent {e : MainEvent} (hs : s.Consistent) (hidle : s.handler = .idle)
    (h : MainEffect s s' e) : s'.Consistent := by
  have hheld (hholds : s.dequeue.holdsLock = true) : s.owner = some .main := hs.owner.mpr hholds
  cases h with
  | setRunning daemon hdequeue _ hs' | execute daemon hdequeue _ hs' =>
    subst hs'
    refine consistent_of_idle hidle hs.owner (fun hbefore => ?_) (fun hpop => ?_)
    · rw [hdequeue] at hbefore
      cases hbefore
    · rw [hdequeue] at hpop
      cases hpop
  | continues daemon hdequeue hdaemon hrunning hs' =>
    have hfree := hs.free (by rw [hdequeue]; rfl)
    subst hs'
    refine consistent_of_idle hidle (owner_iff hfree rfl) (fun _ => ?_) nofun
    cases Daemon.step_effect hdaemon with
    | continues _ _ hd => rw [hd]
    | leaves _ hstopped hd =>
      rw [hd] at hrunning
      exact absurd (hstopped.symm.trans hrunning) nofun
  | leaves daemon hdequeue _ _ hs' =>
    have hfree := hs.free (by rw [hdequeue]; rfl)
    subst hs'
    exact consistent_of_idle hidle (owner_iff hfree rfl) nofun nofun
  | lock hdequeue _ hs' | relock hdequeue _ hs' =>
    have hpoint := hs.dequeuing (by rw [hdequeue]; rfl)
    subst hs'
    exact consistent_of_idle hidle ⟨fun _ => rfl, fun _ => rfl⟩ (fun _ => hpoint) nofun
  | sleeps hdequeue _ hs' =>
    have hpoint := hs.dequeuing (by rw [hdequeue]; rfl)
    subst hs'
    exact consistent_of_idle hidle (owner_iff nofun rfl) (fun _ => hpoint) nofun
  | finds hdequeue hqueue hs' =>
    have hpoint := hs.dequeuing (by rw [hdequeue]; rfl)
    have howner := hheld (by rw [hdequeue]; rfl)
    subst hs'
    exact consistent_of_idle hidle ⟨fun _ => rfl, fun _ => howner⟩ (fun _ => hpoint)
      (fun _ => hqueue)
  | wake hdequeue hs' =>
    have hpoint := hs.dequeuing (by rw [hdequeue]; rfl)
    have hfree := hs.free (by rw [hdequeue]; rfl)
    subst hs'
    exact consistent_of_idle hidle (owner_iff hfree rfl) (fun _ => hpoint) nofun
  | popFront daemon hdequeue _ hs' =>
    have howner := hheld (by rw [hdequeue]; rfl)
    subst hs'
    exact consistent_of_idle hidle ⟨fun _ => rfl, fun _ => howner⟩ nofun nofun
  | unlock _ hs' =>
    subst hs'
    exact consistent_of_idle hidle (owner_iff nofun rfl) nofun nofun

theorem mainEffect_refines {e : MainEvent} (h : MainEffect s s' e) :
    runFrom Daemon.step s.daemon (LockEvent.main e : LockEvent α τ).daemonEvents =
      some s'.daemon := by
  cases h with
  | setRunning daemon _ hdaemon hs' | execute daemon _ hdaemon hs'
  | continues daemon _ hdaemon _ hs' | leaves daemon _ hdaemon _ hs'
  | popFront daemon _ hdaemon hs' =>
    subst hs'
    exact (runFrom_singleton ..).trans hdaemon
  | lock _ _ hs' | relock _ _ hs' | sleeps _ _ hs' | finds _ _ hs' | wake _ hs' | unlock _ hs' =>
    subst hs'
    rfl

theorem step_refines {e : LockEvent α τ} (h : s.step e = some s') :
    runFrom Daemon.step s.daemon e.daemonEvents = some s'.daemon := by
  cases step_effect h with
  | main e _ he => exact mainEffect_refines he
  | add t call daemon _ hdaemon hs' | handlerPushes daemon _ hdaemon hs'
  | flushReturns n daemon hdaemon hs' =>
    subst hs'
    exact (runFrom_singleton ..).trans hdaemon
  | acquire t _ hs' | release t _ hs' | signal _ hs' | handlerLocks _ _ hs'
  | handlerUnlocks _ hs' =>
    subst hs'
    rfl

/-- With its mutex taken apart, the action queue still sees whole events only: what the main
thread executes is, in order, what was added to the queue. -/
theorem run_in_order {events : List (LockEvent α τ)} (h : runFrom step new events = some s) :
    normalActions s.daemon.executed <+:
      enqueuedActions (events.flatMap LockEvent.daemonEvents) :=
  Daemon.run_in_order (runFrom_refines LockedDaemon.daemon h step_refines)

/-- No signal is delivered while the main thread holds the mutex. -/
def SignalOutside (s : LockedDaemon α τ) : LockEvent α τ → Prop
  | .signal => s.dequeue.holdsLock = false
  | _ => True

theorem step_consistent {e : LockEvent α τ} (hs : s.Consistent) (he : s.SignalOutside e)
    (h : s.step e = some s') : s'.Consistent := by
  cases step_effect h with
  | main e hidle heffect => exact mainEffect_consistent hs hidle heffect
  | acquire t howner hs' =>
    have hfree := hs.not_holding (by rw [howner]; nofun)
    subst hs'
    exact ⟨owner_iff nofun hfree, hs.interrupted, hs.dequeuing, hs.popping⟩
  | add t call daemon howner hdaemon hs' =>
    obtain ⟨hpoint, hqueue⟩ := call_spec hdaemon
    have hfree := hs.not_holding (by rw [howner]; nofun)
    subst hs'
    exact ⟨owner_iff nofun hfree, hs.interrupted,
      fun hbefore => hpoint.trans (hs.dequeuing hbefore), fun _ => hqueue⟩
  | release t howner hs' =>
    have hfree := hs.not_holding (by rw [howner]; nofun)
    subst hs'
    exact ⟨owner_iff nofun hfree, hs.interrupted, hs.dequeuing, hs.popping⟩
  | flushReturns n daemon hdaemon hs' =>
    cases Daemon.step_effect hdaemon with
    | flushReturns _ _ hd =>
      rw [hs', hd]
      exact hs
  | signal _ hs' =>
    subst hs'
    exact ⟨hs.owner, fun _ => he, hs.dequeuing, hs.popping⟩
  | handlerLocks hhandler howner hs' =>
    have hfree := hs.interrupted (by rw [hhandler]; nofun)
    subst hs'
    exact ⟨owner_iff nofun hfree, fun _ => hfree, hs.dequeuing, hs.popping⟩
  | handlerPushes daemon hhandler hdaemon hs' =>
    obtain ⟨hpoint, hqueue⟩ := @call_spec α .stop s.daemon daemon hdaemon
    have hfree := hs.interrupted (by rw [hhandler]; nofun)
    subst hs'
    exact ⟨hs.owner, fun _ => hfree, fun hbefore => hpoint.trans (hs.dequeuing hbefore),
      fun _ => hqueue⟩
  | handlerUnlocks hhandler hs' =>
    have hfree := hs.interrupted (by rw [hhandler]; nofun)
    subst hs'
    exact ⟨owner_iff nofun hfree, fun h => absurd rfl h, hs.dequeuing, hs.popping⟩

theorem Consistent.not_selfLocked (hs : s.Consistent) : ¬ s.SelfLocked := by
  rintro ⟨hhandler, howner⟩
  have hfree := hs.interrupted (by rw [hhandler]; nofun)
  exact hs.free hfree howner

/-- A signal locks the thread against itself exactly when it finds the mutex held by it. -/
theorem signal_selfLocked (hs : s.Consistent) (h : s.step .signal = some s') :
    s'.SelfLocked ↔ s.dequeue.holdsLock = true := by
  cases step_effect h with
  | signal _ hs' =>
    subst hs'
    rw [← hs.owner]
    exact ⟨fun hlocked => hlocked.2, fun howner => ⟨rfl, howner⟩⟩

/-- `pop_front` always finds an action. -/
theorem popFront_defined (hs : s.Consistent) (hidle : s.handler = .idle)
    (hpop : s.dequeue = .popping) : (s.step (.main .popFront)).isSome := by
  have hpoint := hs.dequeuing (by rw [hpop]; rfl)
  obtain ⟨ev, rest, hqueue⟩ := List.exists_cons_of_ne_nil (hs.popping hpop)
  unfold step mainStep act Daemon.step Daemon.dequeueAction
  simp only [hidle, hpop, hpoint, hqueue, if_true, Option.map_some, Option.isSome_some]

end LockedDaemon

/-- In every run in which no signal is delivered while the main thread holds the mutex, the
handler never waits for the thread it interrupts; and wherever such a run leads, a signal is
harmless exactly when the main thread does not hold the mutex. -/
theorem signals_never_deadlock {α τ : Type} (events : List (LockEvent α τ))
    (s : LockedDaemon α τ)
    (houtside : Throughout LockedDaemon.step LockedDaemon.SignalOutside .new events)
    (h : runFrom LockedDaemon.step .new events = some s) :
    ¬ s.SelfLocked ∧
      ∀ s', s.step .signal = some s' → (¬ s'.SelfLocked ↔ s.dequeue.holdsLock = false) := by
  have hs : s.Consistent :=
    houtside.invariant h LockedDaemon.new_consistent fun he ht hstep =>
      LockedDaemon.step_consistent ht he hstep
  refine ⟨hs.not_selfLocked, fun s' hsignal => ?_⟩
  rw [LockedDaemon.signal_selfLocked hs hsignal, Bool.not_eq_true]

/-- A signal during the wait of `dequeue_action`, and the loop ends. -/
theorem signals_never_deadlock_asleep :
    ∃ s : LockedDaemon ℕ ℕ,
      runFrom LockedDaemon.step .new
          ([.main .setRunning, .main .test, .main .lock, .main .testQueue] ++
            [.signal, .handlerLocks, .handlerPushes, .handlerUnlocks, .main .wake, .main .relock,
              .main .testQueue, .main .popFront, .main .unlock, .main .execute, .main .test]) =
        some s ∧ s.daemon.point = .exited ∧ ¬ s.SelfLocked := by
  refine ⟨_, rfl, rfl, ?_⟩
  refine (signals_never_deadlock
    ([.main .setRunning, .main .test, .main .lock, .main .testQueue] ++
      [.signal, .handlerLocks, .handlerPushes, .handlerUnlocks, .main .wake, .main .relock,
        .main .testQueue, .main .popFront, .main .unlock, .main .execute, .main .test]) _ ?_
    rfl).1
  apply throughout_append.mpr
  constructor
  · apply throughout_of_forall
    simp [LockedDaemon.SignalOutside]
  · intro t ht
    obtain rfl := Option.some.inj ht
    refine ⟨rfl, fun u hu => ?_⟩
    apply throughout_of_forall
    simp [LockedDaemon.SignalOutside]

/-- A signal right after `dequeue_action` has locked the mutex. -/
theorem signal_deadlocks :
    ¬ ∀ (events : List (LockEvent ℕ ℕ)) (s : LockedDaemon ℕ ℕ),
      runFrom LockedDaemon.step .new events = some s → ¬ s.SelfLocked := by
  intro hall
  have hlocked := hall [.main .setRunning, .main .test, .main .lock, .signal] _ rfl
  exact hlocked ⟨rfl, rfl⟩

end GemianLeds
