import GemianLeds.Daemon.Locking

/-! The condition variable of the action queue. Whoever adds an action calls `notify_one` before
it releases the mutex, and that wakes the main thread if it is asleep. -/
namespace GemianLeds
open Interaction

/-- Some thread, or the handler, has added its action and not released the mutex. -/
def LockedDaemon.hasAdded {α τ : Type} (s : LockedDaemon α τ) : Bool :=
  match s.owner with
  | some (.added _) => true
  | some .handler => s.handler = .unlocking
  | _ => false

/-- The daemon with its mutex and its condition variable. -/
structure NotifiedDaemon (α τ : Type) where
  locked : LockedDaemon α τ
  /-- Whoever has added an action has called `notify_one`. -/
  notified : Bool

inductive NotifyEvent (α τ : Type) where
  | lock (e : LockEvent α τ)
  | notifyOne

/-- The mutex is released after an action was added. -/
def LockEvent.releases {α τ : Type} : LockEvent α τ → Bool
  | .release | .handlerUnlocks => true
  | _ => false

namespace NotifiedDaemon
variable {α τ : Type}

def new : NotifiedDaemon α τ := ⟨.new, false⟩

/-- The main thread may also wake for no reason. -/
def step (s : NotifiedDaemon α τ) : NotifyEvent α τ → Option (NotifiedDaemon α τ)
  | .lock e =>
      if e.releases && !s.notified then none
      else (s.locked.step e).map fun locked => ⟨locked, s.notified && !e.releases⟩
  | .notifyOne =>
      if s.locked.hasAdded && !s.notified then
        match s.locked.dequeue with
        | .sleeping => some ⟨{ s.locked with dequeue := .relocking }, true⟩
        | _ => some ⟨s.locked, true⟩
      else none

variable {s s' : NotifiedDaemon α τ}

/-- Everything one event does. -/
inductive Effect (s s' : NotifiedDaemon α τ) : NotifyEvent α τ → Prop where
  | holds (e : LockEvent α τ) (locked : LockedDaemon α τ) (he : e.releases = false)
      (hlocked : s.locked.step e = some locked) (hs : s' = ⟨locked, s.notified⟩) :
      Effect s s' (.lock e)
  | releases (e : LockEvent α τ) (locked : LockedDaemon α τ) (he : e.releases = true)
      (hnotified : s.notified = true) (hlocked : s.locked.step e = some locked)
      (hs : s' = ⟨locked, false⟩) : Effect s s' (.lock e)
  | wakes (hadded : s.locked.hasAdded = true) (hnotified : s.notified = false)
      (hasleep : s.locked.dequeue = .sleeping)
      (hs : s' = ⟨{ s.locked with dequeue := .relocking }, true⟩) : Effect s s' .notifyOne
  | idles (hadded : s.locked.hasAdded = true) (hnotified : s.notified = false)
      (hawake : s.locked.dequeue ≠ .sleeping) (hs : s' = ⟨s.locked, true⟩) : Effect s s' .notifyOne

theorem step_effect {e : NotifyEvent α τ} (h : s.step e = some s') : Effect s s' e := by
  unfold step at h
  cases e with
  | lock e =>
    simp only at h
    split at h
    next => cases h
    next hguard =>
      obtain ⟨locked, hlocked, rfl⟩ := Option.map_eq_some_iff.mp h
      cases he : e.releases with
      | true =>
        rw [he] at hguard
        have hnotified : s.notified = true := by simpa using hguard
        exact .releases e locked he hnotified hlocked (by rw [Bool.not_true, Bool.and_false])
      | false => exact .holds e locked he hlocked (by rw [Bool.not_false, Bool.and_true])
  | notifyOne =>
    simp only at h
    split at h
    next hguard =>
      obtain ⟨hadded, hnotified⟩ := Bool.and_eq_true_iff.mp hguard
      have hnotified : s.notified = false := by simpa using hnotified
      split at h
      next hasleep => exact .wakes hadded hnotified hasleep (Option.some.inj h).symm
      next hawake => exact .idles hadded hnotified hawake (Option.some.inj h).symm
    next => cases h

/-- The main thread is asleep with actions in the queue only until the thread that has added
them notifies it. -/
structure Wakeful (s : NotifiedDaemon α τ) : Prop where
  added : s.notified = true → s.locked.hasAdded = true
  asleep : s.locked.dequeue = .sleeping →
    s.locked.daemon.actionQueue = [] ∨ (s.locked.hasAdded = true ∧ s.notified = false)
  handler : s.locked.owner = some .handler ↔
    s.locked.handler = .pushing ∨ s.locked.handler = .unlocking

theorem new_wakeful : (new : NotifiedDaemon α τ).Wakeful where
  added h := by cases h
  asleep h := by cases h
  handler := by simp [new, LockedDaemon.new]

/-- No signal is delivered while the main thread holds the mutex. -/
def SignalOutside (s : NotifiedDaemon α τ) : NotifyEvent α τ → Prop
  | .lock e => s.locked.SignalOutside e
  | .notifyOne => True

theorem hasAdded_of_owner {s : LockedDaemon α τ} (h : s.owner = none ∨ s.owner = some .main) :
    s.hasAdded = false := by
  unfold LockedDaemon.hasAdded
  rcases h with h | h <;> rw [h]

/-- A step of the main thread that leaves it awake. -/
theorem Wakeful.awake (hs : s.Wakeful) {locked : LockedDaemon α τ}
    (hawake : locked.dequeue ≠ .sleeping) (hhandler : locked.handler = s.locked.handler)
    (howner : locked.owner = s.locked.owner ∨
      (s.locked.owner = none ∨ s.locked.owner = some .main) ∧
        (locked.owner = none ∨ locked.owner = some .main)) :
    Wakeful ⟨locked, s.notified⟩ := by
  refine ⟨fun hnotified => ?_, fun hasleep => absurd hasleep hawake, ?_⟩
  · have hadded := hs.added hnotified
    rcases howner with howner | ⟨hbefore, -⟩
    · unfold LockedDaemon.hasAdded
      rw [howner, hhandler]
      exact hadded
    · rw [hasAdded_of_owner hbefore] at hadded
      cases hadded
  · change locked.owner = some .handler ↔ locked.handler = .pushing ∨ locked.handler = .unlocking
    rw [hhandler, ← hs.handler]
    rcases howner with howner | ⟨hbefore | hbefore, hafter | hafter⟩
    · rw [howner]
    all_goals simp [hbefore, hafter]

theorem mainEffect_wakeful {e : MainEvent} {locked : LockedDaemon α τ} (hs : s.Wakeful)
    (hconsistent : s.locked.Consistent) (h : LockedDaemon.MainEffect s.locked locked e) :
    Wakeful ⟨locked, s.notified⟩ := by
  have hheld (hholds : s.locked.dequeue.holdsLock = true) := hconsistent.owner.mpr hholds
  cases h with
  | setRunning daemon hdequeue _ hlocked | execute daemon hdequeue _ hlocked =>
    subst hlocked
    exact hs.awake (by rw [hdequeue]; nofun) rfl (.inl rfl)
  | continues daemon _ _ _ hlocked | leaves daemon _ _ _ hlocked | finds _ _ hlocked
  | wake _ hlocked | popFront daemon _ _ hlocked =>
    subst hlocked
    exact hs.awake nofun rfl (.inl rfl)
  | lock _ howner hlocked | relock _ howner hlocked =>
    subst hlocked
    exact hs.awake nofun rfl (.inr ⟨.inl howner, .inr rfl⟩)
  | unlock hdequeue hlocked =>
    have howner := hheld (by rw [hdequeue]; rfl)
    subst hlocked
    exact hs.awake nofun rfl (.inr ⟨.inr howner, .inl rfl⟩)
  | sleeps hdequeue hqueue hlocked =>
    have howner := hheld (by rw [hdequeue]; rfl)
    have hawake : Wakeful ⟨{ s.locked with dequeue := .outside, owner := none }, s.notified⟩ :=
      hs.awake nofun rfl (.inr ⟨.inr howner, .inl rfl⟩)
    subst hlocked
    exact ⟨hawake.added, fun _ => .inl hqueue, hawake.handler⟩

/-- What changes the mutex and the queue while the main thread stays where it is. -/
theorem lock_wakeful {e : LockEvent α τ} {locked : LockedDaemon α τ} (hs : s.Wakeful)
    (hconsistent : s.locked.Consistent) (he : e.releases = false)
    (h : s.locked.step e = some locked) : Wakeful ⟨locked, s.notified⟩ := by
  have hquiet (howner : s.locked.hasAdded = false) : s.notified = false := by
    by_contra hnotified
    rw [hs.added (by simpa using hnotified)] at howner
    cases howner
  cases LockedDaemon.step_effect h with
  | main e _ heffect => exact mainEffect_wakeful hs hconsistent heffect
  | release t _ _ | handlerUnlocks _ _ => cases he
  | acquire t howner hlocked =>
    have hnone := hasAdded_of_owner (.inl howner)
    subst hlocked
    refine ⟨fun h => absurd ((hquiet hnone).symm.trans h) nofun, fun hasleep => ?_, ?_⟩
    · exact .inl ((hs.asleep hasleep).resolve_right fun h => absurd (hnone.symm.trans h.1) nofun)
    · change some (Holder.adding t) = some .handler ↔ _
      rw [← hs.handler, howner]
      exact ⟨nofun, nofun⟩
  | add t call daemon howner hdaemon hlocked =>
    have hnone : s.locked.hasAdded = false := by
      unfold LockedDaemon.hasAdded
      rw [howner]
    subst hlocked
    refine ⟨fun h => absurd ((hquiet hnone).symm.trans h) nofun,
      fun _ => .inr ⟨rfl, hquiet hnone⟩, ?_⟩
    change some (Holder.added t) = some .handler ↔ _
    rw [← hs.handler, howner]
    exact ⟨nofun, nofun⟩
  | flushReturns n daemon hdaemon hlocked =>
    cases Daemon.step_effect hdaemon with
    | flushReturns _ _ hd =>
      subst hlocked hd
      exact hs
  | signal hidle hlocked =>
    have howner : s.locked.owner ≠ some .handler := by
      rw [Ne, hs.handler, hidle]
      rintro (h | h) <;> cases h
    have hadded : LockedDaemon.hasAdded { s.locked with handler := .locking } =
        s.locked.hasAdded := by
      unfold LockedDaemon.hasAdded
      split <;> simp_all
    subst hlocked
    refine ⟨fun h => hadded.trans (hs.added h), fun hasleep => ?_, ?_⟩
    · exact (hs.asleep hasleep).imp id fun h => ⟨hadded.trans h.1, h.2⟩
    · exact ⟨fun h => absurd h howner, by rintro (h | h) <;> cases h⟩
  | handlerLocks hhandler howner hlocked =>
    have hnone := hasAdded_of_owner (.inl howner)
    subst hlocked
    refine ⟨fun h => absurd ((hquiet hnone).symm.trans h) nofun, fun hasleep => ?_, ?_⟩
    · exact .inl ((hs.asleep hasleep).resolve_right fun h => absurd (hnone.symm.trans h.1) nofun)
    · exact ⟨fun _ => .inl rfl, fun _ => rfl⟩
  | handlerPushes daemon hhandler hdaemon hlocked =>
    have howner := hs.handler.mpr (.inl hhandler)
    have hnone : s.locked.hasAdded = false := by
      unfold LockedDaemon.hasAdded
      simp [howner, hhandler]
    have hadded : LockedDaemon.hasAdded { s.locked with daemon, handler := .unlocking } = true := by
      unfold LockedDaemon.hasAdded
      simp [howner]
    subst hlocked
    exact ⟨fun h => absurd ((hquiet hnone).symm.trans h) nofun,
      fun _ => .inr ⟨hadded, hquiet hnone⟩, fun _ => .inr rfl, fun _ => howner⟩

/-- Whoever releases the mutex has notified. -/
theorem release_wakeful {e : LockEvent α τ} {locked : LockedDaemon α τ} (hs : s.Wakeful)
    (he : e.releases = true) (hnotified : s.notified = true) (h : s.locked.step e = some locked) :
    Wakeful ⟨locked, false⟩ := by
  have hempty (hasleep : s.locked.dequeue = .sleeping) : s.locked.daemon.actionQueue = [] :=
    (hs.asleep hasleep).resolve_right fun h => absurd (hnotified.symm.trans h.2) nofun
  cases LockedDaemon.step_effect h with
  | release t howner hlocked =>
    subst hlocked
    refine ⟨nofun, fun hasleep => .inl (hempty hasleep), ?_⟩
    change none = some Holder.handler ↔ _
    rw [← hs.handler, howner]
    exact ⟨nofun, nofun⟩
  | handlerUnlocks hhandler hlocked =>
    subst hlocked
    exact ⟨nofun, fun hasleep => .inl (hempty hasleep), nofun, by rintro (h | h) <;> cases h⟩
  | main _ _ _ | acquire _ _ _ | add _ _ _ _ _ _ | flushReturns _ _ _ _ | signal _ _
  | handlerLocks _ _ _ | handlerPushes _ _ _ _ => cases he

theorem step_wakeful {e : NotifyEvent α τ} (hs : s.Wakeful) (hconsistent : s.locked.Consistent)
    (h : s.step e = some s') : s'.Wakeful := by
  cases step_effect h with
  | holds e locked he hlocked hs' =>
    subst hs'
    exact lock_wakeful hs hconsistent he hlocked
  | releases e locked he hnotified hlocked hs' =>
    subst hs'
    exact release_wakeful hs he hnotified hlocked
  | wakes hadded hnotified hasleep hs' =>
    subst hs'
    exact ⟨fun _ => hadded, nofun, hs.handler⟩
  | idles hadded hnotified hawake hs' =>
    subst hs'
    exact ⟨fun _ => hadded, fun hasleep => absurd hasleep hawake, hs.handler⟩

/-- To notify the main thread is for the mutex to do nothing, or to wake it. -/
theorem notify_consistent (hconsistent : s.locked.Consistent)
    (hasleep : s.locked.dequeue = .sleeping) :
    LockedDaemon.Consistent { s.locked with dequeue := .relocking } := by
  have hfree := hconsistent.free (by rw [hasleep]; rfl)
  exact ⟨LockedDaemon.owner_iff hfree rfl, fun _ => rfl,
    fun _ => hconsistent.dequeuing (by rw [hasleep]; rfl), nofun⟩

theorem step_consistent {e : NotifyEvent α τ} (hconsistent : s.locked.Consistent)
    (he : s.SignalOutside e) (h : s.step e = some s') : s'.locked.Consistent := by
  cases step_effect h with
  | holds e locked _ hlocked hs' | releases e locked _ _ hlocked hs' =>
    subst hs'
    exact LockedDaemon.step_consistent hconsistent he hlocked
  | wakes _ _ hasleep hs' =>
    subst hs'
    exact notify_consistent hconsistent hasleep
  | idles _ _ _ hs' =>
    subst hs'
    exact hconsistent

end NotifiedDaemon

namespace LockedDaemon
variable {α τ : Type} {s s' : LockedDaemon α τ}

/-- Where the main thread is in `dequeue_action`, against where it is in the loop. -/
structure Placed (s : LockedDaemon α τ) : Prop where
  dequeuing : s.daemon.point = .dequeuing → s.dequeue.beforePop = true
  unlocking : s.dequeue = .unlocking → ∃ ev, s.daemon.point = .executing ev

theorem new_placed : (new : LockedDaemon α τ).Placed := ⟨nofun, nofun⟩

/-- Between two actions the main thread is outside. -/
theorem placed_outside (hdequeue : s.dequeue = .outside) (hpoint : s.daemon.point ≠ .dequeuing) :
    s.Placed :=
  ⟨fun h => absurd h hpoint, fun h => absurd (hdequeue.symm.trans h) nofun⟩

theorem mainEffect_placed {e : MainEvent} (hs : s.Placed) (h : MainEffect s s' e) : s'.Placed := by
  cases h with
  | setRunning daemon hdequeue hdaemon hs' =>
    cases Daemon.step_effect hdaemon with
    | setRunning _ hd =>
      subst hs' hd
      exact placed_outside hdequeue nofun
  | execute daemon hdequeue hdaemon hs' =>
    cases Daemon.step_effect hdaemon with
    | execute _ _ hd =>
      subst hs' hd
      exact placed_outside hdequeue nofun
  | leaves daemon _ hdaemon hrunning hs' =>
    cases Daemon.step_effect hdaemon with
    | leaves _ _ hd =>
      subst hs' hd
      exact placed_outside rfl nofun
    | continues _ hrunning' hd =>
      subst hd
      exact absurd (hrunning'.symm.trans hrunning) nofun
  | popFront daemon _ hdaemon hs' =>
    cases Daemon.step_effect hdaemon with
    | dequeueAction ev _ _ _ hd =>
      subst hs' hd
      exact ⟨nofun, fun _ => ⟨ev, rfl⟩⟩
  | unlock hdequeue hs' =>
    subst hs'
    refine placed_outside rfl fun hpoint => ?_
    have hbefore := hs.dequeuing hpoint
    rw [hdequeue] at hbefore
    cases hbefore
  | continues _ _ _ _ hs' | lock _ _ hs' | sleeps _ _ hs' | finds _ _ hs' | wake _ hs'
  | relock _ _ hs' =>
    subst hs'
    exact ⟨fun _ => rfl, nofun⟩

theorem step_placed {e : LockEvent α τ} (hs : s.Placed) (h : s.step e = some s') : s'.Placed := by
  have hcall {daemon : Daemon α} (hpoint : daemon.point = s.daemon.point) :
      (daemon.point = .dequeuing → s.dequeue.beforePop = true) ∧
        (s.dequeue = .unlocking → ∃ ev, daemon.point = .executing ev) := by
    rw [hpoint]
    exact ⟨hs.dequeuing, hs.unlocking⟩
  cases step_effect h with
  | main e _ heffect => exact mainEffect_placed hs heffect
  | add t call daemon _ hdaemon hs' =>
    obtain ⟨hdequeuing, hunlocking⟩ := hcall (call_spec hdaemon).1
    subst hs'
    exact ⟨hdequeuing, hunlocking⟩
  | handlerPushes daemon _ hdaemon hs' =>
    obtain ⟨hdequeuing, hunlocking⟩ := hcall (@call_spec α .stop s.daemon daemon hdaemon).1
    subst hs'
    exact ⟨hdequeuing, hunlocking⟩
  | flushReturns n daemon hdaemon hs' =>
    cases Daemon.step_effect hdaemon with
    | flushReturns _ _ hd =>
      subst hs' hd
      exact hs
  | acquire t _ hs' | release t _ hs' | signal _ hs' | handlerLocks _ _ hs'
  | handlerUnlocks _ hs' =>
    subst hs'
    exact ⟨hs.dequeuing, hs.unlocking⟩

/-- With the mutex free or its own, the main thread can go on, unless it has left the loop or is
asleep. -/
theorem main_enabled (hs : s.Consistent) (hplaced : s.Placed) (hidle : s.handler = .idle)
    (howner : s.owner = none ∨ s.owner = some .main) :
    (∃ e, e ≠ .wake ∧ (s.step (.main e)).isSome) ∨
      (s.dequeue = .outside ∧ s.daemon.point = .exited) ∨ s.dequeue = .sleeping := by
  have hfree (hholds : s.dequeue.holdsLock = false) : s.owner = none :=
    howner.resolve_right (hs.free hholds)
  cases hdequeue : s.dequeue with
  | sleeping => exact .inr (.inr rfl)
  | locking =>
    refine .inl ⟨.lock, nofun, ?_⟩
    simp [step, mainStep, hidle, hdequeue, hfree (by rw [hdequeue]; rfl)]
  | relocking =>
    refine .inl ⟨.relock, nofun, ?_⟩
    simp [step, mainStep, hidle, hdequeue, hfree (by rw [hdequeue]; rfl)]
  | testingQueue =>
    refine .inl ⟨.testQueue, nofun, ?_⟩
    cases hqueue : s.daemon.actionQueue <;> simp [step, mainStep, hidle, hdequeue, hqueue]
  | popping => exact .inl ⟨.popFront, nofun, popFront_defined hs hidle hdequeue⟩
  | unlocking =>
    refine .inl ⟨.unlock, nofun, ?_⟩
    simp [step, mainStep, hidle, hdequeue]
  | outside =>
    cases hpoint : s.daemon.point with
    | exited => exact .inr (.inl ⟨rfl, rfl⟩)
    | dequeuing =>
      have hbefore := hplaced.dequeuing hpoint
      rw [hdequeue] at hbefore
      cases hbefore
    | starting =>
      refine .inl ⟨.setRunning, nofun, ?_⟩
      simp [step, mainStep, act, Daemon.step, hidle, hdequeue, hpoint]
    | testing =>
      refine .inl ⟨.test, nofun, ?_⟩
      simp [step, mainStep, act, Daemon.step, hidle, hdequeue, hpoint]
    | executing ev =>
      refine .inl ⟨.execute, nofun, ?_⟩
      simp [step, mainStep, act, Daemon.step, hidle, hdequeue, hpoint]

end LockedDaemon

/-- What goes on with something begun, as opposed to a call, a signal or a wakeup for no reason. -/
def NotifyEvent.continues {α τ : Type} : NotifyEvent α τ → Bool
  | .lock (.main .wake) | .lock (.acquire _) | .lock (.flushReturns _) | .lock .signal => false
  | _ => true

namespace NotifiedDaemon
variable {α τ : Type} {s s' : NotifiedDaemon α τ}

/-- The loop is left, or the main thread sleeps and there is nothing to do. -/
def Resting (s : NotifiedDaemon α τ) : Prop :=
  s.locked.owner = none ∧ s.locked.handler = .idle ∧
    (s.locked.daemon.point = .exited ∨
      (s.locked.dequeue = .sleeping ∧ s.locked.daemon.actionQueue = []))

/-- Whoever has added an action can notify, or has, and can release the mutex. -/
theorem added_enabled {e : LockEvent α τ} (hadded : s.locked.hasAdded = true)
    (he : (s.locked.step e).isSome) (hreleases : e.releases = true) :
    ∃ e : NotifyEvent α τ, e.continues = true ∧ (s.step e).isSome := by
  cases hnotified : s.notified with
  | true =>
    refine ⟨.lock e, ?_, ?_⟩
    · cases e with
      | release | handlerUnlocks => rfl
      | _ => cases hreleases
    · simpa [step, hnotified] using he
  | false =>
    refine ⟨.notifyOne, rfl, ?_⟩
    unfold step
    simp only [hadded, hnotified, Bool.not_false, Bool.and_true, if_true]
    split <;> rfl

/-- Unless it is at rest, something begun can go on. -/
theorem enabled_or_resting (hs : s.Wakeful) (hconsistent : s.locked.Consistent)
    (hplaced : s.locked.Placed) :
    (∃ e : NotifyEvent α τ, e.continues = true ∧ (s.step e).isSome) ∨ s.Resting := by
  have hlock (e : LockEvent α τ) (he : e.releases = false) (hsome : (s.locked.step e).isSome) :
      (s.step (.lock e)).isSome := by
    simpa [step, he] using hsome
  have hthread (t : τ) (howner : s.locked.owner = some (.adding t)) :
      ∃ e : NotifyEvent α τ, e.continues = true ∧ (s.step e).isSome := by
    refine ⟨.lock (.add .stop), rfl, hlock _ rfl ?_⟩
    simp [LockedDaemon.step, howner, LockedDaemon.act, QueueCall.event, Daemon.step]
  have hrelease (t : τ) (howner : s.locked.owner = some (.added t)) :
      ∃ e : NotifyEvent α τ, e.continues = true ∧ (s.step e).isSome := by
    refine added_enabled (e := .release) ?_ ?_ rfl
    · unfold LockedDaemon.hasAdded
      rw [howner]
    · simp [LockedDaemon.step, howner]
  cases hhandler : s.locked.handler with
  | pushing =>
    refine .inl ⟨.lock .handlerPushes, rfl, hlock _ rfl ?_⟩
    simp [LockedDaemon.step, hhandler, LockedDaemon.act, Daemon.step]
  | unlocking =>
    have howner := hs.handler.mpr (.inr hhandler)
    refine .inl (added_enabled (e := .handlerUnlocks) ?_ ?_ rfl)
    · unfold LockedDaemon.hasAdded
      simp [howner, hhandler]
    · simp [LockedDaemon.step, hhandler]
  | locking =>
    left
    cases howner : s.locked.owner with
    | none =>
      refine ⟨.lock .handlerLocks, rfl, hlock _ rfl ?_⟩
      simp [LockedDaemon.step, hhandler, howner]
    | some holder =>
      cases holder with
      | adding t => exact hthread t howner
      | added t => exact hrelease t howner
      | main =>
        have hheld := hconsistent.owner.mp howner
        rw [hconsistent.interrupted (by rw [hhandler]; nofun)] at hheld
        cases hheld
      | handler =>
        rcases hs.handler.mp howner with h | h <;> exact absurd (hhandler.symm.trans h) nofun
  | idle =>
    have hmain (howner : s.locked.owner = none ∨ s.locked.owner = some .main) :
        (∃ e : NotifyEvent α τ, e.continues = true ∧ (s.step e).isSome) ∨ s.Resting := by
      have hadded := hasAdded_of_owner howner
      rcases LockedDaemon.main_enabled hconsistent hplaced hhandler howner with
        ⟨e, he, hsome⟩ | ⟨hdequeue, hpoint⟩ | hasleep
      · refine .inl ⟨.lock (.main e), ?_, hlock _ rfl hsome⟩
        cases e <;> first | rfl | exact absurd rfl he
      · have hfree := hconsistent.free (by rw [hdequeue]; rfl)
        exact .inr ⟨howner.resolve_right hfree, hhandler, .inl hpoint⟩
      · have hfree := hconsistent.free (by rw [hasleep]; rfl)
        have hempty := (hs.asleep hasleep).resolve_right fun h =>
          absurd (hadded.symm.trans h.1) nofun
        exact .inr ⟨howner.resolve_right hfree, hhandler, .inr ⟨hasleep, hempty⟩⟩
    cases howner : s.locked.owner with
    | none => exact hmain (.inl howner)
    | some holder =>
      cases holder with
      | main => exact hmain (.inr howner)
      | adding t => exact .inl (hthread t howner)
      | added t => exact .inl (hrelease t howner)
      | handler =>
        rcases hs.handler.mp howner with h | h <;> exact absurd (hhandler.symm.trans h) nofun

/-- What holds in every run whose signals come while the mutex is not the main thread's. -/
structure Live (s : NotifiedDaemon α τ) : Prop where
  wakeful : s.Wakeful
  consistent : s.locked.Consistent
  placed : s.locked.Placed

theorem new_live : (new : NotifiedDaemon α τ).Live :=
  ⟨new_wakeful, LockedDaemon.new_consistent, LockedDaemon.new_placed⟩

theorem step_live {e : NotifyEvent α τ} (hs : s.Live) (he : s.SignalOutside e)
    (h : s.step e = some s') : s'.Live := by
  refine ⟨step_wakeful hs.wakeful hs.consistent h, step_consistent hs.consistent he h, ?_⟩
  cases step_effect h with
  | holds e locked _ hlocked hs' | releases e locked _ _ hlocked hs' =>
    subst hs'
    exact LockedDaemon.step_placed hs.placed hlocked
  | wakes _ _ _ hs' =>
    subst hs'
    exact ⟨fun _ => rfl, nofun⟩
  | idles _ _ _ hs' =>
    subst hs'
    exact hs.placed

theorem run_live {events : List (NotifyEvent α τ)}
    (houtside : Throughout step SignalOutside .new events)
    (h : runFrom step .new events = some s) : s.Live :=
  houtside.invariant h new_live fun he hs hstep => step_live hs he hstep

end NotifiedDaemon

/-- No wakeup is lost and nobody waits for ever: in every run with no signal during the main
thread's hold of the mutex, the main thread sleeps with actions in the queue only until the one
who has added them notifies it; and unless the loop has been left, or it sleeps with an empty
queue and the mutex free, some step can follow that is no new call. -/
theorem no_lost_wakeup {α τ : Type} (events : List (NotifyEvent α τ)) (s : NotifiedDaemon α τ)
    (houtside : Throughout NotifiedDaemon.step NotifiedDaemon.SignalOutside .new events)
    (h : runFrom NotifiedDaemon.step .new events = some s) :
    (s.locked.dequeue = .sleeping → s.locked.daemon.actionQueue ≠ [] →
      s.locked.hasAdded = true ∧ s.notified = false) ∧
    ((∃ e : NotifyEvent α τ, e.continues = true ∧ (s.step e).isSome) ∨ s.Resting) := by
  have hs := NotifiedDaemon.run_live houtside h
  refine ⟨fun hasleep hqueue => ?_,
    NotifiedDaemon.enabled_or_resting hs.wakeful hs.consistent hs.placed⟩
  exact (hs.wakeful.asleep hasleep).resolve_left hqueue

/-- An action comes while the main thread is asleep. -/
theorem no_lost_wakeup_asleep :
    ∃ s : NotifiedDaemon ℕ ℕ,
      runFrom NotifiedDaemon.step .new
          [.lock (.main .setRunning), .lock (.main .test), .lock (.main .lock),
            .lock (.main .testQueue), .lock (.acquire 1), .lock (.add (.enqueueAction 7))] =
          some s ∧
        s.locked.daemon.actionQueue = [.event 7] ∧
        s.locked.hasAdded = true ∧ s.notified = false := by
  refine ⟨_, rfl, rfl, ?_⟩
  refine (no_lost_wakeup
    [.lock (.main .setRunning), .lock (.main .test), .lock (.main .lock),
      .lock (.main .testQueue), .lock (.acquire 1), .lock (.add (.enqueueAction 7))] _ ?_ rfl).1
    rfl nofun
  apply throughout_of_forall
  simp [NotifiedDaemon.SignalOutside, LockedDaemon.SignalOutside]

end GemianLeds
