import GemianLeds.Daemon.Wakeups
import GemianLeds.Interaction.Progress

/-! How long the main thread takes, in steps of its own: to leave the loop after `stop`, and to
come to an action that was added to the queue. -/
namespace GemianLeds
open Interaction

namespace Daemon
variable {α : Type} {d d' : Daemon α}

/-- A call from another thread leaves the loop as it is. -/
theorem step_call {call : QueueCall α} (h : d.step call.event = some d') :
    d'.point = d.point ∧ d'.running = d.running ∧ d'.executed = d.executed := by
  cases call with
  | enqueueAction a =>
    cases step_effect h with
    | enqueueAction _ hd =>
      subst hd
      exact ⟨rfl, rfl, rfl⟩
  | flush n =>
    cases step_effect h with
    | flush _ hn hd =>
      subst hd
      exact ⟨rfl, rfl, rfl⟩
  | stop =>
    cases step_effect h with
    | stop hd =>
      subst hd
      exact ⟨rfl, rfl, rfl⟩

end Daemon

/-- A step of the main thread itself. -/
def LockEvent.isMain {α τ : Type} : LockEvent α τ → Bool
  | .main _ => true
  | _ => false

def NotifyEvent.isMain {α τ : Type} : NotifyEvent α τ → Bool
  | .lock e => e.isMain
  | .notifyOne => false

/-- `stop` is called, or the handler calls it. -/
def LockEvent.stops {α τ : Type} : LockEvent α τ → Bool
  | .add .stop | .handlerPushes => true
  | _ => false

def NotifyEvent.stops {α τ : Type} : NotifyEvent α τ → Bool
  | .lock e => e.stops
  | .notifyOne => false

namespace LockedDaemon
variable {α τ : Type} {s s' : LockedDaemon α τ}

/-- What other threads and the handler leave as it is. -/
theorem step_frame {e : LockEvent α τ} (he : e.isMain = false) (h : s.step e = some s') :
    s'.daemon.point = s.daemon.point ∧ s'.daemon.running = s.daemon.running ∧
      s'.daemon.executed = s.daemon.executed ∧ s'.dequeue = s.dequeue := by
  cases step_effect h with
  | main e _ _ => cases he
  | add t call daemon _ hdaemon hs' =>
    obtain ⟨hpoint, hrunning, hexecuted⟩ := Daemon.step_call hdaemon
    subst hs'
    exact ⟨hpoint, hrunning, hexecuted, rfl⟩
  | handlerPushes daemon _ hdaemon hs' =>
    obtain ⟨hpoint, hrunning, hexecuted⟩ :=
      @Daemon.step_call α s.daemon daemon .stop hdaemon
    subst hs'
    exact ⟨hpoint, hrunning, hexecuted, rfl⟩
  | flushReturns n daemon hdaemon hs' =>
    cases Daemon.step_effect hdaemon with
    | flushReturns _ _ hd =>
      subst hs' hd
      exact ⟨rfl, rfl, rfl, rfl⟩
  | acquire t _ hs' | release t _ hs' | signal _ hs' | handlerLocks _ _ hs'
  | handlerUnlocks _ hs' =>
    subst hs'
    exact ⟨rfl, rfl, rfl, rfl⟩

/-- The steps the main thread needs at most to leave the loop once it is stopping. -/
def stopRank (s : LockedDaemon α τ) : ℕ :=
  match s.daemon.point with
  | .starting => 8
  | .testing => if s.daemon.running then 7 else 1
  | .dequeuing =>
      match s.dequeue with
      | .sleeping => 7
      | .testingQueue => 5
      | .popping => 4
      | _ => 6
  | .executing .clearRunning => if s.dequeue = .unlocking then 3 else 2
  | .executing _ => if s.dequeue = .unlocking then 9 else 8
  | .exited => 0

/-- Whoever calls `stop` finds the main thread without the mutex. -/
theorem stopRank_le (h : s.dequeue.holdsLock = false) : s.stopRank ≤ 8 := by
  have hunlocking : s.dequeue ≠ .unlocking := by
    intro hdequeue
    rw [hdequeue] at h
    cases h
  unfold stopRank
  simp only [if_neg hunlocking]
  split <;> first | omega | (split <;> omega)

/-- While it is stopping, each of its steps brings the main thread closer to the end. -/
theorem mainEffect_stopRank {e : MainEvent} (hs : s.Consistent) (hplaced : s.Placed)
    (hstopping : s.daemon.Stopping) (h : MainEffect s s' e) : 1 + s'.stopRank ≤ s.stopRank := by
  have hdequeuing (hbefore : s.dequeue.beforePop = true) := hs.dequeuing hbefore
  have hhead (hbefore : s.dequeue.beforePop = true) :
      s.daemon.actionQueue.head? = some .clearRunning := by
    have hpoint := hdequeuing hbefore
    exact hstopping.head (by rw [hpoint]; nofun) (.inr (by rw [hpoint]; exact ⟨nofun, nofun⟩))
  cases h with
  | setRunning daemon hdequeue hdaemon hs' =>
    cases Daemon.step_effect hdaemon with
    | setRunning hpoint hd =>
      subst hs' hd
      simp [stopRank, hpoint]
  | continues daemon hdequeue hdaemon hrunning hs' =>
    cases Daemon.step_effect hdaemon with
    | continues hpoint hrunning' hd =>
      subst hs' hd
      simp [stopRank, hpoint, hrunning']
    | leaves _ hstopped hd =>
      subst hd
      exact absurd (hstopped.symm.trans hrunning) nofun
  | leaves daemon hdequeue hdaemon hrunning hs' =>
    cases Daemon.step_effect hdaemon with
    | continues _ hrunning' hd =>
      subst hd
      exact absurd (hrunning'.symm.trans hrunning) nofun
    | leaves hpoint hstopped hd =>
      subst hs' hd
      simp [stopRank, hpoint, hstopped]
  | lock hdequeue howner hs' | relock hdequeue howner hs' | finds hdequeue hqueue hs'
  | wake hdequeue hs' =>
    have hpoint := hdequeuing (by rw [hdequeue]; rfl)
    subst hs'
    simp [stopRank, hpoint, hdequeue]
  | sleeps hdequeue hqueue hs' =>
    have hfirst := hhead (by rw [hdequeue]; rfl)
    rw [hqueue] at hfirst
    cases hfirst
  | popFront daemon hdequeue hdaemon hs' =>
    have hfirst := hhead (by rw [hdequeue]; rfl)
    cases Daemon.step_effect hdaemon with
    | dequeueAction ev rest hpoint hqueue hd =>
      rw [hqueue] at hfirst
      obtain rfl := Option.some.inj hfirst
      subst hs' hd
      simp [stopRank, hpoint, hdequeue]
  | unlock hdequeue hs' =>
    obtain ⟨ev, hpoint⟩ := hplaced.unlocking hdequeue
    subst hs'
    cases ev <;> simp [stopRank, hpoint, hdequeue]
  | execute daemon hdequeue hdaemon hs' =>
    cases Daemon.step_effect hdaemon with
    | execute ev hpoint hd =>
      subst hs' hd
      cases ev with
      | clearRunning => simp [stopRank, hpoint, hdequeue, Daemon.call]
      | event a | setFlushed n =>
        cases hrunning : s.daemon.running <;>
          simp [stopRank, hpoint, hdequeue, Daemon.call, hrunning]

theorem step_stopRank {e : LockEvent α τ} (hs : s.Consistent) (hplaced : s.Placed)
    (hstopping : s.daemon.Stopping) (h : s.step e = some s') :
    e.isMain.toNat + s'.stopRank ≤ s.stopRank := by
  cases he : e.isMain with
  | true =>
    cases step_effect h with
    | main e _ heffect => exact mainEffect_stopRank hs hplaced hstopping heffect
    | _ => cases he
  | false =>
    obtain ⟨hpoint, hrunning, -, hdequeue⟩ := step_frame he h
    unfold stopRank
    rw [hpoint, hrunning, hdequeue, Bool.toNat_false, Nat.zero_add]

theorem step_stopping {e : LockEvent α τ} (hstopping : s.daemon.Stopping)
    (h : s.step e = some s') : s'.daemon.Stopping :=
  runFrom_invariant (step_refines h) hstopping fun ht hstep => (Daemon.step_stopping ht hstep).1

/-- Asleep or not, a stopping main thread has something to do. -/
theorem stopping_queue (hs : s.Consistent) (hstopping : s.daemon.Stopping)
    (hasleep : s.dequeue = .sleeping) : s.daemon.actionQueue ≠ [] := by
  have hpoint := hs.dequeuing (by rw [hasleep]; rfl)
  have hhead := hstopping.head (by rw [hpoint]; nofun)
    (.inr (by rw [hpoint]; exact ⟨nofun, nofun⟩))
  intro hqueue
  rw [hqueue] at hhead
  cases hhead

theorem stops_spec {e : LockEvent α τ} (hs : s.Consistent) (he : e.stops = true)
    (h : s.step e = some s') : s'.daemon.Stopping ∧ s'.dequeue.holdsLock = false := by
  have hstop {daemon : Daemon α} (hdaemon : s.daemon.step .stop = some daemon) :
      daemon.Stopping := by
    cases Daemon.step_effect hdaemon with
    | stop hd =>
      rw [hd]
      exact s.daemon.stop_stopping
  cases step_effect h with
  | add t call daemon howner hdaemon hs' =>
    have hfree := hs.not_holding (by rw [howner]; nofun)
    subst hs'
    cases call with
    | stop => exact ⟨hstop hdaemon, hfree⟩
    | enqueueAction a | flush n => cases he
  | handlerPushes daemon hhandler hdaemon hs' =>
    have hfree := hs.interrupted (by rw [hhandler]; nofun)
    subst hs'
    exact ⟨hstop hdaemon, hfree⟩
  | _ => cases he

end LockedDaemon

namespace NotifiedDaemon
variable {α τ : Type} {s s' : NotifiedDaemon α τ}

theorem step_stopRank {e : NotifyEvent α τ} (hs : s.Live) (hstopping : s.locked.daemon.Stopping)
    (h : s.step e = some s') :
    s'.locked.daemon.Stopping ∧ e.isMain.toNat + s'.locked.stopRank ≤ s.locked.stopRank := by
  cases step_effect h with
  | holds e locked _ hlocked hs' | releases e locked _ _ hlocked hs' =>
    subst hs'
    exact ⟨LockedDaemon.step_stopping hstopping hlocked,
      LockedDaemon.step_stopRank hs.consistent hs.placed hstopping hlocked⟩
  | wakes _ _ hasleep hs' =>
    have hpoint := hs.consistent.dequeuing (by rw [hasleep]; rfl)
    subst hs'
    refine ⟨hstopping, ?_⟩
    simp [LockedDaemon.stopRank, NotifyEvent.isMain, hpoint, hasleep]
  | idles _ _ _ hs' =>
    subst hs'
    exact ⟨hstopping, (Nat.zero_add _).le⟩

theorem stops_spec {e : NotifyEvent α τ} (hs : s.locked.Consistent) (he : e.stops = true)
    (h : s.step e = some s') :
    s'.locked.daemon.Stopping ∧ s'.locked.dequeue.holdsLock = false := by
  cases step_effect h with
  | holds e locked _ hlocked hs' | releases e locked _ _ hlocked hs' =>
    subst hs'
    exact LockedDaemon.stops_spec hs he hlocked
  | wakes _ _ _ _ | idles _ _ _ _ => cases he

end NotifiedDaemon

/-- After `stop` the main thread makes at most eight more steps, whatever else is called; and
until it has left the loop something begun can go on. -/
theorem stop_ends_loop {α τ : Type} (before after : List (NotifyEvent α τ)) (e : NotifyEvent α τ)
    (s : NotifiedDaemon α τ) (he : e.stops = true)
    (houtside : Throughout NotifiedDaemon.step NotifiedDaemon.SignalOutside .new
      (before ++ e :: after))
    (h : runFrom NotifiedDaemon.step .new (before ++ e :: after) = some s) :
    after.countP NotifyEvent.isMain ≤ 8 ∧
      (s.locked.daemon.point = .exited ∨
        ∃ e : NotifyEvent α τ, e.continues = true ∧ (s.step e).isSome) := by
  obtain ⟨t, t', ht, hstop, hafter⟩ := runFrom_split h
  have hlive := NotifiedDaemon.run_live houtside h
  obtain ⟨hbefore, hrest⟩ := throughout_append.mp houtside
  obtain ⟨hcall, hrest⟩ := hrest t ht
  have hlive' := NotifiedDaemon.run_live hbefore ht
  obtain ⟨hstopping, hfree⟩ := NotifiedDaemon.stops_spec hlive'.consistent he hstop
  have hstart : t'.Live ∧ t'.locked.daemon.Stopping :=
    ⟨NotifiedDaemon.step_live hlive' hcall hstop, hstopping⟩
  constructor
  · have hcount := count_add_rank_le (I := fun s => s.Live ∧ s.locked.daemon.Stopping)
      (fun s => s.locked.stopRank) NotifyEvent.isMain (hrest t' hstop) hafter hstart
      fun hsignal hs hstep => ?_
    · have hle := LockedDaemon.stopRank_le hfree
      omega
    · obtain ⟨hstopping, hrank⟩ := NotifiedDaemon.step_stopRank hs.1 hs.2 hstep
      exact ⟨⟨NotifiedDaemon.step_live hs.1 hsignal hstep, hstopping⟩, hrank⟩
  · have hstopping : s.locked.daemon.Stopping :=
      ((hrest t' hstop).invariant (I := fun s => s.Live ∧ s.locked.daemon.Stopping) hafter hstart
        fun hsignal hs hstep => ⟨NotifiedDaemon.step_live hs.1 hsignal hstep,
          (NotifiedDaemon.step_stopRank hs.1 hs.2 hstep).1⟩).2
    rcases NotifiedDaemon.enabled_or_resting hlive.wakeful hlive.consistent hlive.placed with
      henabled | ⟨-, -, hexited | ⟨hasleep, hqueue⟩⟩
    · exact .inr henabled
    · exact .inl hexited
    · exact absurd hqueue (LockedDaemon.stopping_queue hlive.consistent hstopping hasleep)

/-- `stop` before the loop has begun: eight steps. -/
theorem stop_ends_loop_early :
    ∃ s : NotifiedDaemon ℕ ℕ,
      runFrom NotifiedDaemon.step .new
          ([.lock (.acquire 1)] ++ .lock (.add .stop) ::
            [.notifyOne, .lock .release, .lock (.main .setRunning), .lock (.main .test),
              .lock (.main .lock), .lock (.main .testQueue), .lock (.main .popFront),
              .lock (.main .unlock), .lock (.main .execute), .lock (.main .test)]) = some s ∧
        s.locked.daemon.point = .exited ∧
        ([.notifyOne, .lock .release, .lock (.main .setRunning), .lock (.main .test),
          .lock (.main .lock), .lock (.main .testQueue), .lock (.main .popFront),
          .lock (.main .unlock), .lock (.main .execute),
          .lock (.main .test)] : List (NotifyEvent ℕ ℕ)).countP NotifyEvent.isMain ≤ 8 := by
  refine ⟨_, rfl, rfl, ?_⟩
  refine (stop_ends_loop [.lock (.acquire 1)]
    [.notifyOne, .lock .release, .lock (.main .setRunning), .lock (.main .test),
      .lock (.main .lock), .lock (.main .testQueue), .lock (.main .popFront),
      .lock (.main .unlock), .lock (.main .execute), .lock (.main .test)]
    (.lock (.add .stop)) _ rfl ?_ rfl).1
  apply throughout_of_forall
  simp [NotifiedDaemon.SignalOutside, LockedDaemon.SignalOutside]

end GemianLeds
