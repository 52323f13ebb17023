import GemianLeds.Daemon.Promptness

/-! `flush` from call to return. As long as nobody calls `stop`, the main thread comes to every
action in the queue after six steps for each one before it; a call of `flush` that `stop`
overtakes waits for ever. -/
namespace GemianLeds
open Interaction

namespace Daemon
variable {α : Type} {d d' : Daemon α}

/-- The actions taken from the queue and those still in it. -/
def actions (d : Daemon α) : List (Action α) := d.dequeued ++ d.actionQueue

/-- Nobody has called `stop`. -/
structure Unstopped (d : Daemon α) : Prop where
  running : d.point = .starting ∨ (d.running = true ∧ d.point ≠ .exited)
  actions : .clearRunning ∉ d.actions
  flushed : ∀ n, .setFlushed n ∈ d.executed → n ∈ d.flushed

theorem new_unstopped : (new : Daemon α).Unstopped where
  running := .inl rfl
  actions := List.not_mem_nil
  flushed n h := by cases h

/-- What an event other than `stop` adds to the actions. -/
theorem step_actions {e : DaemonEvent α} (he : e ≠ .stop) (h : d.step e = some d') :
    d'.actions = d.actions ++ e.enqueued.toList := by
  cases step_effect h with
  | stop _ => exact absurd rfl he
  | enqueueAction a hd =>
    subst hd
    exact (List.append_assoc ..).symm
  | flush n hn hd =>
    subst hd hn
    exact (List.append_assoc ..).symm
  | flushReturns n hn hd =>
    subst hd
    exact (List.append_nil _).symm
  | setRunning hpoint hd | continues hpoint hrunning hd | leaves hpoint hrunning hd =>
    subst hd
    unfold actions dequeued inHand
    rw [hpoint]
    exact (List.append_nil _).symm
  | dequeueAction ev rest hpoint hqueue hd =>
    subst hd
    unfold actions dequeued inHand
    rw [hpoint, hqueue]
    change d.executed ++ [ev] ++ rest = d.executed ++ [] ++ ev :: rest ++ []
    rw [List.append_nil, List.append_nil, List.append_assoc]
    rfl
  | execute ev hpoint hd =>
    subst hd
    unfold actions dequeued inHand
    rw [hpoint]
    change d.executed ++ [ev] ++ [] ++ (d.call ev).actionQueue =
      d.executed ++ [ev] ++ d.actionQueue ++ []
    rw [List.append_nil, List.append_nil, call_actionQueue]

theorem enqueued_ne_clearRunning (e : DaemonEvent α) : .clearRunning ∉ e.enqueued.toList := by
  cases e <;> simp [DaemonEvent.enqueued]

theorem executing_mem {ev : Action α} (h : d.point = .executing ev) : ev ∈ d.actions := by
  unfold actions dequeued inHand
  rw [h]
  simp

theorem step_unstopped {e : DaemonEvent α} (hd : d.Unstopped) (he : e ≠ .stop)
    (h : d.step e = some d') : d'.Unstopped := by
  have hactions : .clearRunning ∉ d'.actions := by
    rw [step_actions he h, List.mem_append]
    rintro (hmem | hmem)
    · exact hd.actions hmem
    · exact enqueued_ne_clearRunning e hmem
  cases step_effect h with
  | stop _ => exact absurd rfl he
  | enqueueAction a hd' | flush n hn hd' | flushReturns n hn hd' =>
    subst hd'
    exact ⟨hd.running, hactions, hd.flushed⟩
  | setRunning hpoint hd' =>
    subst hd'
    exact ⟨.inr ⟨rfl, nofun⟩, hactions, hd.flushed⟩
  | continues hpoint hrunning hd' =>
    subst hd'
    exact ⟨.inr ⟨hrunning, nofun⟩, hactions, hd.flushed⟩
  | leaves hpoint hstopped hd' =>
    rcases hd.running with hstarting | ⟨hrunning, -⟩
    · exact absurd (hpoint.symm.trans hstarting) nofun
    · exact absurd (hstopped.symm.trans hrunning) nofun
  | dequeueAction ev rest hpoint hqueue hd' =>
    rcases hd.running with hstarting | ⟨hrunning, -⟩
    · exact absurd (hpoint.symm.trans hstarting) nofun
    · subst hd'
      exact ⟨.inr ⟨hrunning, nofun⟩, hactions, hd.flushed⟩
  | execute ev hpoint hd' =>
    have hev : ev ≠ .clearRunning := by
      rintro rfl
      exact hd.actions (executing_mem hpoint)
    rcases hd.running with hstarting | ⟨hrunning, -⟩
    · exact absurd (hpoint.symm.trans hstarting) nofun
    · subst hd'
      refine ⟨.inr ⟨?_, nofun⟩, hactions, fun n hn => ?_⟩
      · cases ev with
        | clearRunning => exact absurd rfl hev
        | event a | setFlushed n => exact hrunning
      · rcases List.mem_append.mp hn with hn | hn
        · have hflushed := hd.flushed n hn
          cases ev with
          | setFlushed m => exact List.mem_cons_of_mem m hflushed
          | event a | clearRunning => exact hflushed
        · obtain rfl := List.mem_singleton.mp hn
          exact List.mem_cons_self

theorem step_executed {e : DaemonEvent α} (h : d.step e = some d') :
    d.executed <+: d'.executed := by
  cases step_effect h with
  | execute ev hpoint hd =>
    subst hd
    exact List.prefix_append ..
  | enqueueAction _ hd | flush _ _ hd | flushReturns _ _ hd | stop hd | setRunning _ hd
  | continues _ _ hd | leaves _ _ hd | dequeueAction _ _ _ _ hd =>
    subst hd
    exact List.prefix_rfl

end Daemon

namespace LockedDaemon
variable {α τ : Type} {s s' : LockedDaemon α τ}

theorem daemonEvents_ne_stop {e : LockEvent α τ} (he : e.stops = false) :
    ∀ e' ∈ e.daemonEvents, e' ≠ .stop := by
  cases e with
  | main e => cases e <;> simp [LockEvent.daemonEvents]
  | add call =>
    cases call with
    | stop => cases he
    | enqueueAction a | flush n => simp [LockEvent.daemonEvents, QueueCall.event]
  | handlerPushes => cases he
  | _ => simp [LockEvent.daemonEvents]

/-- Without a call of `stop` the actions go on from those there were. -/
theorem step_unstopped {e : LockEvent α τ} (hd : s.daemon.Unstopped) (he : e.stops = false)
    (h : s.step e = some s') :
    s'.daemon.Unstopped ∧ s.daemon.actions <+: s'.daemon.actions ∧
      s.daemon.executed <+: s'.daemon.executed := by
  refine (throughout_of_forall (P := fun _ e => e ≠ DaemonEvent.stop) s.daemon
    fun e' he' _ => daemonEvents_ne_stop he e' he').invariant
      (I := fun d => d.Unstopped ∧ s.daemon.actions <+: d.actions ∧
        s.daemon.executed <+: d.executed)
      (step_refines h) ⟨hd, List.prefix_rfl, List.prefix_rfl⟩ fun {t e' t'} he' ht hstep => ?_
  refine ⟨Daemon.step_unstopped ht.1 he' hstep, ht.2.1.trans ?_,
    ht.2.2.trans (Daemon.step_executed hstep)⟩
  rw [Daemon.step_actions he' hstep]
  exact List.prefix_append ..

/-- What the main thread has done, six steps for each action. -/
def workRank (s : LockedDaemon α τ) : ℕ :=
  6 * s.daemon.executed.length +
    match s.daemon.point with
    | .starting => 0
    | .testing => 1
    | .dequeuing =>
        match s.dequeue with
        | .sleeping => 1
        | .testingQueue => 3
        | .popping => 4
        | _ => 2
    | .executing _ => if s.dequeue = .unlocking then 5 else 6
    | .exited => 0

theorem workRank_le (s : LockedDaemon α τ) : s.workRank ≤ 6 * s.daemon.executed.length + 6 := by
  unfold workRank
  split <;> first | omega | (split <;> omega)

/-- Each of its steps brings the main thread forward, unless it goes to sleep. -/
theorem mainEffect_workRank {e : MainEvent} (hs : s.Consistent) (hplaced : s.Placed)
    (hd : s.daemon.Unstopped) (h : MainEffect s s' e) :
    s.daemon.actions = s.daemon.executed ∨ s.workRank + 1 ≤ s'.workRank := by
  have hdequeuing (hbefore : s.dequeue.beforePop = true) := hs.dequeuing hbefore
  cases h with
  | setRunning daemon hdequeue hdaemon hs' =>
    cases Daemon.step_effect hdaemon with
    | setRunning hpoint hd =>
      subst hs' hd
      right
      simp [workRank, hpoint]
  | continues daemon hdequeue hdaemon hrunning hs' =>
    cases Daemon.step_effect hdaemon with
    | continues hpoint hrunning' hd =>
      subst hs' hd
      right
      simp [workRank, hpoint]
    | leaves _ hstopped hd =>
      subst hd
      exact absurd (hstopped.symm.trans hrunning) nofun
  | leaves daemon hdequeue hdaemon hrunning hs' =>
    cases Daemon.step_effect hdaemon with
    | continues _ hrunning' hd =>
      subst hd
      exact absurd (hrunning'.symm.trans hrunning) nofun
    | leaves hpoint hstopped hd' =>
      rcases hd.running with hstarting | ⟨hrunning, -⟩
      · exact absurd (hpoint.symm.trans hstarting) nofun
      · exact absurd (hstopped.symm.trans hrunning) nofun
  | lock hdequeue howner hs' | relock hdequeue howner hs' | finds hdequeue hqueue hs'
  | wake hdequeue hs' =>
    have hpoint := hdequeuing (by rw [hdequeue]; rfl)
    subst hs'
    right
    simp [workRank, hpoint, hdequeue]
  | sleeps hdequeue hqueue hs' =>
    have hpoint := hdequeuing (by rw [hdequeue]; rfl)
    left
    unfold Daemon.actions Daemon.dequeued Daemon.inHand
    rw [hpoint, hqueue, List.append_nil]
    exact List.append_nil _
  | popFront daemon hdequeue hdaemon hs' =>
    cases Daemon.step_effect hdaemon with
    | dequeueAction ev rest hpoint hqueue hd =>
      subst hs' hd
      right
      simp [workRank, hpoint, hdequeue]
  | unlock hdequeue hs' =>
    obtain ⟨ev, hpoint⟩ := hplaced.unlocking hdequeue
    subst hs'
    right
    simp [workRank, hpoint, hdequeue]
  | execute daemon hdequeue hdaemon hs' =>
    cases Daemon.step_effect hdaemon with
    | execute ev hpoint hd =>
      subst hs' hd
      right
      simp [workRank, hpoint, hdequeue]
      omega

theorem step_workRank {e : LockEvent α τ} (hs : s.Consistent) (hplaced : s.Placed)
    (hd : s.daemon.Unstopped) (h : s.step e = some s') :
    s.daemon.actions = s.daemon.executed ∨ s.workRank + e.isMain.toNat ≤ s'.workRank := by
  cases he : e.isMain with
  | true =>
    cases step_effect h with
    | main e _ heffect => exact mainEffect_workRank hs hplaced hd heffect
    | _ => cases he
  | false =>
    obtain ⟨hpoint, -, hexecuted, hdequeue⟩ := step_frame he h
    right
    unfold workRank
    rw [hpoint, hexecuted, hdequeue]
    exact (Nat.add_zero _).le

end LockedDaemon

/-- What an event is for the action queue. -/
def NotifyEvent.daemonEvents {α τ : Type} : NotifyEvent α τ → List (DaemonEvent α)
  | .lock e => e.daemonEvents
  | .notifyOne => []

theorem NotifyEvent.daemonEvents_stops {α τ : Type} {e : NotifyEvent α τ} (he : e.stops = true) :
    e.daemonEvents = [.stop] := by
  cases e with
  | notifyOne => cases he
  | lock e =>
    cases e with
    | add call =>
      cases call with
      | stop => rfl
      | enqueueAction a | flush n => cases he
    | handlerPushes => rfl
    | _ => cases he

namespace NotifiedDaemon
variable {α τ : Type} {s s' : NotifiedDaemon α τ}

theorem step_refines {e : NotifyEvent α τ} (h : s.step e = some s') :
    runFrom Daemon.step s.locked.daemon e.daemonEvents = some s'.locked.daemon := by
  cases step_effect h with
  | holds e locked _ hlocked hs' | releases e locked _ _ hlocked hs' =>
    subst hs'
    exact LockedDaemon.step_refines hlocked
  | wakes _ _ _ hs' | idles _ _ _ hs' =>
    subst hs'
    rfl

/-- The main thread is at work on a list of actions, and possibly on more. -/
structure Working (actions : List (Action α)) (s : NotifiedDaemon α τ) : Prop where
  live : s.Live
  unstopped : s.locked.daemon.Unstopped
  actions : actions <+: s.locked.daemon.actions

theorem Working.mem_executed {actions : List (Action α)} (hs : s.Working actions)
    (hdone : actions.length ≤ s.locked.daemon.executed.length) {action : Action α}
    (haction : action ∈ actions) : action ∈ s.locked.daemon.executed := by
  have hexecuted : s.locked.daemon.executed <+: s.locked.daemon.actions := by
    unfold Daemon.actions Daemon.dequeued
    rw [List.append_assoc]
    exact List.prefix_append ..
  exact (List.prefix_of_prefix_length_le hs.actions hexecuted hdone).subset haction

/-- A step without `stop` keeps the main thread at work, and a step of its own counts, until the
actions are done. -/
theorem step_working {actions : List (Action α)} {e : NotifyEvent α τ} (hs : s.Working actions)
    (he : e.stops = false) (hsignal : s.SignalOutside e) (h : s.step e = some s') :
    s'.Working actions ∧ s.locked.daemon.executed <+: s'.locked.daemon.executed ∧
      (actions.length ≤ s.locked.daemon.executed.length ∨
        s.locked.workRank + e.isMain.toNat ≤ s'.locked.workRank) := by
  have hlive := step_live hs.live hsignal h
  cases step_effect h with
  | holds e locked _ hlocked hs' | releases e locked _ _ hlocked hs' =>
    obtain ⟨hunstopped, hactions, hexecuted⟩ := LockedDaemon.step_unstopped hs.unstopped he hlocked
    subst hs'
    refine ⟨⟨hlive, hunstopped, hs.actions.trans hactions⟩, hexecuted, ?_⟩
    refine (LockedDaemon.step_workRank hs.live.consistent hs.live.placed hs.unstopped hlocked).imp
      (fun hdone => ?_) id
    rw [← hdone]
    exact hs.actions.length_le
  | wakes _ _ hasleep hs' =>
    have hpoint := hs.live.consistent.dequeuing (by rw [hasleep]; rfl)
    subst hs'
    refine ⟨⟨hlive, hs.unstopped, hs.actions⟩, List.prefix_rfl, .inr ?_⟩
    simp [LockedDaemon.workRank, NotifyEvent.isMain, hpoint, hasleep]
  | idles _ _ _ hs' =>
    subst hs'
    exact ⟨⟨hlive, hs.unstopped, hs.actions⟩, List.prefix_rfl, .inr (Nat.add_zero _).le⟩

theorem Working.run {actions : List (Action α)} {events : List (NotifyEvent α τ)}
    (hs : s.Working actions) (hstops : ∀ e ∈ events, e.stops = false)
    (houtside : Throughout step SignalOutside s events) (h : runFrom step s events = some s') :
    s'.Working actions :=
  (houtside.and (throughout_of_forall s fun e he _ => hstops e he)).invariant h hs
    fun hl ht hstep => (step_working ht hl.2 hl.1 hstep).1

/-- After a number of steps of the main thread the actions are done. -/
theorem run_working {actions : List (Action α)} {events : List (NotifyEvent α τ)}
    (hs : s.Working actions) (hstops : ∀ e ∈ events, e.stops = false)
    (houtside : Throughout step SignalOutside s events) (h : runFrom step s events = some s')
    (hcount : 6 * actions.length < 6 * s.locked.daemon.executed.length +
      events.countP NotifyEvent.isMain) :
    ∀ action ∈ actions, action ∈ s'.locked.daemon.executed := by
  have hboth : Throughout step (fun s e => s.SignalOutside e ∧ e.stops = false) s events :=
    houtside.and (throughout_of_forall s fun e he _ => hstops e he)
  have hworking := hs.run hstops houtside h
  have hdone := done_or_count_le (I := Working actions)
    (fun s => actions.length ≤ s.locked.daemon.executed.length)
    (fun s => s.locked.workRank) NotifyEvent.isMain hboth h hs
    fun hl ht hstep => by
      obtain ⟨hnext, hexecuted, hrank⟩ := step_working ht hl.2 hl.1 hstep
      have hlength := hexecuted.length_le
      exact ⟨hnext, fun hd => hd.trans hlength, hrank.imp (fun hd => hd.trans hlength) id⟩
  intro action haction
  apply hworking.mem_executed _ haction
  rcases hdone with hdone | hrank
  · exact hdone
  · have hle := s'.locked.workRank_le
    have hge : 6 * s.locked.daemon.executed.length ≤ s.locked.workRank := Nat.le_add_right ..
    omega

theorem new_working : (new : NotifiedDaemon α τ).Working [] :=
  ⟨new_live, Daemon.new_unstopped, List.nil_prefix⟩

/-- A call of `flush` adds its action to those that the main thread is at work on. -/
theorem flush_working {actions : List (Action α)} {n : ℕ} (hs : s.Working actions)
    (h : s.step (.lock (.add (.flush n))) = some s') :
    s'.Working (s.locked.daemon.actions ++ [.setFlushed n]) ∧
      s'.locked.daemon.executed = s.locked.daemon.executed := by
  have hsignal : s.SignalOutside (.lock (.add (.flush n))) := trivial
  have hworking := (step_working hs rfl hsignal h).1
  have hrun : s.locked.daemon.step (QueueCall.flush n).event = some s'.locked.daemon :=
    (runFrom_singleton ..).symm.trans (step_refines h)
  have hne : (QueueCall.flush n).event ≠ (.stop : DaemonEvent α) := nofun
  have hactions := Daemon.step_actions hne hrun
  have hexecuted := (Daemon.step_call hrun).2.2
  exact ⟨⟨hworking.live, hworking.unstopped, ⟨[], (List.append_nil _).trans hactions.symm⟩⟩,
    hexecuted⟩

end NotifiedDaemon

/-- When nobody calls `stop`, a call of `flush` can return after six steps of the main thread for
every action that was in hand or in the queue, and six for its own, and one more. -/
theorem flush_returns_in_time {α τ : Type} (before after : List (NotifyEvent α τ)) (n : ℕ)
    (t s : NotifiedDaemon α τ)
    (houtside : Throughout NotifiedDaemon.step NotifiedDaemon.SignalOutside .new
      (before ++ .lock (.add (.flush n)) :: after))
    (hstops : ∀ e ∈ before ++ after, e.stops = false)
    (ht : runFrom NotifiedDaemon.step .new before = some t)
    (h : runFrom NotifiedDaemon.step .new (before ++ .lock (.add (.flush n)) :: after) = some s)
    (hcount : 6 * (t.locked.daemon.inHand.length + t.locked.daemon.actionQueue.length + 1) <
      after.countP NotifyEvent.isMain) :
    n ∈ s.locked.daemon.flushed ∧ (s.step (.lock (.flushReturns n))).isSome := by
  obtain ⟨u, t', hu, hflush, hafter⟩ := runFrom_split h
  obtain rfl := Option.some.inj (ht.symm.trans hu)
  obtain ⟨hbefore, hrest⟩ := throughout_append.mp houtside
  have hworking : t.Working [] :=
    NotifiedDaemon.new_working.run (fun e he => hstops e (List.mem_append_left _ he)) hbefore ht
  obtain ⟨hworking', hexecuted⟩ := NotifiedDaemon.flush_working hworking hflush
  have hlater : ∀ e ∈ after, e.stops = false := fun e he => hstops e (List.mem_append_right _ he)
  have hlength : (t.locked.daemon.actions ++ [Action.setFlushed n]).length =
      t.locked.daemon.executed.length + t.locked.daemon.inHand.length +
        t.locked.daemon.actionQueue.length + 1 := by
    simp [Daemon.actions, Daemon.dequeued]
    omega
  have hdone := NotifiedDaemon.run_working hworking' hlater ((hrest t ht).2 t' hflush) hafter
    (by rw [hlength, hexecuted]; omega) (.setFlushed n) (by simp)
  have hend := hworking'.run hlater ((hrest t ht).2 t' hflush) hafter
  have hflushed := hend.unstopped.flushed n hdone
  refine ⟨hflushed, ?_⟩
  simp [NotifiedDaemon.step, LockEvent.releases, LockedDaemon.step, LockedDaemon.act, Daemon.step,
    hflushed]

/-- Three actions ahead, and another thread adds one more meanwhile. -/
theorem flush_returns_in_time_third :
    let round : List (NotifyEvent ℕ ℕ) :=
      [.lock (.main .test), .lock (.main .lock), .lock (.main .testQueue), .lock (.main .popFront),
        .lock (.main .unlock), .lock (.main .execute)]
    let add (call : QueueCall ℕ) : List (NotifyEvent ℕ ℕ) :=
      [.lock (.acquire 1), .lock (.add call), .notifyOne, .lock .release]
    ∃ s : NotifiedDaemon ℕ ℕ,
      runFrom NotifiedDaemon.step .new
          ((add (.enqueueAction 7) ++ add (.enqueueAction 8) ++ [.lock (.acquire 1)]) ++
            .lock (.add (.flush 0)) ::
              ([.notifyOne, .lock .release, .lock (.main .setRunning)] ++ round ++
                add (.enqueueAction 9) ++ round ++ round)) = some s ∧
        0 ∈ s.locked.daemon.flushed := by
  intro round add
  refine ⟨_, rfl, ?_⟩
  refine (flush_returns_in_time
    (add (.enqueueAction 7) ++ add (.enqueueAction 8) ++ [.lock (.acquire 1)])
    ([.notifyOne, .lock .release, .lock (.main .setRunning)] ++ round ++
      add (.enqueueAction 9) ++ round ++ round) 0 _ _ ?_ ?_ rfl rfl (by decide)).1
  · apply throughout_of_forall
    simp [round, add, NotifiedDaemon.SignalOutside, LockedDaemon.SignalOutside]
  · simp [round, add, NotifyEvent.stops, LockEvent.stops]

/-- A call of `flush` whose action `stop` overtakes never returns, whatever is called afterwards. -/
theorem flush_overtaken {α τ : Type} (before after : List (NotifyEvent α τ)) (e : NotifyEvent α τ)
    (n : ℕ) (t s : NotifiedDaemon α τ) (he : e.stops = true)
    (ht : runFrom NotifiedDaemon.step .new before = some t)
    (h : runFrom NotifiedDaemon.step .new (before ++ e :: after) = some s)
    (hn : .setFlushed n ∉ t.locked.daemon.dequeued) :
    n ∉ s.locked.daemon.flushed := by
  intro hflushed
  obtain ⟨u, t', hu, hstop, hafter⟩ := runFrom_split h
  obtain rfl := Option.some.inj (ht.symm.trans hu)
  have hrun := runFrom_refines (fun s : NotifiedDaemon α τ => s.locked.daemon) h
    NotifiedDaemon.step_refines
  have hrest := runFrom_refines (fun s : NotifiedDaemon α τ => s.locked.daemon) hafter
    NotifiedDaemon.step_refines
  have hcall := NotifiedDaemon.step_refines hstop
  rw [NotifyEvent.daemonEvents_stops he, runFrom_singleton] at hcall
  have hexecuted := (Daemon.run_accounted hrun).flushed n hflushed
  have hdequeued : Action.setFlushed n ∈ normalActions s.locked.daemon.dequeued :=
    List.mem_filter.mpr ⟨List.mem_append_left _ hexecuted, rfl⟩
  cases Daemon.step_effect hcall with
  | stop hd =>
    rw [hd] at hrest
    have hsame := Daemon.run_stopping t.locked.daemon.stop_stopping hrest
    rw [hsame] at hdequeued
    exact hn (List.mem_filter.mp hdequeued).1

/-- `stop` while the action of `flush` is in the queue. -/
theorem flush_overtaken_queued :
    ∃ s : NotifiedDaemon ℕ ℕ,
      runFrom NotifiedDaemon.step .new
          ([.lock (.acquire 1), .lock (.add (.flush 0)), .notifyOne, .lock .release,
            .lock (.acquire 2)] ++ .lock (.add .stop) ::
              [.notifyOne, .lock .release, .lock (.main .setRunning), .lock (.main .test),
                .lock (.main .lock), .lock (.main .testQueue), .lock (.main .popFront),
                .lock (.main .unlock), .lock (.main .execute), .lock (.main .test)]) = some s ∧
        s.locked.daemon.point = .exited ∧ s.locked.daemon.actionQueue = [.setFlushed 0] ∧
        0 ∉ s.locked.daemon.flushed := by
  refine ⟨_, rfl, rfl, rfl, ?_⟩
  exact flush_overtaken
    [.lock (.acquire 1), .lock (.add (.flush 0)), .notifyOne, .lock .release, .lock (.acquire 2)]
    [.notifyOne, .lock .release, .lock (.main .setRunning), .lock (.main .test),
      .lock (.main .lock), .lock (.main .testQueue), .lock (.main .popFront),
      .lock (.main .unlock), .lock (.main .execute), .lock (.main .test)]
    (.lock (.add .stop)) 0 _ _ rfl rfl rfl List.not_mem_nil

end GemianLeds
