import GemianLeds.Interaction.Runs
import Mathlib.Data.Nat.Notation
import Mathlib.Data.List.Infix

/-! The action queue of `Daemon`. Any thread may add to it at any time; the loop of
`Daemon::run` takes from it. Each operation holds the mutex, so that a run is a sequence of
whole operations. -/
namespace GemianLeds
open Interaction

/-- `Daemon::Action`: what an event handler enqueues, the action that sets the promise of a
call of `flush`, and the one that `stop` enqueues. -/
inductive Action (α : Type) where
  | event (a : α)
  | setFlushed (n : ℕ)
  | clearRunning

/-- Every action is normal but the one of `stop`. -/
def Action.isNormal {α : Type} : Action α → Bool
  | .clearRunning => false
  | _ => true

/-- Where `Daemon::run` is: before `running = true`, at the test of the loop, in
`dequeue_action`, at the call of the action it took, or past the loop. -/
inductive RunPoint (α : Type) where
  | starting
  | testing
  | dequeuing
  | executing (ev : Action α)
  | exited

structure Daemon (α : Type) where
  actionQueue : List (Action α)
  running : Bool
  point : RunPoint α
  /-- How often `flush` was called; each call has a promise of its own. -/
  flushes : ℕ
  flushed : List ℕ
  /-- The actions called so far, in order. -/
  executed : List (Action α)

/-- What happens: calls from any thread, the return of a call of `flush`, and the steps of
`Daemon::run`. -/
inductive DaemonEvent (α : Type) where
  | enqueueAction (a : α)
  | flush (n : ℕ)
  | flushReturns (n : ℕ)
  | stop
  | setRunning
  | test
  | dequeueAction
  | execute

namespace Daemon
variable {α : Type}

/-- The constructor `Daemon::Daemon`, and a call of `run` that has not set `running`. -/
def new : Daemon α := ⟨[], false, .starting, 0, [], []⟩

def enqueueAction (d : Daemon α) (action : Action α) : Daemon α :=
  { d with actionQueue := d.actionQueue ++ [action] }

def enqueuePriorityAction (d : Daemon α) (action : Action α) : Daemon α :=
  { d with actionQueue := action :: d.actionQueue }

/-- `dequeue_action` returns once the queue is not empty. -/
def dequeueAction (d : Daemon α) : Option (Action α × Daemon α) :=
  match d.actionQueue with
  | [] => none
  | ev :: actionQueue => some (ev, { d with actionQueue })

def stop (d : Daemon α) : Daemon α := d.enqueuePriorityAction .clearRunning

/-- `flush` up to its wait. -/
def flush (d : Daemon α) : Daemon α :=
  { d.enqueueAction (.setFlushed d.flushes) with flushes := d.flushes + 1 }

/-- What the call of an action does to the daemon. -/
def call (d : Daemon α) : Action α → Daemon α
  | .event _ => d
  | .setFlushed n => { d with flushed := n :: d.flushed }
  | .clearRunning => { d with running := false }

/-- One event. A call of `flush` is named by the number of its promise. -/
def step (d : Daemon α) : DaemonEvent α → Option (Daemon α)
  | .enqueueAction a => some (d.enqueueAction (.event a))
  | .flush n => if n = d.flushes then some d.flush else none
  | .flushReturns n => if n ∈ d.flushed then some d else none
  | .stop => some d.stop
  | .setRunning =>
      match d.point with
      | .starting => some { d with running := true, point := .testing }
      | _ => none
  | .test =>
      match d.point with
      | .testing => some { d with point := if d.running then .dequeuing else .exited }
      | _ => none
  | .dequeueAction =>
      match d.point, d.dequeueAction with
      | .dequeuing, some (ev, d) => some { d with point := .executing ev }
      | _, _ => none
  | .execute =>
      match d.point with
      | .executing ev =>
          some { d.call ev with point := .testing, executed := d.executed ++ [ev] }
      | _ => none

/-- What was taken from the queue and is not done yet. -/
def inHand (d : Daemon α) : List (Action α) :=
  match d.point with
  | .executing ev => [ev]
  | _ => []

def dequeued (d : Daemon α) : List (Action α) := d.executed ++ d.inHand

end Daemon

/-- The normal action that an event enqueues. -/
def DaemonEvent.enqueued {α : Type} : DaemonEvent α → Option (Action α)
  | .enqueueAction a => some (.event a)
  | .flush n => some (.setFlushed n)
  | _ => none

/-- The normal actions that a run has enqueued, in order. -/
def enqueuedActions {α : Type} (events : List (DaemonEvent α)) : List (Action α) :=
  events.filterMap DaemonEvent.enqueued

def normalActions {α : Type} (actions : List (Action α)) : List (Action α) :=
  actions.filter Action.isNormal

namespace Daemon
variable {α : Type} {d d' : Daemon α}

/-- Everything one event does to the daemon. -/
inductive Effect (d d' : Daemon α) : DaemonEvent α → Prop where
  | enqueueAction (a : α) (hd : d' = d.enqueueAction (.event a)) : Effect d d' (.enqueueAction a)
  | flush (n : ℕ) (hn : n = d.flushes) (hd : d' = d.flush) : Effect d d' (.flush n)
  | flushReturns (n : ℕ) (hn : n ∈ d.flushed) (hd : d' = d) : Effect d d' (.flushReturns n)
  | stop (hd : d' = d.stop) : Effect d d' .stop
  | setRunning (hpoint : d.point = .starting)
      (hd : d' = { d with running := true, point := .testing }) : Effect d d' .setRunning
  | continues (hpoint : d.point = .testing) (hrunning : d.running = true)
      (hd : d' = { d with point := .dequeuing }) : Effect d d' .test
  | leaves (hpoint : d.point = .testing) (hrunning : d.running = false)
      (hd : d' = { d with point := .exited }) : Effect d d' .test
  | dequeueAction (ev : Action α) (rest : List (Action α)) (hpoint : d.point = .dequeuing)
      (hqueue : d.actionQueue = ev :: rest)
      (hd : d' = { d with actionQueue := rest, point := .executing ev }) :
      Effect d d' .dequeueAction
  | execute (ev : Action α) (hpoint : d.point = .executing ev)
      (hd : d' = { d.call ev with point := .testing, executed := d.executed ++ [ev] }) :
      Effect d d' .execute

theorem step_effect {e : DaemonEvent α} (h : d.step e = some d') : Effect d d' e := by
  unfold step at h
  cases e with
  | enqueueAction a => exact .enqueueAction a (Option.some.inj h).symm
  | flush n =>
    simp only at h
    split at h
    next hn => exact .flush n hn (Option.some.inj h).symm
    next => cases h
  | flushReturns n =>
    simp only at h
    split at h
    next hn => exact .flushReturns n hn (Option.some.inj h).symm
    next => cases h
  | stop => exact .stop (Option.some.inj h).symm
  | setRunning =>
    simp only at h
    split at h
    next hpoint => exact .setRunning hpoint (Option.some.inj h).symm
    next => cases h
  | test =>
    simp only at h
    split at h
    next hpoint =>
      cases hrunning : d.running with
      | true =>
        rw [if_pos hrunning] at h
        exact .continues hpoint hrunning (Option.some.inj h).symm
      | false =>
        rw [if_neg (Bool.eq_false_iff.mp hrunning)] at h
        exact .leaves hpoint hrunning (Option.some.inj h).symm
    next => cases h
  | dequeueAction =>
    simp only at h
    split at h
    next ev taken hpoint htaken =>
      unfold dequeueAction at htaken
      split at htaken
      next => cases htaken
      next head rest hqueue =>
        cases htaken
        exact .dequeueAction ev rest hpoint hqueue (Option.some.inj h).symm
    next => cases h
  | execute =>
    simp only at h
    split at h
    next ev hpoint => exact .execute ev hpoint (Option.some.inj h).symm
    next => cases h

theorem call_actionQueue (d : Daemon α) (ev : Action α) :
    (d.call ev).actionQueue = d.actionQueue := by
  cases ev <;> rfl

theorem normalActions_append (as bs : List (Action α)) :
    normalActions (as ++ bs) = normalActions as ++ normalActions bs :=
  List.filter_append ..

theorem enqueuedActions_append (events events' : List (DaemonEvent α)) :
    enqueuedActions (events ++ events') = enqueuedActions events ++ enqueuedActions events' :=
  List.filterMap_append

theorem enqueuedActions_concat (events : List (DaemonEvent α)) (e : DaemonEvent α) :
    enqueuedActions (events ++ [e]) = enqueuedActions events ++ e.enqueued.toList := by
  rw [enqueuedActions_append]
  cases e <;> rfl

/-- Normal actions are executed, in hand or in the queue, in the order in which they were
enqueued. -/
structure Accounted (d : Daemon α) (events : List (DaemonEvent α)) : Prop where
  in_order : enqueuedActions events = normalActions (d.dequeued ++ d.actionQueue)
  flushed : ∀ n ∈ d.flushed, Action.setFlushed n ∈ d.executed
  numbered : ∀ n, Action.setFlushed n ∈ enqueuedActions events → n < d.flushes

theorem new_accounted : (new : Daemon α).Accounted [] where
  in_order := rfl
  flushed n hn := by cases hn
  numbered n hn := by cases hn

/-- What an event takes from the front of the queue or adds to its end. -/
theorem step_in_order {e : DaemonEvent α} (h : d.step e = some d') :
    normalActions (d'.dequeued ++ d'.actionQueue) =
      normalActions (d.dequeued ++ d.actionQueue) ++ e.enqueued.toList := by
  cases step_effect h with
  | enqueueAction a hd =>
    rw [hd]
    change normalActions (d.dequeued ++ (d.actionQueue ++ [.event a])) = _
    rw [← List.append_assoc, normalActions_append]
    rfl
  | flush n hn hd =>
    rw [hd, hn]
    change normalActions (d.dequeued ++ (d.actionQueue ++ [.setFlushed d.flushes])) = _
    rw [← List.append_assoc, normalActions_append]
    rfl
  | flushReturns n hn hd =>
    rw [hd]
    exact (List.append_nil _).symm
  | stop hd =>
    rw [hd]
    change normalActions (d.dequeued ++ .clearRunning :: d.actionQueue) = _
    rw [normalActions_append, normalActions_append]
    exact (List.append_nil _).symm
  | setRunning hpoint hd | continues hpoint hrunning hd | leaves hpoint hrunning hd =>
    subst hd
    unfold dequeued inHand
    rw [hpoint]
    exact (List.append_nil _).symm
  | dequeueAction ev rest hpoint hqueue hd =>
    subst hd
    unfold dequeued inHand
    rw [hpoint, hqueue]
    change normalActions (d.executed ++ [ev] ++ rest) =
      normalActions (d.executed ++ [] ++ ev :: rest) ++ []
    rw [List.append_nil, List.append_nil, List.append_assoc]
    rfl
  | execute ev hpoint hd =>
    subst hd
    unfold dequeued inHand
    rw [hpoint]
    change normalActions (d.executed ++ [ev] ++ [] ++ (d.call ev).actionQueue) =
      normalActions (d.executed ++ [ev] ++ d.actionQueue) ++ []
    rw [List.append_nil, List.append_nil, call_actionQueue]

/-- Promises are set by the actions executed. -/
theorem step_flushed {e : DaemonEvent α} (h : d.step e = some d')
    (hd : ∀ n ∈ d.flushed, Action.setFlushed n ∈ d.executed) :
    ∀ n ∈ d'.flushed, Action.setFlushed n ∈ d'.executed := by
  cases step_effect h with
  | execute ev hpoint hd' =>
    subst hd'
    intro n hn
    rw [List.mem_append]
    cases ev with
    | event a => exact .inl (hd n hn)
    | clearRunning => exact .inl (hd n hn)
    | setFlushed m =>
      rcases List.mem_cons.mp hn with rfl | hn
      · exact .inr (List.mem_singleton_self _)
      · exact .inl (hd n hn)
  | enqueueAction a hd' | flush n hn hd' | flushReturns n hn hd' | stop hd' | setRunning hpoint hd'
  | continues hpoint hrunning hd' | leaves hpoint hrunning hd'
  | dequeueAction ev rest hpoint hqueue hd' =>
    subst hd'
    exact hd

theorem step_flushes {e : DaemonEvent α} (h : d.step e = some d') {n : ℕ} :
    (n < d.flushes → n < d'.flushes) ∧
      (Action.setFlushed n ∈ e.enqueued.toList → n = d.flushes ∧ n < d'.flushes) := by
  cases step_effect h with
  | flush m hm hd =>
    subst hd
    refine ⟨fun hn => Nat.lt_succ_of_lt hn, fun hn => ?_⟩
    cases List.mem_singleton.mp hn
    exact ⟨hm, hm ▸ Nat.lt_succ_self _⟩
  | enqueueAction a hd =>
    subst hd
    refine ⟨id, fun hn => ?_⟩
    cases List.mem_singleton.mp hn
  | execute ev hpoint hd =>
    subst hd
    refine ⟨fun hn => ?_, fun hn => by cases hn⟩
    cases ev <;> exact hn
  | flushReturns n hn hd | stop hd | setRunning hpoint hd
  | continues hpoint hrunning hd | leaves hpoint hrunning hd
  | dequeueAction ev rest hpoint hqueue hd =>
    subst hd
    exact ⟨id, fun hn => by cases hn⟩

theorem step_accounted {events : List (DaemonEvent α)} {e : DaemonEvent α}
    (hd : d.Accounted events) (h : d.step e = some d') : d'.Accounted (events ++ [e]) where
  in_order := by rw [enqueuedActions_concat, step_in_order h, hd.in_order]
  flushed := step_flushed h hd.flushed
  numbered n hn := by
    rw [enqueuedActions_concat, List.mem_append] at hn
    rcases hn with hn | hn
    · exact (step_flushes h).1 (hd.numbered n hn)
    · exact ((step_flushes h).2 hn).2

/-- The next action taken is that of `stop`, or it is being executed, or the loop is left. -/
def Stopping (d : Daemon α) : Prop :=
  d.actionQueue.head? = some .clearRunning ∨ d.point = .executing .clearRunning ∨
    (d.running = false ∧ (d.point = .testing ∨ d.point = .exited))

theorem stop_stopping (d : Daemon α) : d.stop.Stopping := .inl rfl

theorem enqueueAction_stopping (hd : d.Stopping) (action : Action α) :
    (d.enqueueAction action).Stopping := by
  apply hd.imp_left
  intro hhead
  change (d.actionQueue ++ [action]).head? = some .clearRunning
  rw [List.head?_append, hhead]
  rfl

/-- Before the loop can be left and while no action is executed, the action of `stop` is the
next one. -/
theorem Stopping.head (hd : d.Stopping) (hexecuting : d.point ≠ .executing .clearRunning)
    (hrunning : d.running = true ∨ (d.point ≠ .testing ∧ d.point ≠ .exited)) :
    d.actionQueue.head? = some .clearRunning := by
  rcases hd with hhead | hpoint | ⟨hstopped, hpoint⟩
  · exact hhead
  · exact absurd hpoint hexecuting
  · rcases hrunning with hrunning | ⟨htesting, hexited⟩
    · rw [hrunning] at hstopped
      cases hstopped
    · rcases hpoint with hpoint | hpoint
      · exact absurd hpoint htesting
      · exact absurd hpoint hexited

/-- While it is stopping, the loop takes no normal action, and it goes on stopping. -/
theorem step_stopping {e : DaemonEvent α} (hd : d.Stopping) (h : d.step e = some d') :
    d'.Stopping ∧ normalActions d'.dequeued = normalActions d.dequeued := by
  cases step_effect h with
  | enqueueAction a hd' =>
    rw [hd']
    exact ⟨enqueueAction_stopping hd _, rfl⟩
  | flush n hn hd' =>
    rw [hd']
    exact ⟨enqueueAction_stopping hd (.setFlushed d.flushes), rfl⟩
  | flushReturns n hn hd' =>
    rw [hd']
    exact ⟨hd, rfl⟩
  | stop hd' =>
    rw [hd']
    exact ⟨d.stop_stopping, rfl⟩
  | setRunning hpoint hd' =>
    have hhead := hd.head (by rw [hpoint]; nofun) (.inr (by rw [hpoint]; exact ⟨nofun, nofun⟩))
    subst hd'
    unfold dequeued inHand
    rw [hpoint]
    exact ⟨.inl hhead, rfl⟩
  | continues hpoint hrunning hd' =>
    have hhead := hd.head (by rw [hpoint]; nofun) (.inl hrunning)
    subst hd'
    unfold dequeued inHand
    rw [hpoint]
    exact ⟨.inl hhead, rfl⟩
  | leaves hpoint hrunning hd' =>
    subst hd'
    unfold dequeued inHand
    rw [hpoint]
    exact ⟨.inr (.inr ⟨hrunning, .inr rfl⟩), rfl⟩
  | dequeueAction ev rest hpoint hqueue hd' =>
    have hhead := hd.head (by rw [hpoint]; nofun) (.inr (by rw [hpoint]; exact ⟨nofun, nofun⟩))
    subst hd'
    rw [hqueue] at hhead
    obtain rfl := Option.some.inj hhead
    refine ⟨.inr (.inl rfl), ?_⟩
    unfold dequeued inHand
    rw [hpoint, normalActions_append, normalActions_append]
    rfl
  | execute ev hpoint hd' =>
    have hstopping : ev = .clearRunning ∨ d.actionQueue.head? = some .clearRunning := by
      by_cases hev : ev = .clearRunning
      · exact .inl hev
      · refine .inr (hd.head ?_ (.inr (by rw [hpoint]; exact ⟨nofun, nofun⟩)))
        rw [hpoint]
        exact fun heq => hev (RunPoint.executing.inj heq)
    subst hd'
    constructor
    · rcases hstopping with rfl | hhead
      · exact .inr (.inr ⟨rfl, .inl rfl⟩)
      · left
        change (d.call ev).actionQueue.head? = _
        rw [call_actionQueue, hhead]
    · unfold dequeued inHand
      rw [hpoint]
      exact congrArg normalActions (List.append_nil _)

/-- After a call of `stop` no normal action is taken from the queue. -/
theorem run_stopping {events : List (DaemonEvent α)} (hd : d.Stopping)
    (h : runFrom step d events = some d') :
    normalActions d'.dequeued = normalActions d.dequeued :=
  (runFrom_invariant (I := fun t => t.Stopping ∧ normalActions t.dequeued =
      normalActions d.dequeued) h ⟨hd, rfl⟩ fun ht hstep =>
    ⟨(step_stopping ht.1 hstep).1, (step_stopping ht.1 hstep).2.trans ht.2⟩).2

theorem run_accounted {events : List (DaemonEvent α)} (h : runFrom step new events = some d) :
    d.Accounted events :=
  runFrom_history h new_accounted step_accounted

/-- What a run has executed is a prefix of what it has enqueued. -/
theorem run_in_order {events : List (DaemonEvent α)}
    (h : runFrom step new events = some d) :
    normalActions d.executed <+: enqueuedActions events := by
  rw [(run_accounted h).in_order]
  unfold dequeued
  rw [normalActions_append, normalActions_append, List.append_assoc]
  exact List.prefix_append ..

/-- A prefix that contains an element contains what stands before its first occurrence. -/
theorem prefix_of_mem {β : Type} {as bs cs : List β} {b : β} (hb : b ∉ as) (hcs : b ∈ cs)
    (h : cs <+: as ++ b :: bs) : as ++ [b] <+: cs := by
  have hfirst : as ++ [b] <+: as ++ b :: bs := ⟨bs, (List.append_cons as b bs).symm⟩
  rcases List.prefix_or_prefix_of_prefix hfirst h with hfront | hfront
  · exact hfront
  · rcases List.prefix_concat_iff.mp hfront with rfl | hshort
    · exact List.prefix_rfl
    · exact absurd (hshort.subset hcs) hb

/-- The call of `flush` that enqueued an action. -/
theorem flush_of_enqueued {events : List (DaemonEvent α)} {n : ℕ}
    (h : Action.setFlushed n ∈ enqueuedActions events) :
    ∃ earlier later, events = earlier ++ .flush n :: later := by
  obtain ⟨e, he, heq⟩ := List.mem_filterMap.mp h
  apply List.mem_iff_append.mp
  cases e with
  | flush m =>
    cases Option.some.inj heq
    exact he
  | enqueueAction a => cases Option.some.inj heq
  | flushReturns | stop | setRunning | test | dequeueAction | execute => cases heq

/-- When the promise of a call of `flush` is set, what was enqueued before the call has been
executed. -/
theorem run_flushed {events : List (DaemonEvent α)} (h : runFrom step new events = some d)
    {n : ℕ} (hn : n ∈ d.flushed) :
    ∃ earlier later, events = earlier ++ .flush n :: later ∧
      enqueuedActions earlier ++ [.setFlushed n] <+: normalActions d.executed := by
  have hd := run_accounted h
  have hfront := run_in_order h
  have hexecuted : Action.setFlushed n ∈ normalActions d.executed :=
    List.mem_filter.mpr ⟨hd.flushed n hn, rfl⟩
  obtain ⟨earlier, later, rfl⟩ := flush_of_enqueued (hfront.subset hexecuted)
  refine ⟨earlier, later, rfl, ?_⟩
  obtain ⟨t, t', ht, hflush, -⟩ := runFrom_split h
  have hnew : Action.setFlushed n ∉ enqueuedActions earlier := by
    intro hmem
    have hlt := (run_accounted ht).numbered n hmem
    cases step_effect hflush with
    | flush _ hn => exact absurd hlt (hn ▸ Nat.lt_irrefl _)
  rw [enqueuedActions_append] at hfront
  exact prefix_of_mem hnew hexecuted hfront

end Daemon

/-- What a history of the daemon and the state it leads to satisfy. -/
structure QueueSafe {α : Type} (events : List (DaemonEvent α)) (d : Daemon α) : Prop where
  /-- Nothing is lost, repeated or reordered. -/
  in_order : normalActions d.executed <+: enqueuedActions events
  /-- `flush` returns after the actions enqueued before it were executed. -/
  flushed : ∀ before n after, events = before ++ .flushReturns n :: after →
    ∃ earlier later d', before = earlier ++ .flush n :: later ∧
      runFrom Daemon.step .new before = some d' ∧
      enqueuedActions earlier ++ [.setFlushed n] <+: normalActions d'.executed
  /-- After `stop` the loop takes no normal action. -/
  stopped : ∀ before after, events = before ++ .stop :: after →
    ∃ d', runFrom Daemon.step .new before = some d' ∧
      normalActions d.dequeued = normalActions d'.dequeued

/-- The action queue is safe in every interleaving of calls with the loop. -/
theorem queue_safe {α : Type} (events : List (DaemonEvent α)) (d : Daemon α)
    (h : runFrom Daemon.step .new events = some d) : QueueSafe events d where
  in_order := Daemon.run_in_order h
  flushed before n after hevents := by
    rw [hevents] at h
    obtain ⟨t, t', ht, hreturns, -⟩ := runFrom_split h
    cases Daemon.step_effect hreturns with
    | flushReturns _ hn hd =>
      obtain ⟨earlier, later, hbefore, hfront⟩ := Daemon.run_flushed ht hn
      exact ⟨earlier, later, t, hbefore, ht, hfront⟩
  stopped before after hevents := by
    rw [hevents] at h
    obtain ⟨t, t', ht, hstop, hafter⟩ := runFrom_split h
    cases Daemon.step_effect hstop with
    | stop hd =>
      refine ⟨t, ht, ?_⟩
      rw [hd] at hafter
      have hstopped := Daemon.run_stopping t.stop_stopping hafter
      exact hstopped

/-- A call of `flush` that returns, and `stop` while an action waits. -/
theorem queue_safe_stopped :
    ∃ d : Daemon ℕ,
      runFrom Daemon.step .new
          [.enqueueAction 7, .flush 0, .setRunning, .test, .dequeueAction, .enqueueAction 8,
            .execute, .test, .dequeueAction, .execute, .flushReturns 0, .stop, .test,
            .dequeueAction, .execute, .test] = some d ∧
        QueueSafe
          [.enqueueAction 7, .flush 0, .setRunning, .test, .dequeueAction, .enqueueAction 8,
            .execute, .test, .dequeueAction, .execute, .flushReturns 0, .stop, .test,
            .dequeueAction, .execute, .test] d ∧
        d.executed = [.event 7, .setFlushed 0, .clearRunning] := by
  refine ⟨_, rfl, ?_, rfl⟩
  exact queue_safe _ _ rfl

end GemianLeds
