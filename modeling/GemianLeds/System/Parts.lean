import GemianLeds.System.Requested
import GemianLeds.Connman.Watcher
import GemianLeds.Daemon.ActionQueue

/-! What the parts of the running daemon do to each other: the calls that the watcher makes of
the light state, and the actions that the queue takes in and gives out. -/
namespace GemianLeds
open Interaction

namespace Watcher

/-- The calls that a step of the watcher makes. -/
def calls (s : Watcher) : WatcherEvent → List WatcherCall
  | .arrive =>
      match s.wire with
      | .reply t before powered after :: _ =>
          (dbusQueryConnectivityState t.objectPath
            (some ⟨.methodReturn,
              some (.ofProperties (replyBody before powered after))⟩)).toOption.getD []
      | _ => []
  | .dispatch =>
      match s.query, s.queue with
      | .idle, x :: _ =>
          (handleDbusSignal x.technology.objectPath (some "PropertyChanged")
            (.ofEntry x.entry)).toOption.getD []
      | _, _ => []
  | _ => []

variable {s s' : Watcher}

/-- Its light state changes by these calls alone. -/
theorem step_calls {e : WatcherEvent} (h : s.step e = some s') (he : ∀ action, e ≠ .daemon action) :
    s'.light = runOps s.light ((s.calls e).map .watcher) := by
  cases step_effect h with
  | daemon action hs' => exact absurd rfl (he action)
  | arriveReply t before powered after wire hwire hs' =>
    have hcalls : s.calls .arrive = [t.call powered] := by
      unfold calls
      simp only [hwire, reply_calls]
      rfl
    rw [hs', hcalls]
    rfl
  | dispatch x queue hquery hqueue hs' =>
    have hcalls : s.calls .dispatch = x.values.map x.technology.call := by
      unfold calls
      simp only [hquery, hqueue, signal_calls]
      rfl
    rw [hs', hcalls]
  | arriveSignal x wire hwire hs' =>
    have hcalls : s.calls .arrive = [] := by
      unfold calls
      simp only [hwire]
    rw [hs', hcalls]
    rfl
  | change t powered hs' | changeOther t property hs' | answer t before after hquery hs'
  | subscribe t subscriptions hquery hsubscriptions hs'
  | query t queries hquery hsubscriptions hqueries hs' =>
    subst hs'
    rfl

instance (s : Watcher) : Decidable s.Started := by
  unfold Started
  infer_instance

/-- The constructor returns once. -/
theorem started_step {e : WatcherEvent} (hs : s.Started) (h : s.step e = some s') : s'.Started := by
  obtain ⟨hsubscriptions, hqueries, hquery⟩ := hs
  cases step_effect h with
  | answer t before after hasked hs' => exact absurd (hquery.symm.trans hasked) nofun
  | subscribe t subscriptions _ hmore hs' => exact absurd (hsubscriptions.symm.trans hmore) nofun
  | query t queries _ _ hmore hs' => exact absurd (hqueries.symm.trans hmore) nofun
  | arriveReply t before powered after wire hwire hs' =>
    subst hs'
    refine ⟨hsubscriptions, hqueries, ?_⟩
    change (if s.query = .answered t then QueryState.idle else s.query) = .idle
    rw [hquery]
    rfl
  | change t powered hs' | changeOther t property hs' | arriveSignal x wire hwire hs'
  | dispatch x queue _ hqueue hs' | daemon action hs' =>
    subst hs'
    exact ⟨hsubscriptions, hqueries, hquery⟩

end Watcher

/-- The event that an action of the queue carries. -/
def Action.event? {α : Type} : Action α → Option α
  | .event a => some a
  | _ => none

def eventActions {α : Type} (actions : List (Action α)) : List α := actions.filterMap Action.event?

section Queue
variable {α : Type}

theorem eventActions_append (as bs : List (Action α)) :
    eventActions (as ++ bs) = eventActions as ++ eventActions bs := List.filterMap_append

/-- Actions with an event are normal ones. -/
theorem eventActions_normalActions (actions : List (Action α)) :
    eventActions (normalActions actions) = eventActions actions := by
  unfold eventActions normalActions
  rw [List.filterMap_filter]
  apply List.filterMap_congr
  intro action _
  cases action <;> rfl

end Queue

namespace Daemon
variable {α : Type} {d d' : Daemon α}

/-- The events that are taken in and not done. -/
def waiting (d : Daemon α) : List α := eventActions (d.inHand ++ d.actionQueue)

/-- The events that an event of the queue performs. -/
def performs (d : Daemon α) : DaemonEvent α → List α
  | .execute =>
      match d.point with
      | .executing ev => eventActions [ev]
      | _ => []
  | _ => []

theorem step_performs {e : DaemonEvent α} (h : d.step e = some d') :
    eventActions d'.executed = eventActions d.executed ++ d.performs e := by
  cases step_effect h with
  | execute ev hpoint hd =>
    have hperforms : d.performs .execute = eventActions [ev] := by
      unfold performs
      simp only [hpoint]
    rw [hd, hperforms]
    exact eventActions_append ..
  | enqueueAction a hd | flush n hn hd | flushReturns n hn hd | stop hd | setRunning hpoint hd
  | continues hpoint hrunning hd | leaves hpoint hrunning hd
  | dequeueAction ev rest hpoint hqueue hd =>
    subst hd
    exact (List.append_nil _).symm

/-- No event of the queue but `enqueue_action` takes in anything. -/
theorem step_waiting {e : DaemonEvent α} (h : d.step e = some d')
    (he : ∀ a, e ≠ .enqueueAction a) :
    eventActions d'.executed ++ d'.waiting = eventActions d.executed ++ d.waiting := by
  have hsplit (d : Daemon α) : eventActions d.executed ++ d.waiting =
      eventActions (normalActions (d.dequeued ++ d.actionQueue)) := by
    unfold waiting dequeued
    rw [eventActions_normalActions, List.append_assoc]
    exact (eventActions_append ..).symm
  have hnone : eventActions e.enqueued.toList = [] := by
    cases e with
    | enqueueAction a => exact absurd rfl (he a)
    | _ => rfl
  rw [hsplit, hsplit, step_in_order h, eventActions_append, hnone, List.append_nil]

/-- Only the main thread moves, and it leaves the loop only once. -/
theorem step_point {e : DaemonEvent α} (h : d.step e = some d') :
    (d'.point = .starting → d.point = .starting) ∧
      (d.point = .starting → d'.point ≠ .starting → e = .setRunning) ∧
      (d.point = .exited → d'.point = .exited) := by
  cases step_effect h with
  | execute ev hpoint hd | setRunning hpoint hd | continues hpoint hrunning hd
  | leaves hpoint hrunning hd | dequeueAction ev rest hpoint hqueue hd =>
    subst hd
    simp [hpoint]
  | enqueueAction a hd | flush n hn hd | flushReturns n hn hd | stop hd =>
    subst hd
    exact ⟨id, fun h hne => absurd h hne, id⟩

def enqueueAll (d : Daemon α) (events : List α) : Daemon α :=
  events.foldl (fun d a => d.enqueueAction (.event a)) d

theorem enqueueAll_eq (d : Daemon α) (events : List α) :
    d.enqueueAll events = { d with actionQueue := d.actionQueue ++ events.map .event } := by
  unfold enqueueAll
  induction events generalizing d with
  | nil => simp
  | cons a events ih =>
    rw [List.foldl_cons, ih]
    simp [enqueueAction]

theorem enqueueAll_waiting (d : Daemon α) (events : List α) :
    (d.enqueueAll events).waiting = d.waiting ++ events := by
  have hevents : eventActions (events.map Action.event) = events := by
    unfold eventActions
    rw [List.filterMap_map]
    exact List.filterMap_some
  have hinHand : (d.enqueueAll events).inHand = d.inHand := by
    rw [enqueueAll_eq]
    rfl
  unfold waiting
  rw [hinHand, enqueueAll_eq, ← List.append_assoc, eventActions_append, hevents]

end Daemon
end GemianLeds
