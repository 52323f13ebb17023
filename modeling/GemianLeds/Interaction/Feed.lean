import GemianLeds.Interaction.Runs
import Mathlib.Data.List.Chain

/-! A value that changes, followed from afar. Its owner sends every change, and snapshots when
asked; all travel in order. The follower queues the changes once it has subscribed, but it
takes a snapshot as soon as it arrives, ahead of the changes that it has queued. -/
namespace Interaction

universe u

/-- What the owner sends. -/
inductive FeedItem (V : Type u) where
  | change (v : V)
  | snapshot (v : V)

namespace FeedItem
variable {V : Type u}

def value : FeedItem V → V
  | .change v | .snapshot v => v

/-- A snapshot repeats the value that was sent before it. -/
def Follows (x : FeedItem V) : FeedItem V → Prop
  | .change _ => True
  | .snapshot v => x.value = v

end FeedItem

/-- The value at its owner, what is on the way, what the follower has queued and shows, and
whether it has subscribed and has seen a snapshot. -/
structure Feed (V : Type u) where
  current : V
  wire : List (FeedItem V)
  subscribed : Bool
  queued : List V
  shown : V
  seen : Bool

inductive FeedEvent (V : Type u) where
  | change (v : V)
  | subscribe
  | answer
  | arrive
  | dispatch

namespace Feed
variable {V : Type u}

/-- Only a subscribed follower asks for snapshots. -/
def step (f : Feed V) : FeedEvent V → Option (Feed V)
  | .change v => some { f with current := v, wire := f.wire ++ [.change v] }
  | .subscribe => some { f with subscribed := true }
  | .answer =>
      if f.subscribed then some { f with wire := f.wire ++ [.snapshot f.current] } else none
  | .arrive =>
      match f.wire with
      | [] => none
      | .change v :: wire =>
          some { f with wire, queued := if f.subscribed then f.queued ++ [v] else f.queued }
      | .snapshot v :: wire => some { f with wire, shown := v, seen := true }
  | .dispatch =>
      match f.queued with
      | [] => none
      | v :: queued => some { f with queued, shown := v }

theorem step_arrive_change {f : Feed V} {v : V} {wire : List (FeedItem V)}
    (h : f.wire = .change v :: wire) :
    f.step .arrive =
      some { f with wire, queued := if f.subscribed then f.queued ++ [v] else f.queued } := by
  unfold step
  simp only [h]

theorem step_arrive_snapshot {f : Feed V} {v : V} {wire : List (FeedItem V)}
    (h : f.wire = .snapshot v :: wire) :
    f.step .arrive = some { f with wire, shown := v, seen := true } := by
  unfold step
  simp only [h]

theorem step_dispatch {f : Feed V} {v : V} {queued : List V} (h : f.queued = v :: queued) :
    f.step .dispatch = some { f with queued, shown := v } := by
  unfold step
  simp only [h]

/-- What the follower has not shown, the queued changes first. -/
def pending (f : Feed V) : List (FeedItem V) := f.queued.map .change ++ f.wire

/-- The last pending item carries the current value, and a snapshot that overtakes queued
changes carries the value of the last of them. -/
structure Coherent (f : Feed V) : Prop where
  chain : f.pending.IsChain FeedItem.Follows
  last : ∀ x ∈ f.pending.getLast?, x.value = f.current
  unsubscribed : f.subscribed = false → f.queued = [] ∧ f.seen = false
  answered : ∀ v, FeedItem.snapshot v ∈ f.wire → f.subscribed = true
  caught_up : f.seen = true → f.pending = [] → f.shown = f.current

/-- Nothing has been sent. -/
def start (current shown : V) : Feed V := ⟨current, [], false, [], shown, false⟩

theorem start_coherent (current shown : V) : (start current shown).Coherent where
  chain := .nil
  last x hx := by cases hx
  unsubscribed _ := ⟨rfl, rfl⟩
  answered v hv := by cases hv
  caught_up h := by cases h

variable {f f' : Feed V}

/-- Sending one more item. -/
theorem Coherent.send (hf : f.Coherent) {x : FeedItem V}
    (hx : ∀ y ∈ f.pending.getLast?, y.Follows x)
    (hanswered : ∀ v, x = .snapshot v → f.subscribed = true) :
    Coherent { f with current := x.value, wire := f.wire ++ [x] } := by
  have hpending : pending { f with current := x.value, wire := f.wire ++ [x] } =
      f.pending ++ [x] := (List.append_assoc ..).symm
  refine ⟨?_, ?_, hf.unsubscribed, ?_, ?_⟩
  · rw [hpending]
    apply hf.chain.append (.singleton x)
    intro y hy z hz
    cases hz
    exact hx y hy
  · intro y hy
    rw [hpending, List.getLast?_concat] at hy
    cases hy
    rfl
  · intro v hv
    rcases List.mem_append.mp hv with hv | hv
    · exact hf.answered v hv
    · exact hanswered v (List.mem_singleton.mp hv).symm
  · intro _ hnone
    rw [hpending] at hnone
    cases List.concat_ne_nil _ _ hnone

/-- Removing an item from the front of a chain. -/
theorem Coherent.drop_first (hf : f.Coherent) {x : FeedItem V} {rest : List (FeedItem V)}
    (h : f.pending = x :: rest) :
    rest.IsChain FeedItem.Follows ∧ ∀ y ∈ rest.getLast?, y.value = f.current := by
  have hchain := hf.chain
  have hlast := hf.last
  rw [h] at hchain hlast
  refine ⟨hchain.tail, fun y hy => hlast y ?_⟩
  rw [List.getLast?_cons, hy]
  rfl

/-- Removing the snapshot that arrives, from behind the queued changes: what it repeats is
before it. -/
theorem Coherent.drop_snapshot (hf : f.Coherent) {v : V} {wire : List (FeedItem V)}
    (h : f.wire = .snapshot v :: wire) :
    (f.queued.map FeedItem.change ++ wire).IsChain FeedItem.Follows ∧
      ∀ y ∈ (f.queued.map FeedItem.change ++ wire).getLast?, y.value = f.current := by
  have hchain := hf.chain
  have hlast := hf.last
  unfold pending at hchain hlast
  rw [h] at hchain hlast
  obtain ⟨hqueued, hwire, hbefore⟩ := List.isChain_append.mp hchain
  obtain ⟨hafter, hrest⟩ := List.isChain_cons.mp hwire
  have hrepeats : ∀ x ∈ (f.queued.map FeedItem.change).getLast?, x.value = v := fun x hx =>
    hbefore x hx (.snapshot v) rfl
  constructor
  · apply hqueued.append hrest
    intro x hx y hy
    have hfollows := hafter y hy
    cases y with
    | change _ => trivial
    | snapshot u => exact (hrepeats x hx).trans hfollows
  · intro y hy
    rw [List.getLast?_append] at hy hlast
    rw [List.getLast?_cons] at hlast
    cases hlastWire : wire.getLast? with
    | some z =>
      rw [hlastWire] at hy hlast
      exact hlast y hy
    | none =>
      rw [hlastWire] at hy hlast
      exact (hrepeats y hy).trans (hlast (.snapshot v) rfl)

/-- A change arrives: it is queued, or lost before the follower has subscribed. -/
theorem Coherent.arrive_change (hf : f.Coherent) {v : V} {wire : List (FeedItem V)}
    (h : f.wire = .change v :: wire) :
    Coherent { f with wire, queued := if f.subscribed then f.queued ++ [v] else f.queued } := by
  have hanswered : ∀ u, FeedItem.snapshot u ∈ wire → f.subscribed = true := by
    intro u hu
    apply hf.answered u
    rw [h]
    exact .tail _ hu
  cases hsubscribed : f.subscribed with
  | true =>
    have hpending : (f.queued ++ [v]).map FeedItem.change ++ wire = f.pending := by
      unfold pending
      rw [h, List.map_append, List.append_assoc]
      rfl
    refine ⟨?_, ?_, nofun, fun _ _ => rfl, ?_⟩
    · change ((f.queued ++ [v]).map FeedItem.change ++ wire).IsChain FeedItem.Follows
      rw [hpending]
      exact hf.chain
    · change ∀ x ∈ ((f.queued ++ [v]).map FeedItem.change ++ wire).getLast?, x.value = f.current
      rw [hpending]
      exact hf.last
    · intro hseen hnone
      exact hf.caught_up hseen (hpending.symm.trans hnone)
  | false =>
    obtain ⟨hqueued, hseen⟩ := hf.unsubscribed hsubscribed
    have hpending : f.pending = .change v :: (f.queued.map FeedItem.change ++ wire) := by
      unfold pending
      rw [h, hqueued]
      rfl
    obtain ⟨hchain, hlast⟩ := hf.drop_first hpending
    refine ⟨hchain, hlast, fun _ => ⟨hqueued, hseen⟩, ?_, fun h => ?_⟩
    · intro u hu
      rw [← hsubscribed]
      exact hanswered u hu
    · rw [hseen] at h
      cases h

/-- A snapshot arrives. If nothing else is pending, it carries the current value; and so does
the last queued change otherwise. -/
theorem Coherent.arrive_snapshot (hf : f.Coherent) {v : V} {wire : List (FeedItem V)}
    (h : f.wire = .snapshot v :: wire) :
    Coherent { f with wire, shown := v, seen := true } := by
  obtain ⟨hchain, hlast⟩ := hf.drop_snapshot h
  have hsubscribed := hf.answered v (by rw [h]; exact List.mem_cons_self)
  refine ⟨hchain, hlast, ?_, fun _ _ => hsubscribed, ?_⟩
  · intro hunsubscribed
    rw [hsubscribed] at hunsubscribed
    cases hunsubscribed
  · intro _ hnone
    obtain ⟨hqueued, hwire⟩ := List.append_eq_nil_iff.mp hnone
    apply hf.last (.snapshot v)
    unfold pending
    simp only at hqueued hwire
    rw [h, hqueued, hwire]
    rfl

/-- The first queued change is shown. If it was the last pending item, it carries the current
value. -/
theorem Coherent.dispatch (hf : f.Coherent) {v : V} {queued : List V}
    (h : f.queued = v :: queued) : Coherent { f with queued, shown := v } := by
  have hpending : f.pending = .change v :: (queued.map FeedItem.change ++ f.wire) := by
    rw [pending, h]
    rfl
  obtain ⟨hchain, hlast⟩ := hf.drop_first hpending
  refine ⟨hchain, hlast, ?_, hf.answered, ?_⟩
  · intro hunsubscribed
    have hnone := (hf.unsubscribed hunsubscribed).1
    rw [h] at hnone
    cases hnone
  · intro _ hnone
    change queued.map FeedItem.change ++ f.wire = [] at hnone
    apply hf.last (.change v)
    rw [hpending, hnone]
    rfl

theorem step_coherent {e : FeedEvent V} (hf : f.Coherent) (h : f.step e = some f') :
    f'.Coherent := by
  unfold step at h
  cases e with
  | change v =>
    obtain rfl := Option.some.inj h
    exact hf.send (x := .change v) (fun _ _ => trivial) nofun
  | subscribe =>
    obtain rfl := Option.some.inj h
    exact ⟨hf.chain, hf.last, nofun, fun _ _ => rfl, hf.caught_up⟩
  | answer =>
    simp only at h
    split at h
    next hsubscribed =>
      obtain rfl := Option.some.inj h
      exact hf.send (x := .snapshot f.current) hf.last fun _ _ => hsubscribed
    next => cases h
  | arrive =>
    simp only at h
    split at h
    next => cases h
    next v wire hwire =>
      obtain rfl := Option.some.inj h
      exact hf.arrive_change hwire
    next v wire hwire =>
      obtain rfl := Option.some.inj h
      exact hf.arrive_snapshot hwire
  | dispatch =>
    simp only at h
    split at h
    next => cases h
    next v queued hqueued =>
      obtain rfl := Option.some.inj h
      exact hf.dispatch hqueued

theorem run_coherent {current shown : V} {events : List (FeedEvent V)}
    (h : runFrom step (start current shown) events = some f) : f.Coherent :=
  runFrom_invariant h (start_coherent current shown) step_coherent

/-- In every run, once the follower has seen a snapshot and nothing is on the way or queued, it
shows the current value. -/
theorem run_shows {current shown : V} {events : List (FeedEvent V)}
    (h : runFrom step (start current shown) events = some f) (hseen : f.seen = true)
    (hwire : f.wire = []) (hqueued : f.queued = []) : f.shown = f.current := by
  apply (run_coherent h).caught_up hseen
  rw [pending, hwire, hqueued]
  rfl

end Feed
end Interaction
