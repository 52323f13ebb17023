import GemianLeds.Interaction.Feed
import GemianLeds.Connman.Messages

/-! `ConnectionWatcher` and connman: the technologies change at any time, the watcher
subscribes to their signals and then asks for their properties. Each technology is a feed, and
the flag in the light state is what the watcher shows of it. -/
namespace GemianLeds
open Interaction

/-- A property of a technology that is not `Powered`. -/
structure OtherProperty where
  key : String
  value : GVariant
  other : key ≠ "Powered"

def OtherProperty.entry (property : OtherProperty) : String × GVariant :=
  (property.key, property.value)

def poweredEntry (powered : Bool) : String × GVariant := ("Powered", ⟨.boolean, .boolean powered⟩)

/-- A signal `PropertyChanged`. -/
inductive ConnmanSignal where
  | powered (t : Technology) (powered : Bool)
  | other (t : Technology) (property : OtherProperty)

namespace ConnmanSignal

def technology : ConnmanSignal → Technology
  | .powered t _ | .other t _ => t

def entry : ConnmanSignal → String × GVariant
  | .powered _ on => poweredEntry on
  | .other _ property => property.entry

/-- The values of `Powered` that it carries. -/
def values : ConnmanSignal → List Bool
  | .powered _ on => [on]
  | .other _ _ => []

end ConnmanSignal

/-- What is on the way from connman: signals, and replies that list the properties of a
technology. -/
inductive FromConnman where
  | signal (x : ConnmanSignal)
  | reply (t : Technology) (before : List OtherProperty) (powered : Bool)
      (after : List OtherProperty)

/-- The body of a reply. -/
def replyBody (before : List OtherProperty) (powered : Bool) (after : List OtherProperty) :
    List (String × GVariant) :=
  before.map OtherProperty.entry ++ poweredEntry powered :: after.map OtherProperty.entry

/-- The synchronous call of the event loop, which waits from its request to the reply. -/
inductive QueryState where
  | idle
  | asked (t : Technology)
  | answered (t : Technology)
  deriving DecidableEq

/-- The state of connman, of the connection, and of the watcher: what its constructor has not
done yet, the queries that have returned, and its light state. -/
structure Watcher where
  powered : Technology → Bool
  wire : List FromConnman
  subscribed : Technology → Bool
  queue : List ConnmanSignal
  query : QueryState
  subscriptions : List Technology
  queries : List Technology
  queried : Technology → Bool
  light : LightState

inductive WatcherEvent where
  /-- connman: `Powered` changes, or another property does. -/
  | change (t : Technology) (powered : Bool)
  | changeOther (t : Technology) (property : OtherProperty)
  /-- connman answers the query with the properties of the technology. -/
  | answer (before after : List OtherProperty)
  /-- The next message reaches the connection. -/
  | arrive
  /-- The event loop does the next step of the constructor, or dispatches a signal. -/
  | proceed
  | dispatch
  /-- The daemon performs an action on the light state. -/
  | daemon (action : DaemonAction)

namespace Watcher

/-- The constructor `ConnectionWatcher::ConnectionWatcher` begins. -/
def start (powered : Technology → Bool) (programCounter : UInt32) : Watcher where
  powered := powered
  wire := []
  subscribed _ := false
  queue := []
  query := .idle
  subscriptions := [.wifi, .bluetooth, .cellular]
  queries := [.wifi, .bluetooth, .cellular]
  queried _ := false
  light := .new programCounter

/-- What a handler makes of a message is applied to the light state. -/
def handle (s : Watcher) (calls : Except Misuse (List WatcherCall)) : Option Watcher :=
  match calls with
  | .ok calls => some { s with light := runOps s.light (calls.map .watcher) }
  | .error _ => none

def step (s : Watcher) : WatcherEvent → Option Watcher
  | .change t powered =>
      some
        { s with
          powered := Function.update s.powered t powered
          wire := s.wire ++ [.signal (.powered t powered)] }
  | .changeOther t property => some { s with wire := s.wire ++ [.signal (.other t property)] }
  | .answer before after =>
      match s.query with
      | .asked t =>
          some
            { s with
              query := .answered t
              wire := s.wire ++ [.reply t before (s.powered t) after] }
      | _ => none
  | .arrive =>
      match s.wire with
      | [] => none
      | .signal x :: wire =>
          some
            { s with
              wire
              queue := if s.subscribed x.technology then s.queue ++ [x] else s.queue }
      | .reply t before powered after :: wire =>
          (s.handle
            (dbusQueryConnectivityState t.objectPath
              (some ⟨.methodReturn, some (.ofProperties (replyBody before powered after))⟩))).map
            fun s =>
              { s with
                wire
                query := if s.query = .answered t then .idle else s.query
                queried := Function.update s.queried t true }
  | .proceed =>
      match s.query, s.subscriptions, s.queries with
      | .idle, t :: subscriptions, _ =>
          some { s with subscriptions, subscribed := Function.update s.subscribed t true }
      | .idle, [], t :: queries => some { s with queries, query := .asked t }
      | _, _, _ => none
  | .dispatch =>
      match s.query, s.queue with
      | .idle, x :: queue =>
          (s.handle
            (handleDbusSignal x.technology.objectPath (some "PropertyChanged")
              (.ofEntry x.entry))).map
            fun s => { s with queue }
      | _, _ => none
  | .daemon action => some { s with light := runOps s.light [.daemon action] }

/-- Other properties do not count. -/
theorem poweredValues_other (properties : List OtherProperty)
    (entries : List (String × GVariant)) :
    poweredValues (properties.map OtherProperty.entry ++ entries) = poweredValues entries := by
  induction properties with
  | nil => rfl
  | cons property properties ih =>
    rw [List.map_cons, List.cons_append]
    unfold OtherProperty.entry
    rw [poweredValues_cons_other property.other]
    exact ih

theorem poweredValues_replyBody (before after : List OtherProperty) (powered : Bool) :
    poweredValues (replyBody before powered after) = [powered] := by
  unfold replyBody poweredEntry
  rw [poweredValues_other, poweredValues_cons rfl rfl, ← List.append_nil (after.map _),
    poweredValues_other]
  rfl

theorem poweredBoolean_replyBody (before after : List OtherProperty) (powered : Bool) :
    PoweredBoolean (replyBody before powered after) := by
  intro entry hentry hkey
  rcases List.mem_append.mp hentry with hentry | hentry
  · obtain ⟨property, -, rfl⟩ := List.mem_map.mp hentry
    exact absurd hkey property.other
  · rcases List.mem_cons.mp hentry with rfl | hentry
    · rfl
    · obtain ⟨property, -, rfl⟩ := List.mem_map.mp hentry
      exact absurd hkey property.other

/-- A reply of connman is one call for its technology. -/
theorem reply_calls (t : Technology) (before after : List OtherProperty) (powered : Bool) :
    dbusQueryConnectivityState t.objectPath
        (some ⟨.methodReturn, some (.ofProperties (replyBody before powered after))⟩) =
      .ok [t.call powered] := by
  let m : ConnmanMessage :=
    .reply (some ⟨.methodReturn, some (.ofProperties (replyBody before powered after))⟩)
  have hproperties : m.properties = replyBody before powered after := by
    rw [properties_reply rfl, GVariant.getProperties_ofProperties]
    rfl
  have hwellFormed : m.WellFormed := by
    refine ⟨⟨_, rfl, .inr rfl⟩, ?_⟩
    rw [hproperties]
    exact poweredBoolean_replyBody before after powered
  have hcalls := m.handle_ok t hwellFormed
  rw [hproperties, poweredValues_replyBody] at hcalls
  exact hcalls

/-- A signal of connman is a call if it is about `Powered`. -/
theorem signal_calls (x : ConnmanSignal) :
    handleDbusSignal x.technology.objectPath (some "PropertyChanged") (.ofEntry x.entry) =
      .ok (x.values.map x.technology.call) := by
  let m : ConnmanMessage := .propertyChanged (.ofEntry x.entry)
  have hproperties : m.properties = [x.entry] :=
    properties_propertyChanged (GVariant.getStringVariant_ofEntry x.entry)
  have hwellFormed : m.WellFormed := by
    refine ⟨rfl, ?_⟩
    rw [hproperties]
    refine List.forall_mem_singleton.mpr fun hkey => ?_
    cases x with
    | powered t on => rfl
    | other t property => exact absurd hkey property.other
  have hvalues : poweredValues [x.entry] = x.values := by
    cases x with
    | powered t on => rfl
    | other t property => exact poweredValues_cons_other property.other _ []
  have hcalls := m.handle_ok x.technology hwellFormed
  rw [hproperties, hvalues] at hcalls
  exact hcalls

variable {s s' : Watcher}

/-- Everything one event does. -/
inductive Effect (s s' : Watcher) : WatcherEvent → Prop where
  | change (t : Technology) (powered : Bool)
      (hs : s' =
        { s with
          powered := Function.update s.powered t powered
          wire := s.wire ++ [.signal (.powered t powered)] }) : Effect s s' (.change t powered)
  | changeOther (t : Technology) (property : OtherProperty)
      (hs : s' = { s with wire := s.wire ++ [.signal (.other t property)] }) :
      Effect s s' (.changeOther t property)
  | answer (t : Technology) (before after : List OtherProperty) (hquery : s.query = .asked t)
      (hs : s' =
        { s with
          query := .answered t
          wire := s.wire ++ [.reply t before (s.powered t) after] }) :
      Effect s s' (.answer before after)
  | arriveSignal (x : ConnmanSignal) (wire : List FromConnman) (hwire : s.wire = .signal x :: wire)
      (hs : s' =
        { s with
          wire
          queue := if s.subscribed x.technology then s.queue ++ [x] else s.queue }) :
      Effect s s' .arrive
  | arriveReply (t : Technology) (before : List OtherProperty) (powered : Bool)
      (after : List OtherProperty) (wire : List FromConnman)
      (hwire : s.wire = .reply t before powered after :: wire)
      (hs : s' =
        { s with
          wire
          query := if s.query = .answered t then .idle else s.query
          queried := Function.update s.queried t true
          light := runOps s.light ([powered].map t.call |>.map .watcher) }) : Effect s s' .arrive
  | subscribe (t : Technology) (subscriptions : List Technology) (hquery : s.query = .idle)
      (hsubscriptions : s.subscriptions = t :: subscriptions)
      (hs : s' =
        { s with subscriptions, subscribed := Function.update s.subscribed t true }) :
      Effect s s' .proceed
  | query (t : Technology) (queries : List Technology) (hquery : s.query = .idle)
      (hsubscriptions : s.subscriptions = []) (hqueries : s.queries = t :: queries)
      (hs : s' = { s with queries, query := .asked t }) : Effect s s' .proceed
  | dispatch (x : ConnmanSignal) (queue : List ConnmanSignal) (hquery : s.query = .idle)
      (hqueue : s.queue = x :: queue)
      (hs : s' =
        { s with
          queue
          light := runOps s.light ((x.values.map x.technology.call).map .watcher) }) :
      Effect s s' .dispatch
  | daemon (action : DaemonAction)
      (hs : s' = { s with light := runOps s.light [.daemon action] }) :
      Effect s s' (.daemon action)

theorem step_effect {e : WatcherEvent} (h : s.step e = some s') : Effect s s' e := by
  unfold step at h
  cases e with
  | change t powered => exact .change t powered (Option.some.inj h).symm
  | changeOther t property => exact .changeOther t property (Option.some.inj h).symm
  | daemon action => exact .daemon action (Option.some.inj h).symm
  | answer before after =>
    simp only at h
    split at h
    next t hquery => exact .answer t before after hquery (Option.some.inj h).symm
    next => cases h
  | arrive =>
    simp only at h
    split at h
    next => cases h
    next x wire hwire => exact .arriveSignal x wire hwire (Option.some.inj h).symm
    next t before powered after wire hwire =>
      rw [reply_calls] at h
      exact .arriveReply t before powered after wire hwire (Option.some.inj h).symm
  | proceed =>
    simp only at h
    split at h
    next t subscriptions hquery hsubscriptions =>
      exact .subscribe t subscriptions hquery hsubscriptions (Option.some.inj h).symm
    next t queries hquery hsubscriptions hqueries =>
      exact .query t queries hquery hsubscriptions hqueries (Option.some.inj h).symm
    next => cases h
  | dispatch =>
    simp only at h
    split at h
    next x queue hquery hqueue =>
      rw [signal_calls] at h
      exact .dispatch x queue hquery hqueue (Option.some.inj h).symm
    next => cases h

end Watcher

/-- The change of a technology that a signal is. -/
def ConnmanSignal.value (t : Technology) : ConnmanSignal → Option Bool
  | .powered u on => if u = t then some on else none
  | .other _ _ => none

/-- What a message is in the feed of a technology. -/
def FromConnman.feedItem (t : Technology) : FromConnman → Option (FeedItem Bool)
  | .signal x => (x.value t).map .change
  | .reply u _ powered _ => if u = t then some (.snapshot powered) else none

namespace Watcher
variable {s s' : Watcher}

/-- The watcher as far as one technology is concerned. -/
def feed (s : Watcher) (t : Technology) : Feed Bool where
  current := s.powered t
  wire := s.wire.filterMap (FromConnman.feedItem t)
  subscribed := s.subscribed t
  queued := s.queue.filterMap (ConnmanSignal.value t)
  shown := connectivityOf s.light t
  seen := s.queried t

/-- The constructor subscribes to every technology before it asks, and a query is to come, or
under way, or has returned. -/
structure Consistent (s : Watcher) : Prop where
  subscribed : ∀ t, t ∈ s.subscriptions ∨ s.subscribed t = true
  asking : s.query ≠ .idle → s.subscriptions = []
  queried : ∀ t, t ∈ s.queries ∨ s.query = .asked t ∨ s.query = .answered t ∨ s.queried t = true

theorem start_consistent (powered : Technology → Bool) (programCounter : UInt32) :
    (start powered programCounter).Consistent where
  subscribed t := .inl (by cases t <;> simp [start])
  asking h := absurd rfl h
  queried t := .inl (by cases t <;> simp [start])

theorem step_consistent {e : WatcherEvent} (hs : s.Consistent) (h : s.step e = some s') :
    s'.Consistent := by
  cases step_effect h with
  | change t powered hs' | changeOther t property hs' | daemon action hs'
  | arriveSignal x wire hwire hs' | dispatch x queue hquery hqueue hs' =>
    subst hs'
    exact ⟨hs.subscribed, hs.asking, hs.queried⟩
  | answer t before after hquery hs' =>
    subst hs'
    refine ⟨hs.subscribed, fun _ => hs.asking (by rw [hquery]; nofun), fun u => ?_⟩
    rcases hs.queried u with hu | hu | hu | hu
    · exact .inl hu
    · rw [hquery] at hu
      cases hu
      exact .inr (.inr (.inl rfl))
    · rw [hquery] at hu
      cases hu
    · exact .inr (.inr (.inr hu))
  | arriveReply t before powered after wire hwire hs' =>
    subst hs'
    by_cases hquery : s.query = .answered t
    · refine ⟨hs.subscribed, fun h => ?_, fun u => ?_⟩
      · simp only [if_pos hquery] at h
        exact absurd rfl h
      · by_cases hut : u = t
        · subst hut
          exact .inr (.inr (.inr (Function.update_self ..)))
        · have hother := hs.queried u
          simp only [hquery, reduceCtorEq, false_or, QueryState.answered.injEq,
            Ne.symm hut] at hother
          refine hother.imp_right fun hu => .inr (.inr ?_)
          exact (Function.update_of_ne hut ..).trans hu
    · refine ⟨hs.subscribed, fun h => ?_, fun u => ?_⟩
      · simp only [if_neg hquery] at h
        exact hs.asking h
      · simp only [if_neg hquery]
        refine (hs.queried u).imp_right fun hu => hu.imp_right fun hu => hu.imp_right fun hu => ?_
        by_cases hut : u = t
        · subst hut
          exact Function.update_self ..
        · exact (Function.update_of_ne hut ..).trans hu
  | subscribe t subscriptions hquery hsubscriptions hs' =>
    subst hs'
    refine ⟨fun u => ?_, fun h => absurd hquery h, hs.queried⟩
    by_cases hut : u = t
    · subst hut
      exact .inr (Function.update_self ..)
    · have hu := hs.subscribed u
      rw [hsubscriptions, List.mem_cons] at hu
      rcases hu with (rfl | hu) | hu
      · exact absurd rfl hut
      · exact .inl hu
      · exact .inr ((Function.update_of_ne hut ..).trans hu)
  | query t queries hquery hsubscriptions hqueries hs' =>
    subst hs'
    refine ⟨hs.subscribed, fun _ => hsubscriptions, fun u => ?_⟩
    have hu := hs.queried u
    rw [hqueries, hquery, List.mem_cons] at hu
    rcases hu with (rfl | hu) | hu | hu | hu
    · exact .inr (.inl rfl)
    · exact .inl hu
    · cases hu
    · cases hu
    · exact .inr (.inr (.inr hu))

/-- A call for one technology leaves the flags of the others. -/
theorem connectivityOf_calls_other {t u : Technology} (h : u ≠ t) (values : List Bool)
    (light : LightState) :
    connectivityOf (runOps light ((values.map t.call).map .watcher)) u =
      connectivityOf light u := by
  rw [connectivityOf_calls]
  cases values.getLast? with
  | none => rfl
  | some on => exact Function.update_of_ne h ..

theorem connectivityOf_daemon (action : DaemonAction) (light : LightState) (t : Technology) :
    connectivityOf (runOps light [.daemon action]) t = connectivityOf light t := by
  rw [runOps_cons, runOps_nil]
  obtain ⟨pc, h⟩ := (Op.daemon action).next_at light
  rw [h]
  cases action <;> cases t <;> rfl

theorem value_technology {t : Technology} {x : ConnmanSignal} {on : Bool}
    (h : x.value t = some on) : x = .powered t on := by
  unfold ConnmanSignal.value at h
  split at h
  next u on' =>
    split at h
    next hut =>
      rw [hut, Option.some.inj h]
    next => cases h
  next => cases h

/-- What the dispatch of a signal shows of a technology. -/
theorem connectivityOf_signal (t : Technology) (x : ConnmanSignal) (light : LightState) :
    connectivityOf (runOps light ((x.values.map x.technology.call).map .watcher)) t =
      (x.value t).getD (connectivityOf light t) := by
  cases x with
  | powered u on =>
    by_cases hut : u = t
    · subst hut
      rw [connectivityOf_calls, ConnmanSignal.value, if_pos rfl]
      exact Function.update_self ..
    · rw [ConnmanSignal.value, if_neg hut]
      exact connectivityOf_calls_other (Ne.symm hut) [on] light
  | other u property => rfl

/-- For a technology, one state follows another by at most one step of its feed. -/
def Refines (s s' : Watcher) (t : Technology) : Prop :=
  s'.feed t = s.feed t ∨ ∃ event, (s.feed t).step event = some (s'.feed t)

theorem arriveSignal_refines {x : ConnmanSignal} {wire : List FromConnman}
    (hwire : s.wire = .signal x :: wire) (t : Technology) :
    Refines s
      { s with wire, queue := if s.subscribed x.technology then s.queue ++ [x] else s.queue }
      t := by
  cases hvalue : x.value t with
  | some on =>
    have hx := value_technology hvalue
    subst hx
    have harrive : (s.feed t).wire = .change on :: wire.filterMap (FromConnman.feedItem t) := by
      simp [feed, hwire, FromConnman.feedItem, hvalue]
    refine .inr ⟨.arrive, ?_⟩
    rw [Feed.step_arrive_change harrive]
    unfold feed ConnmanSignal.technology
    cases hsubscribed : s.subscribed t with
    | true => simp [hvalue]
    | false => simp
  | none =>
    left
    unfold feed
    cases hsubscribed : s.subscribed x.technology <;>
      simp [hwire, FromConnman.feedItem, hvalue]

theorem arriveReply_refines {u : Technology} {before after : List OtherProperty} {powered : Bool}
    {wire : List FromConnman} (hwire : s.wire = .reply u before powered after :: wire)
    (query : QueryState) (t : Technology) :
    Refines s
      { s with
        wire
        query
        queried := Function.update s.queried u true
        light := runOps s.light ([powered].map u.call |>.map .watcher) } t := by
  by_cases hut : u = t
  · subst hut
    have harrive :
        (s.feed u).wire = .snapshot powered :: wire.filterMap (FromConnman.feedItem u) := by
      simp [feed, hwire, FromConnman.feedItem]
    refine .inr ⟨.arrive, ?_⟩
    rw [Feed.step_arrive_snapshot harrive]
    unfold feed
    rw [connectivityOf_calls]
    simp
  · left
    unfold feed
    rw [connectivityOf_calls_other (Ne.symm hut)]
    simp [hwire, FromConnman.feedItem, hut, Ne.symm hut]

theorem dispatch_refines {x : ConnmanSignal} {queue : List ConnmanSignal}
    (hqueue : s.queue = x :: queue) (t : Technology) :
    Refines s
      { s with
        queue
        light := runOps s.light ((x.values.map x.technology.call).map .watcher) } t := by
  cases hvalue : x.value t with
  | some on =>
    have hdispatch : (s.feed t).queued = on :: queue.filterMap (ConnmanSignal.value t) := by
      simp [feed, hqueue, hvalue]
    refine .inr ⟨.dispatch, ?_⟩
    rw [Feed.step_dispatch hdispatch]
    unfold feed
    rw [connectivityOf_signal, hvalue]
    rfl
  | none =>
    left
    unfold feed
    rw [connectivityOf_signal, hvalue]
    simp [hqueue, hvalue]

/-- One step of the watcher is, for each technology, at most one step of its feed. -/
theorem step_refines {e : WatcherEvent} (hs : s.Consistent) (h : s.step e = some s')
    (t : Technology) : Refines s s' t := by
  cases step_effect h with
  | change u powered hs' =>
    subst hs'
    by_cases hut : u = t
    · subst hut
      refine .inr ⟨.change powered, ?_⟩
      simp [feed, Feed.step, FromConnman.feedItem, ConnmanSignal.value]
    · left
      simp [feed, FromConnman.feedItem, ConnmanSignal.value, hut, Ne.symm hut]
  | changeOther u property hs' =>
    subst hs'
    left
    simp [feed, FromConnman.feedItem, ConnmanSignal.value]
  | daemon action hs' =>
    subst hs'
    left
    unfold feed
    rw [connectivityOf_daemon]
  | answer u before after hquery hs' =>
    subst hs'
    by_cases hut : u = t
    · subst hut
      have hsubscribed : s.subscribed u = true := by
        apply (hs.subscribed u).resolve_left
        intro hu
        rw [hs.asking (by rw [hquery]; nofun)] at hu
        cases hu
      refine .inr ⟨.answer, ?_⟩
      simp [feed, Feed.step, FromConnman.feedItem, hsubscribed]
    · left
      simp [feed, FromConnman.feedItem, hut]
  | arriveSignal x wire hwire hs' =>
    rw [hs']
    exact arriveSignal_refines hwire t
  | arriveReply u before powered after wire hwire hs' =>
    rw [hs']
    exact arriveReply_refines hwire _ t
  | subscribe u subscriptions hquery hsubscriptions hs' =>
    subst hs'
    by_cases hut : u = t
    · subst hut
      refine .inr ⟨.subscribe, ?_⟩
      simp [feed, Feed.step]
    · left
      simp [feed, Ne.symm hut]
  | query u queries hquery hsubscriptions hqueries hs' =>
    subst hs'
    exact .inl rfl
  | dispatch x queue hquery hqueue hs' =>
    rw [hs']
    exact dispatch_refines hqueue t

/-- A run of the watcher is, for each technology, a run of its feed. -/
theorem run_refines {powered : Technology → Bool} {programCounter : UInt32}
    {events : List WatcherEvent} (h : runFrom step (start powered programCounter) events = some s) :
    s.Consistent ∧ ∀ t, ∃ feedEvents,
      runFrom Feed.step (Feed.start (powered t) (connectivityOf (.new programCounter) t))
        feedEvents = some (s.feed t) := by
  refine runFrom_invariant
    (I := fun s => s.Consistent ∧ ∀ t, ∃ feedEvents,
      runFrom Feed.step (Feed.start (powered t) (connectivityOf (.new programCounter) t))
        feedEvents = some (s.feed t)) h
    ⟨start_consistent powered programCounter, fun t => ⟨[], rfl⟩⟩ ?_
  rintro r e r' ⟨hr, hfeed⟩ hstep
  refine ⟨step_consistent hr hstep, fun t => ?_⟩
  obtain ⟨feedEvents, hrun⟩ := hfeed t
  rcases step_refines hr hstep t with hsame | ⟨event, hevent⟩
  · rw [hsame]
    exact ⟨feedEvents, hrun⟩
  · exact ⟨feedEvents ++ [event], runFrom_concat.mpr ⟨_, hrun, hevent⟩⟩

/-- The constructor has returned. -/
def Started (s : Watcher) : Prop := s.subscriptions = [] ∧ s.queries = [] ∧ s.query = .idle

/-- No message is in flight or queued. -/
def Quiet (s : Watcher) : Prop := s.wire = [] ∧ s.queue = []

theorem Consistent.queried_of_started (hs : s.Consistent) (h : s.Started) (t : Technology) :
    s.queried t = true := by
  obtain ⟨-, hqueries, hquery⟩ := h
  have ht := hs.queried t
  rw [hqueries, hquery] at ht
  simpa using ht

end Watcher

/-- Whatever changes, subscriptions, queries and dispatches interleave, once the watcher has
started and no message is in flight or queued its flags are the states of the technologies. -/
theorem connectivity_converges (powered : Technology → Bool) (programCounter : UInt32)
    (events : List WatcherEvent) (s : Watcher)
    (h : runFrom Watcher.step (.start powered programCounter) events = some s)
    (hstarted : s.Started) (hquiet : s.Quiet) :
    s.light.connectivityWifi = s.powered .wifi ∧
      s.light.connectivityBluetooth = s.powered .bluetooth ∧
      s.light.connectivityCellular = s.powered .cellular := by
  obtain ⟨hs, hfeed⟩ := Watcher.run_refines h
  have hshown (t : Technology) : connectivityOf s.light t = s.powered t := by
    obtain ⟨feedEvents, hrun⟩ := hfeed t
    apply Feed.run_shows hrun (hs.queried_of_started hstarted t)
    · change s.wire.filterMap _ = []
      rw [hquiet.1]
      rfl
    · change s.queue.filterMap _ = []
      rw [hquiet.2]
      rfl
  exact ⟨hshown .wifi, hshown .bluetooth, hshown .cellular⟩

/-- Wifi goes on and off, and the reply to the query overtakes both signals. -/
theorem connectivity_converges_overtaken :
    ∃ s : Watcher,
      runFrom Watcher.step (.start (fun _ => false) 0)
          [.proceed, .proceed, .proceed, .change .wifi true, .arrive, .proceed,
            .change .wifi false, .answer [] [], .arrive, .arrive, .dispatch, .proceed,
            .change .cellular true, .answer [] [], .arrive, .arrive, .dispatch, .dispatch,
            .proceed, .answer [] [], .arrive] = some s ∧
        s.light.connectivityWifi = s.powered .wifi ∧
        s.light.connectivityBluetooth = s.powered .bluetooth ∧
        s.light.connectivityCellular = s.powered .cellular := by
  refine ⟨_, rfl, ?_⟩
  exact connectivity_converges (fun _ => false) 0
    [.proceed, .proceed, .proceed, .change .wifi true, .arrive, .proceed,
      .change .wifi false, .answer [] [], .arrive, .arrive, .dispatch, .proceed,
      .change .cellular true, .answer [] [], .arrive, .arrive, .dispatch, .dispatch,
      .proceed, .answer [] [], .arrive] _ rfl ⟨rfl, rfl, rfl⟩ ⟨rfl, rfl⟩

end GemianLeds
