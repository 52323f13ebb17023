import GemianLeds.EventLoop.Jobs
import GemianLeds.EventLoop.Progress
import GemianLeds.DBus.Handlers

/-! The object on its event loop, as long as `LEDs` lives. Requests are messages there, the calls
of the main thread are handed to `enqueue` and the timers to `schedule_in`. Seen from outside,
this is the object with an inbox and with timers, which expire when they are due. -/
namespace GemianLeds
open Interaction

/-- What the callback of a source does. -/
inductive ObjectJob where
  /-- The constructor of `EventLoop` enqueues `[]{}`. -/
  | nothing
  | call (e : ObjectEvent)
  | request (r : Request)
  | torchOff (armedBy : ℕ)

namespace ObjectJob

def request? : ObjectJob → Option Request
  | .request r => some r
  | _ => none

def armedBy? : ObjectJob → Option ℕ
  | .torchOff armedBy => some armedBy
  | _ => none

/-- The kind of source that carries a job. -/
def Fits (j : ObjectJob) (kind : SourceKind) : Prop :=
  match j with
  | .nothing => kind = .idle
  | .call e => e.fromBus = false ∧ kind = .idle
  | .request _ => kind = .message
  | .torchOff _ => kind.isTimeout

end ObjectJob

/-- `loop` is `dbus_event_loop`, and holds the inbox and the timers of `leds`. `history` tells
what has happened to the object, and at which time of the loop, and `enqueued` are the actions
that the daemon was handed. -/
structure LEDsLoop where
  loop : EventLoop
  jobs : List ObjectJob
  leds : LEDs
  history : List (ℕ × ObjectEvent)
  enqueued : List DaemonAction

inductive LEDsLoopEvent where
  /-- The main thread makes or releases a registration. -/
  | enqueue (e : ObjectEvent)
  /-- GDBus attaches the request of a client. -/
  | send (r : Request)
  | loop (e : LoopEvent)
  /-- The callback under way runs to its end. -/
  | finish

/-- `schedule_in` is called when the handler has returned. -/
def LEDs.arms (leds : LEDs) (r : Request) : Option UInt32 :=
  if ((dbusMethodCall r).actions.mapM leds.call).isSome then (dbusMethodCall r).timer else none

/-- One event, and the actions of all so far. -/
def LEDs.observe (seen : LEDs × List DaemonAction) (e : ObjectEvent) :
    Option (LEDs × List DaemonAction) :=
  (seen.1.step e).map fun next => (next.1, seen.2 ++ next.2)

def isTimeout (source : GSource) : Bool := source.kind.isTimeout

namespace LEDsLoop

def start : LEDsLoop := ⟨.start, [.nothing], .new, [], []⟩

def record (s : LEDsLoop) (e : ObjectEvent) (leds : LEDs) (actions : List DaemonAction) :
    LEDsLoop :=
  { s with leds, history := s.history ++ [(s.loop.now, e)], enqueued := s.enqueued ++ actions }

/-- The timer of the torch request that was counted last. -/
def schedule (s : LEDsLoop) : Option UInt32 → Option LEDsLoop
  | none => some s
  | some duration =>
      (s.loop.step (.scheduleIn duration.toNat)).map fun loop =>
        { s with loop, jobs := s.jobs ++ [.torchOff s.leds.torchRequests] }

def return_ (s : LEDsLoop) (threw : Bool) : Option LEDsLoop :=
  (s.loop.step (.finish threw)).map fun loop => { s with loop }

/-- The callback of a job. What `dbus_method_call` throws is caught in the method handler, and
what the callback of a timer throws by its source. -/
def perform (s : LEDsLoop) : ObjectJob → Option LEDsLoop
  | .nothing => s.return_ false
  | .call e => (s.leds.step e).bind fun next => (s.record e next.1 next.2).return_ false
  | .request r =>
      let answered := s.leds.answer r []
      ((s.record .handle answered.1 answered.2).schedule (s.leds.arms r)).bind fun s =>
        s.return_ false
  | .torchOff armedBy =>
      let called := s.leds.call (.torch false)
      let actions := called.getD []
      let handed :=
        if actions = [.torch false] then s.leds.handed ++ [.expire armedBy] else s.leds.handed
      (s.record (.expire armedBy) { s.leds with handed } actions).return_ called.isNone

def step (s : LEDsLoop) : LEDsLoopEvent → Option LEDsLoop
  | .enqueue e =>
      if e.fromBus then none
      else (s.loop.step .enqueue).map fun loop => { s with loop, jobs := s.jobs ++ [.call e] }
  | .send r =>
      if s.leds.object then
        (s.loop.step .message).map fun loop =>
          { s.record (.send r) s.leds [] with loop, jobs := s.jobs ++ [.request r] }
      else none
  | .loop e => if e.internal then (s.loop.step e).map fun loop => { s with loop } else none
  | .finish =>
      match s.loop.point with
      | .calling source none _ => (EventLoop.jobOf s.jobs source).bind s.perform
      | _ => none

/-- The requests that wait, in order. -/
def inbox (s : LEDsLoop) : List Request :=
  (s.loop.carried s.jobs EventLoop.ofMessage).filterMap ObjectJob.request?

def timers (s : LEDsLoop) : List ℕ :=
  (s.loop.carried s.jobs isTimeout).filterMap ObjectJob.armedBy?

/-- The object as its clients know it. -/
def view (s : LEDsLoop) : LEDs := { s.leds with inbox := s.inbox, timers := s.timers }

/-- The timer of the torch request that was handled at a time, and its duration. -/
def Armed (history : List (ℕ × ObjectEvent)) (armedBy time : ℕ) (duration : UInt32) : Prop :=
  ∃ before leds actions, before ++ [(time, .handle)] <+: history ∧
    runFrom LEDs.observe (.new, []) (before.map Prod.snd) = some (leds, actions) ∧
    leds.inbox.head? = some (.setTorch true duration) ∧ leds.torchRequests + 1 = armedBy

/-- What is true of the object on its loop. -/
structure Hosted (s : LEDsLoop) : Prop where
  carries : s.loop.Carries ObjectJob.Fits s.jobs
  ran : runFrom LEDs.observe (.new, []) (s.history.map Prod.snd) = some (s.view, s.enqueued)
  armed : ∀ source ∈ s.loop.sources, ∀ n due, EventLoop.jobOf s.jobs source = some (.torchOff n) →
    source.kind = .timeout due → ∃ t d, Armed s.history n t d ∧ due = t + d.toNat
  late : ∀ before t n, before ++ [(t, .expire n)] <+: s.history →
    ∃ t₀ d, Armed before n t₀ d ∧ t₀ + d.toNat ≤ t

end LEDsLoop

theorem timer_eq_some {r : Request} {duration : UInt32}
    (h : (dbusMethodCall r).timer = some duration) : r = .setTorch true duration := by
  cases r with
  | setTorch on d =>
    obtain ⟨hon, hd⟩ := Option.ite_none_right_eq_some.mp h
    simp only [Bool.and_eq_true] at hon
    rw [hon.1, Option.some.inj hd]
  | setLEDBlockStep led colour type value =>
    simp only [dbusMethodCall] at h
    split at h <;> cases h
  | _ => cases h

namespace LEDs

/-- A request is answered whatever else waits. -/
theorem answer_eq (leds : LEDs) (r : Request) (inbox : List Request) (timers : List ℕ)
    (inbox' : List Request) :
    answer { leds with inbox := inbox', timers } r inbox =
      ({ (leds.answer r []).1 with
          inbox
          timers := timers ++
            ((leds.arms r).map fun _ => (leds.answer r []).1.torchRequests).toList },
        (leds.answer r []).2) := by
  have hcall : call { leds with inbox := inbox', timers } = leds.call := rfl
  unfold answer arms
  rw [hcall]
  cases (dbusMethodCall r).actions.mapM leds.call with
  | none => simp
  | some called => rfl

theorem step_handle {leds : LEDs} {r : Request} {inbox : List Request}
    (h : leds.inbox = r :: inbox) : leds.step .handle = some (leds.answer r inbox) := by
  unfold step
  simp only [h]

/-- Requests are answered in the order in which they were sent. -/
theorem step_answered {leds leds' : LEDs} {e : ObjectEvent} {actions : List DaemonAction}
    (h : leds.step e = some (leds', actions)) :
    leds'.answered.map Prod.fst ++ leds'.inbox =
      leds.answered.map Prod.fst ++ leds.inbox ++ e.sent := by
  unfold step at h
  cases e with
  | register event | registerObject | unregister event =>
    cases h
    exact (List.append_nil _).symm
  | send r =>
    obtain ⟨-, hleds⟩ := Option.ite_none_right_eq_some.mp h
    cases hleds
    exact (List.append_assoc ..).symm
  | handle =>
    simp only at h
    split at h
    next => cases h
    next r inbox hinbox =>
      have hanswered : (leds.answer r inbox).1.answered.map Prod.fst ++
          (leds.answer r inbox).1.inbox = leds.answered.map Prod.fst ++ [r] ++ inbox := by
        unfold answer
        split <;> simp
      rw [Option.some.inj h] at hanswered
      rw [hanswered, hinbox]
      simp [ObjectEvent.sent]
  | expire armedBy =>
    obtain ⟨-, hleds⟩ := Option.ite_none_right_eq_some.mp h
    cases hleds
    exact (List.append_nil _).symm

theorem run_answered {events : List ObjectEvent} {leds : LEDs} {actions : List DaemonAction}
    (h : runFrom observe (.new, []) events = some (leds, actions)) :
    leds.answered.map Prod.fst ++ leds.inbox = events.flatMap ObjectEvent.sent := by
  refine runFrom_history (I := fun seen events => seen.1.answered.map Prod.fst ++ seen.1.inbox =
    events.flatMap ObjectEvent.sent) h rfl ?_
  rintro seen hist e seen' hs hstep
  obtain ⟨next, hnext, rfl⟩ := Option.map_eq_some_iff.mp hstep
  rw [List.flatMap_append, List.flatMap_singleton, ← hs]
  exact step_answered hnext

/-- A timer is armed for a torch request, which is counted. -/
theorem arms_eq_some {leds : LEDs} {r : Request} {d : UInt32} (h : leds.arms r = some d)
    (inbox : List Request) :
    r = .setTorch true d ∧ (leds.answer r inbox).1.torchRequests = leds.torchRequests + 1 := by
  obtain ⟨hcalled, htimer⟩ := Option.ite_none_right_eq_some.mp h
  obtain rfl := timer_eq_some htimer
  refine ⟨rfl, ?_⟩
  obtain ⟨called, hcalled⟩ := Option.isSome_iff_exists.mp hcalled
  unfold answer
  rw [hcalled]
  rfl

theorem torchRequests_le (leds : LEDs) (r : Request) (inbox : List Request) :
    leds.torchRequests ≤ (leds.answer r inbox).1.torchRequests := by
  unfold answer
  split
  · exact le_refl _
  · exact Nat.le_add_right ..

/-- Timers are known apart by the torch requests that armed them. -/
structure Numbered (leds : LEDs) : Prop where
  counted : ∀ n ∈ leds.timers, n ≤ leds.torchRequests
  distinct : leds.timers.Nodup

theorem answer_numbered {leds : LEDs} (hs : leds.Numbered) (r : Request) (inbox : List Request) :
    (leds.answer r inbox).1.Numbered := by
  have hle := leds.torchRequests_le r []
  have htimers : (leds.answer r inbox).1.timers = leds.timers ++
      ((leds.arms r).map fun _ => (leds.answer r []).1.torchRequests).toList :=
    congrArg (fun x => x.1.timers) (leds.answer_eq r inbox leds.timers leds.inbox)
  have hcount : (leds.answer r inbox).1.torchRequests = (leds.answer r []).1.torchRequests :=
    congrArg (fun x => x.1.torchRequests) (leds.answer_eq r inbox leds.timers leds.inbox)
  cases harms : leds.arms r with
  | none =>
    rw [harms, Option.map_none, Option.toList_none, List.append_nil] at htimers
    constructor
    · rw [htimers, hcount]
      exact fun n hn => (hs.counted n hn).trans hle
    · rw [htimers]
      exact hs.distinct
  | some d =>
    obtain ⟨-, hnew⟩ := arms_eq_some harms []
    rw [harms, Option.map_some, Option.toList_some, hnew] at htimers
    constructor
    · rw [htimers, hcount, hnew]
      intro n hn
      rcases List.mem_append.mp hn with hold | hlast
      · exact Nat.le_succ_of_le (hs.counted n hold)
      · exact (List.mem_singleton.mp hlast).le
    · rw [htimers]
      refine List.nodup_append.mpr
        ⟨hs.distinct, List.pairwise_singleton _ _, fun n hn m hm heq => ?_⟩
      have hle := hs.counted n hn
      rw [heq, List.mem_singleton.mp hm] at hle
      exact Nat.not_succ_le_self _ hle

theorem step_numbered {leds leds' : LEDs} {e : ObjectEvent} {actions : List DaemonAction}
    (hs : leds.Numbered) (h : leds.step e = some (leds', actions)) : leds'.Numbered := by
  unfold step at h
  cases e with
  | register event | registerObject | unregister event =>
    cases h
    exact ⟨hs.counted, hs.distinct⟩
  | send r =>
    obtain ⟨-, hleds⟩ := Option.ite_none_right_eq_some.mp h
    cases hleds
    exact ⟨hs.counted, hs.distinct⟩
  | handle =>
    simp only at h
    split at h
    next => cases h
    next r inbox hinbox =>
      have hnumbered := answer_numbered hs r inbox
      rwa [Option.some.inj h] at hnumbered
  | expire armedBy =>
    obtain ⟨-, hleds⟩ := Option.ite_none_right_eq_some.mp h
    cases hleds
    exact ⟨fun n hn => hs.counted n (List.mem_of_mem_erase hn), hs.distinct.erase armedBy⟩

theorem run_numbered {events : List ObjectEvent} {leds : LEDs} {actions : List DaemonAction}
    (h : runFrom observe (.new, []) events = some (leds, actions)) : leds.Numbered := by
  refine runFrom_invariant (I := fun seen => seen.1.Numbered) h ⟨nofun, List.nodup_nil⟩ ?_
  rintro seen e seen' hs hstep
  obtain ⟨next, hnext, rfl⟩ := Option.map_eq_some_iff.mp hstep
  exact step_numbered hs hnext

theorem sent_call {e : ObjectEvent} (he : e.fromBus = false) : e.sent = [] := by
  cases e with
  | register event | registerObject | unregister event => rfl
  | send r | handle | expire armedBy => cases he

/-- A call of the main thread leaves the inbox and the timers as they are. -/
theorem step_call_view {leds leds' : LEDs} {e : ObjectEvent} {actions : List DaemonAction}
    (he : e.fromBus = false) (h : leds.step e = some (leds', actions)) (inbox : List Request)
    (timers : List ℕ) :
    step { leds with inbox, timers } e = some ({ leds' with inbox, timers }, actions) := by
  cases e with
  | register event | registerObject | unregister event =>
    cases h
    rfl
  | send r | handle | expire armedBy => cases he

end LEDs

namespace LEDsLoop
variable {s s' : LEDsLoop}

/-! ### The history -/

theorem Armed.mono {history history' : List (ℕ × ObjectEvent)} {n t : ℕ} {d : UInt32}
    (h : Armed history n t d) (hfront : history <+: history') : Armed history' n t d := by
  obtain ⟨before, leds, actions, hbefore, hrest⟩ := h
  exact ⟨before, leds, actions, hbefore.trans hfront, hrest⟩

/-- Nothing has happened to the object. -/
theorem Hosted.same (hs : s.Hosted) (hcarries : s'.loop.Carries ObjectJob.Fits s'.jobs)
    (hview : s'.view = s.view) (hhistory : s'.history = s.history)
    (henqueued : s'.enqueued = s.enqueued)
    (harmed : ∀ source ∈ s'.loop.sources, ∀ n due,
      EventLoop.jobOf s'.jobs source = some (.torchOff n) → source.kind = .timeout due →
        ∃ t d, Armed s.history n t d ∧ due = t + d.toNat) : s'.Hosted where
  carries := hcarries
  ran := by
    rw [hview, hhistory, henqueued]
    exact hs.ran
  armed := by
    rw [hhistory]
    exact harmed
  late := by
    rw [hhistory]
    exact hs.late

/-- One more event has happened to it. An expiry comes after the time at which it was armed and
the duration. -/
theorem Hosted.next (hs : s.Hosted) (hcarries : s'.loop.Carries ObjectJob.Fits s'.jobs)
    {e : ObjectEvent} {actions : List DaemonAction} {t : ℕ}
    (hview : s.view.step e = some (s'.view, actions))
    (hhistory : s'.history = s.history ++ [(t, e)])
    (henqueued : s'.enqueued = s.enqueued ++ actions)
    (harmed : ∀ source ∈ s'.loop.sources, ∀ n due,
      EventLoop.jobOf s'.jobs source = some (.torchOff n) → source.kind = .timeout due →
        ∃ t d, Armed s'.history n t d ∧ due = t + d.toNat)
    (hlate : ∀ n, e = .expire n → ∃ t₀ d, Armed s.history n t₀ d ∧ t₀ + d.toNat ≤ t) :
    s'.Hosted where
  carries := hcarries
  ran := by
    rw [hhistory, List.map_append, henqueued]
    refine runFrom_concat.mpr ⟨_, hs.ran, ?_⟩
    unfold LEDs.observe
    rw [hview]
    rfl
  armed := harmed
  late before t' n hfront := by
    rw [hhistory] at hfront
    rcases List.prefix_concat_iff.mp hfront with heq | hold
    · obtain ⟨rfl, hlast⟩ := List.append_inj' heq rfl
      cases List.singleton_inj.mp hlast
      exact hlate n rfl
    · exact hs.late before t' n hold

/-! ### Sources are attached and finished -/

/-- A source with a job of its own is attached. -/
def attached (s : LEDsLoop) (kind : SourceKind) (j : ObjectJob) : LEDsLoop :=
  { s with loop := s.loop.attach kind, jobs := s.jobs ++ [j] }

theorem eq_of_enqueue {e : ObjectEvent} (h : s.step (.enqueue e) = some s') :
    e.fromBus = false ∧ s.loop.phase ≠ .constructing ∧ s' = s.attached .idle (.call e) := by
  obtain ⟨he, h⟩ := Option.ite_none_left_eq_some.mp h
  obtain ⟨loop, hloop, hs'⟩ := Option.map_eq_some_iff.mp h
  obtain ⟨hopen, hloop⟩ := Option.ite_none_left_eq_some.mp hloop
  obtain rfl := Option.some.inj hloop
  exact ⟨Bool.eq_false_iff.mpr he, hopen, hs'.symm⟩

theorem eq_of_send {r : Request} (h : s.step (.send r) = some s') :
    s.leds.object = true ∧ s.loop.phase ≠ .constructing ∧
      s' = (s.record (.send r) s.leds []).attached .message (.request r) := by
  obtain ⟨hobject, h⟩ := Option.ite_none_right_eq_some.mp h
  obtain ⟨loop, hloop, hs'⟩ := Option.map_eq_some_iff.mp h
  obtain ⟨hopen, hloop⟩ := Option.ite_none_left_eq_some.mp hloop
  obtain rfl := Option.some.inj hloop
  exact ⟨hobject, fun hearly => hopen (.inl hearly), hs'.symm⟩

theorem eq_of_loop {e : LoopEvent} (h : s.step (.loop e) = some s') :
    e.internal ∧ ∃ loop, s.loop.step e = some loop ∧ s' = { s with loop } := by
  obtain ⟨he, h⟩ := Option.ite_none_right_eq_some.mp h
  obtain ⟨loop, hloop, hs'⟩ := Option.map_eq_some_iff.mp h
  exact ⟨he, loop, hloop, hs'.symm⟩

theorem carried_attached (hs : s.loop.Carries ObjectJob.Fits s.jobs) {β : Type}
    {p : GSource → Bool} {f : ObjectJob → Option β} {j : ObjectJob} {kind : SourceKind}
    (hf : f j = none ∨ p ⟨s.loop.promises.length, kind⟩ = true) :
    ((s.attached kind j).loop.carried (s.attached kind j).jobs p).filterMap f =
      (s.loop.carried s.jobs p).filterMap f ++ (f j).toList := by
  unfold attached
  rw [EventLoop.carried_attach hs.sound hs.alive hs.length, List.filterMap_append]
  congr 1
  rcases hf with hnone | hp
  · rw [hnone]
    cases p ⟨s.loop.promises.length, kind⟩ with
    | false => rfl
    | true => exact List.filterMap_cons_none hnone
  · rw [hp]
    cases hj : f j with
    | none => exact List.filterMap_cons_none hj
    | some b => exact List.filterMap_cons_some hj

theorem view_attached (hs : s.loop.Carries ObjectJob.Fits s.jobs) {j : ObjectJob}
    {kind : SourceKind} (hj : j.Fits kind) :
    (s.attached kind j).inbox = s.inbox ++ j.request?.toList ∧
      (s.attached kind j).timers = s.timers ++ j.armedBy?.toList := by
  constructor
  · apply carried_attached hs
    cases j with
    | request r =>
      obtain rfl := hj
      exact .inr rfl
    | nothing | call e | torchOff n => exact .inl rfl
  · apply carried_attached hs
    cases j with
    | torchOff n => exact .inr hj
    | nothing | call e | request r => exact .inl rfl

theorem jobOf_append {jobs : List ObjectJob} {source : GSource} {j j' : ObjectJob}
    (h : EventLoop.jobOf jobs source = some j) :
    EventLoop.jobOf (jobs ++ [j']) source = some j := by
  have hlt := (List.getElem?_eq_some_iff.mp h).1
  exact (List.getElem?_append_left hlt).trans h

/-- The sources that were there and the one that is attached. -/
theorem armed_attached (hs : s.Hosted) (j : ObjectJob) (kind : SourceKind)
    {history : List (ℕ × ObjectEvent)} (hfront : s.history <+: history)
    (hnew : ∀ n due, j = .torchOff n → kind = .timeout due →
      ∃ t d, Armed history n t d ∧ due = t + d.toNat) :
    ∀ source ∈ (s.loop.attach kind).sources, ∀ n due,
      EventLoop.jobOf (s.jobs ++ [j]) source = some (.torchOff n) → source.kind = .timeout due →
        ∃ t d, Armed history n t d ∧ due = t + d.toNat := by
  intro source hsource n due hjob hdue
  rw [EventLoop.attach_open hs.carries.alive] at hsource
  rcases List.mem_append.mp hsource with hold | hlast
  · obtain ⟨j', hj', -⟩ := hs.carries.fits source hold
    rw [jobOf_append hj'] at hjob
    obtain ⟨t, d, harmed, hdue⟩ := hs.armed source hold n due (hj'.trans hjob) hdue
    exact ⟨t, d, harmed.mono hfront, hdue⟩
  · obtain rfl := List.mem_singleton.mp hlast
    have hlast : EventLoop.jobOf (s.jobs ++ [j]) ⟨s.loop.promises.length, kind⟩ = some j := by
      simp [EventLoop.jobOf, ← hs.carries.length]
    exact hnew n due (Option.some.inj (hlast.symm.trans hjob)) hdue

theorem start_hosted : start.Hosted where
  carries :=
    { sound := EventLoop.start_sound
      first := EventLoop.start_messagesFirst
      alive := nofun
      length := rfl
      fits := fun source hsource => by
        obtain rfl := List.mem_singleton.mp hsource
        exact ⟨.nothing, rfl, rfl⟩ }
  ran := rfl
  armed source hsource n due hjob hdue := by
    obtain rfl := List.mem_singleton.mp hsource
    cases hdue
  late before t n hfront := by
    have hnil := List.prefix_nil.mp hfront
    simp at hnil

theorem enqueue_hosted (hs : s.Hosted) {e : ObjectEvent} (h : s.step (.enqueue e) = some s') :
    s'.Hosted := by
  obtain ⟨he, -, rfl⟩ := eq_of_enqueue h
  have hj : (ObjectJob.call e).Fits .idle := ⟨he, rfl⟩
  obtain ⟨hinbox, htimers⟩ := view_attached hs.carries hj
  have hview : (s.attached .idle (.call e)).view = s.view := by
    unfold view
    rw [hinbox, htimers]
    simp [ObjectJob.request?, ObjectJob.armedBy?, attached]
  exact hs.same (hs.carries.attach hj) hview rfl rfl (armed_attached hs _ _ List.prefix_rfl nofun)

theorem send_hosted (hs : s.Hosted) {r : Request} (h : s.step (.send r) = some s') :
    s'.Hosted := by
  obtain ⟨hobject, -, hs'⟩ := eq_of_send h
  have hj : (ObjectJob.request r).Fits .message := rfl
  obtain ⟨hinbox, htimers⟩ := view_attached hs.carries hj
  have hview : s'.view = { s.view with inbox := s.inbox ++ [r] } := by
    subst hs'
    change LEDs.mk _ _ (s.attached .message (.request r)).inbox _ _
      (s.attached .message (.request r)).timers _ = _
    rw [hinbox, htimers]
    simp [ObjectJob.request?, ObjectJob.armedBy?, view, record, attached]
  have hstep : s.view.step (.send r) = some (s'.view, []) := by
    rw [hview]
    exact if_pos hobject
  subst hs'
  refine hs.next (hs.carries.attach hj) hstep rfl rfl ?_ nofun
  exact armed_attached hs (.request r) .message (List.prefix_append _ _) nofun

theorem loop_hosted (hs : s.Hosted) {e : LoopEvent} (h : s.step (.loop e) = some s') :
    s'.Hosted := by
  obtain ⟨he, loop, hloop, hs'⟩ := eq_of_loop h
  obtain ⟨hcarries, hsources, -⟩ := hs.carries.move he hloop
  have hview : s'.view = s.view := by
    unfold view inbox timers EventLoop.carried
    rw [hs', hsources]
  subst hs'
  refine hs.same hcarries hview rfl rfl ?_
  rw [hsources]
  exact hs.armed

/-- What a callback leaves when it returns. -/
theorem eq_of_return {threw : Bool} (h : s.return_ threw = some s') {source : GSource}
    {batch : List GSource} (hpoint : s.loop.point = .calling source none batch) :
    s' = { s with loop := s.loop.finish source threw batch } := by
  unfold return_ EventLoop.step at h
  simp only [hpoint] at h
  exact (Option.some.inj h).symm

section Finish
variable {source : GSource} {batch : List GSource}

/-- Of the timers that were armed one may have gone. -/
theorem Hosted.armed_finish (hs : s.Hosted) (threw : Bool) {history : List (ℕ × ObjectEvent)}
    (hfront : s.history <+: history) :
    ∀ x ∈ (s.loop.finish source threw batch).sources, ∀ n due,
      EventLoop.jobOf s.jobs x = some (.torchOff n) → x.kind = .timeout due →
        ∃ t d, Armed history n t d ∧ due = t + d.toNat := by
  intro x hx n due hjob hdue
  obtain ⟨t, d, harmed, hdue⟩ :=
    hs.armed x (EventLoop.sources_finish_sublist.subset hx) n due hjob hdue
  exact ⟨t, d, harmed.mono hfront, hdue⟩

/-- The inbox and the timers when an idle callback has run. -/
theorem view_idle (s : LEDsLoop) (batch : List GSource) (hkind : source.kind = .idle) :
    inbox { s with loop := s.loop.finish source false batch } = s.inbox ∧
      timers { s with loop := s.loop.finish source false batch } = s.timers := by
  unfold inbox timers
  constructor
  · rw [EventLoop.carried_finish_other (by rw [EventLoop.ofMessage, hkind]; rfl)]
  · rw [EventLoop.carried_finish_other (by rw [isTimeout, hkind]; rfl)]

theorem nothing_hosted (hs : s.Hosted) (hpoint : s.loop.point = .calling source none batch)
    (hkind : source.kind = .idle) (h : s.perform .nothing = some s') : s'.Hosted := by
  obtain rfl := eq_of_return h hpoint
  obtain ⟨hinbox, htimers⟩ := view_idle s batch hkind
  refine hs.same (hs.carries.finish false hpoint) ?_ rfl rfl (hs.armed_finish false List.prefix_rfl)
  unfold view
  rw [hinbox, htimers]

theorem call_hosted (hs : s.Hosted) (hpoint : s.loop.point = .calling source none batch)
    {e : ObjectEvent} (he : e.fromBus = false) (hkind : source.kind = .idle)
    (h : s.perform (.call e) = some s') : s'.Hosted := by
  obtain ⟨⟨leds, actions⟩, hstep, h⟩ := Option.bind_eq_some_iff.mp h
  obtain rfl := eq_of_return h hpoint
  obtain ⟨hinbox, htimers⟩ := view_idle (s.record e leds actions) batch hkind
  have hview := LEDs.step_call_view he hstep s.inbox s.timers
  refine hs.next (hs.carries.finish false hpoint) (hview.trans ?_) rfl rfl
    (hs.armed_finish false (List.prefix_append _ _)) ?_
  · unfold view
    rw [hinbox, htimers]
    rfl
  · rintro n rfl
    cases he

/-- A timer that expires was armed, and is due. -/
theorem torchOff_hosted (hs : s.Hosted) (hpoint : s.loop.point = .calling source none batch)
    {n : ℕ} (hjob : EventLoop.jobOf s.jobs source = some (.torchOff n))
    (hkind : source.kind.isTimeout) (h : s.perform (.torchOff n) = some s') : s'.Hosted := by
  obtain ⟨due, hdue⟩ : ∃ due, source.kind = .timeout due := by
    cases hk : source.kind with
    | timeout due => exact ⟨due, rfl⟩
    | idle | fd | message =>
      rw [hk] at hkind
      cases hkind
  have hone : source.kind ≠ .fd := by
    rw [hdue]
    nofun
  have hmem := hs.carries.sound.mem_calling hpoint
  obtain ⟨t, d, harmed, hlate⟩ := hs.armed source hmem n due hjob hdue
  have hnow : due ≤ s.loop.now := by
    refine hs.carries.sound.due source (List.mem_append_right _ ?_) due hdue
    rw [hpoint]
    exact List.mem_cons_self
  obtain rfl := eq_of_return h hpoint
  have hinbox : (s.loop.finish source (s.leds.call (.torch false)).isNone batch).carried s.jobs
      EventLoop.ofMessage = s.loop.carried s.jobs EventLoop.ofMessage :=
    EventLoop.carried_finish_other (by rw [EventLoop.ofMessage, hdue]; rfl)
  obtain ⟨before, after, hbefore, hafter⟩ := EventLoop.carried_finish
    (p := isTimeout) hs.carries.sound (s.leds.call (.torch false)).isNone hpoint hone hkind hjob
  have htimers : s.timers =
      before.filterMap ObjectJob.armedBy? ++ n :: after.filterMap ObjectJob.armedBy? := by
    unfold timers
    rw [hbefore, List.filterMap_append]
    rfl
  have hnumbered := LEDs.run_numbered hs.ran
  have hdistinct : s.timers.Nodup := hnumbered.distinct
  have herase : s.timers.erase n =
      before.filterMap ObjectJob.armedBy? ++ after.filterMap ObjectJob.armedBy? := by
    rw [htimers] at hdistinct ⊢
    have hnew : n ∉ before.filterMap ObjectJob.armedBy? := fun hold =>
      (List.nodup_append.mp hdistinct).2.2 n hold n List.mem_cons_self rfl
    rw [List.erase_append_right _ hnew, List.erase_cons_head]
  refine hs.next (hs.carries.finish _ hpoint) ?_ rfl rfl
    (hs.armed_finish _ (List.prefix_append _ _)) ?_
  · have hmember : n ∈ s.view.timers := by
      change n ∈ s.timers
      rw [htimers]
      exact List.mem_append_right _ List.mem_cons_self
    unfold LEDs.step
    simp only [if_pos hmember]
    unfold view inbox timers record
    simp only [hinbox, hafter, List.filterMap_append, ← herase]
    rfl
  · rintro m heq
    cases heq
    exact ⟨t, d, harmed, by rw [← hlate]; exact hnow⟩

/-- `dbus_method_call` has run, and has armed a timer or not. -/
theorem schedule_eq {s₁ : LEDsLoop} {timer : Option UInt32} (h : s.schedule timer = some s₁) :
    timer = none ∧ s₁ = s ∨ ∃ d : UInt32, timer = some d ∧
      s₁ = s.attached (.timeout (s.loop.now + d.toNat)) (.torchOff s.leds.torchRequests) := by
  cases timer with
  | none => exact .inl ⟨rfl, (Option.some.inj h).symm⟩
  | some d =>
    obtain ⟨loop, hloop, rfl⟩ := Option.map_eq_some_iff.mp h
    obtain ⟨-, hloop⟩ := Option.ite_none_left_eq_some.mp hloop
    obtain rfl := Option.some.inj hloop
    refine .inr ⟨d, rfl, ?_⟩
    have hduration : ((d.toNat : ℤ) % 2 ^ 32).toNat = d.toNat := by
      have hlt := d.toNat_lt
      omega
    unfold EventLoop.scheduleIn attached
    rw [hduration]

/-- A torch request arms its timer now. -/
theorem Hosted.arms (hs : s.Hosted) {r : Request} {d : UInt32} (harms : s.leds.arms r = some d)
    (hhead : s.inbox.head? = some r) :
    Armed (s.history ++ [(s.loop.now, .handle)]) (s.leds.answer r []).1.torchRequests s.loop.now
      d := by
  obtain ⟨rfl, hcount⟩ := LEDs.arms_eq_some harms []
  exact ⟨s.history, s.view, s.enqueued, List.prefix_rfl, hs.ran, hhead, hcount.symm⟩

/-- The state when `dbus_method_call` is done, before the callback returns. -/
structure Answered (s s₁ : LEDsLoop) (r : Request) : Prop where
  carries : s₁.loop.Carries ObjectJob.Fits s₁.jobs
  point : s₁.loop.point = s.loop.point
  job : ∀ source, EventLoop.jobOf s.jobs source = some (.request r) →
    EventLoop.jobOf s₁.jobs source = some (.request r)
  inbox : s₁.inbox = s.inbox
  timers : s₁.timers = s.timers ++
    ((s.leds.arms r).map fun _ => (s.leds.answer r []).1.torchRequests).toList
  leds : s₁.leds = (s.leds.answer r []).1
  history : s₁.history = s.history ++ [(s.loop.now, .handle)]
  enqueued : s₁.enqueued = s.enqueued ++ (s.leds.answer r []).2
  armed : ∀ source ∈ s₁.loop.sources, ∀ n due,
    EventLoop.jobOf s₁.jobs source = some (.torchOff n) → source.kind = .timeout due →
      ∃ t d, Armed s₁.history n t d ∧ due = t + d.toNat

theorem Hosted.answered (hs : s.Hosted) {r : Request} (hhead : s.inbox.head? = some r)
    {s₁ : LEDsLoop}
    (h : (s.record .handle (s.leds.answer r []).1 (s.leds.answer r []).2).schedule
      (s.leds.arms r) = some s₁) : Answered s s₁ r := by
  have hfront : s.history <+: s.history ++ [(s.loop.now, .handle)] := List.prefix_append ..
  rcases schedule_eq h with ⟨harms, rfl⟩ | ⟨d, harms, rfl⟩
  · refine ⟨hs.carries, rfl, fun _ => id, rfl, ?_, rfl, rfl, rfl, ?_⟩
    · rw [harms]
      exact (List.append_nil _).symm
    · intro source hsource n due hjob hdue
      obtain ⟨t, d, harmed, hdue⟩ := hs.armed source hsource n due hjob hdue
      exact ⟨t, d, harmed.mono hfront, hdue⟩
  · have hj : (ObjectJob.torchOff (s.leds.answer r []).1.torchRequests).Fits
        (.timeout (s.loop.now + d.toNat)) := rfl
    obtain ⟨hinbox, htimers⟩ := view_attached hs.carries hj
    refine ⟨hs.carries.attach hj, EventLoop.point_attach _, fun _ => jobOf_append,
      hinbox.trans (List.append_nil _), ?_, rfl, rfl, rfl, ?_⟩
    · rw [harms]
      exact htimers
    · refine armed_attached hs _ _ hfront fun n due hn hdue => ?_
      cases hn
      cases hdue
      exact ⟨s.loop.now, d, hs.arms harms hhead, rfl⟩

/-- The request whose callback runs is the first one in the inbox. -/
theorem Hosted.head (hs : s.Hosted) (hpoint : s.loop.point = .calling source none batch)
    {r : Request} (hjob : EventLoop.jobOf s.jobs source = some (.request r))
    (hkind : source.kind = .message) : s.inbox.head? = some r := by
  unfold inbox
  rw [EventLoop.carried_finish_message hs.carries.first false hpoint (decide_eq_true hkind) hjob]
  rfl

/-- The first request in the inbox is answered. -/
theorem request_hosted (hs : s.Hosted) (hpoint : s.loop.point = .calling source none batch)
    {r : Request} (hjob : EventLoop.jobOf s.jobs source = some (.request r))
    (hkind : source.kind = .message) (h : s.perform (.request r) = some s') : s'.Hosted := by
  obtain ⟨s₁, hschedule, h⟩ := Option.bind_eq_some_iff.mp h
  have hmessage : EventLoop.ofMessage source := decide_eq_true hkind
  have hs₁ := hs.answered (hs.head hpoint hjob hkind) hschedule
  have hpoint₁ := hs₁.point.trans hpoint
  obtain rfl := eq_of_return h hpoint₁
  have hinbox : s.inbox =
      r :: inbox { s₁ with loop := s₁.loop.finish source false batch } := by
    rw [← hs₁.inbox]
    unfold inbox
    rw [EventLoop.carried_finish_message hs₁.carries.first false hpoint₁ hmessage
      (hs₁.job source hjob)]
    rfl
  have htimers : timers { s₁ with loop := s₁.loop.finish source false batch } = s₁.timers := by
    unfold timers
    rw [EventLoop.carried_finish_other (by rw [isTimeout, hkind]; rfl)]
  refine hs.next (hs₁.carries.finish false hpoint₁) ?_ hs₁.history hs₁.enqueued ?_ nofun
  · have hanswer := s.leds.answer_eq r (inbox { s₁ with loop := s₁.loop.finish source false batch })
      s.timers s.inbox
    rw [← hs₁.timers, ← htimers, ← hs₁.leds] at hanswer
    exact (LEDs.step_handle hinbox).trans (congrArg some hanswer)
  · intro x hx n due
    exact hs₁.armed x (EventLoop.sources_finish_sublist.subset hx) n due

theorem step_hosted {e : LEDsLoopEvent} (hs : s.Hosted) (h : s.step e = some s') : s'.Hosted := by
  cases e with
  | enqueue e => exact enqueue_hosted hs h
  | send r => exact send_hosted hs h
  | loop e => exact loop_hosted hs h
  | finish =>
    unfold step at h
    simp only at h
    split at h
    next source batch hpoint =>
      obtain ⟨j, hjob, h⟩ := Option.bind_eq_some_iff.mp h
      obtain ⟨j', hjob', hfits⟩ := hs.carries.calling hpoint
      obtain rfl := Option.some.inj (hjob.symm.trans hjob')
      cases j with
      | nothing => exact nothing_hosted hs hpoint hfits h
      | call e => exact call_hosted hs hpoint hfits.1 hfits.2 h
      | request r => exact request_hosted hs hpoint hjob hfits h
      | torchOff n => exact torchOff_hosted hs hpoint hjob hfits h
    next => cases h

end Finish

end LEDsLoop

/-- The request that an event sends. -/
def LEDsLoopEvent.sent : LEDsLoopEvent → List Request
  | .send r => [r]
  | _ => []

namespace LEDsLoop
variable {s s' : LEDsLoop}

theorem return_history {threw : Bool} (h : s.return_ threw = some s') : s'.history = s.history := by
  obtain ⟨loop, -, rfl⟩ := Option.map_eq_some_iff.mp h
  rfl

/-- An event of the loop is at most one event of the object, and sends what that one sends. -/
theorem step_history {e : LEDsLoopEvent} (hs : s.Hosted) (h : s.step e = some s') :
    (s'.history = s.history ∧ e.sent = []) ∨
      ∃ t x, s'.history = s.history ++ [(t, x)] ∧ e.sent = x.sent := by
  cases e with
  | enqueue e =>
    obtain ⟨-, -, rfl⟩ := eq_of_enqueue h
    exact .inl ⟨rfl, rfl⟩
  | send r =>
    obtain ⟨-, -, rfl⟩ := eq_of_send h
    exact .inr ⟨s.loop.now, .send r, rfl, rfl⟩
  | loop e =>
    obtain ⟨-, loop, -, rfl⟩ := eq_of_loop h
    exact .inl ⟨rfl, rfl⟩
  | finish =>
    unfold step at h
    simp only at h
    split at h
    next source batch hpoint =>
      obtain ⟨j, hjob, h⟩ := Option.bind_eq_some_iff.mp h
      obtain ⟨j', hjob', hfits⟩ := hs.carries.calling hpoint
      obtain rfl := Option.some.inj (hjob.symm.trans hjob')
      cases j with
      | nothing => exact .inl ⟨return_history h, rfl⟩
      | call e =>
        obtain ⟨⟨leds, actions⟩, hstep, h⟩ := Option.bind_eq_some_iff.mp h
        exact .inr ⟨s.loop.now, e, return_history h, (LEDs.sent_call hfits.1).symm⟩
      | request r =>
        obtain ⟨s₁, hschedule, h⟩ := Option.bind_eq_some_iff.mp h
        refine .inr ⟨s.loop.now, .handle, (return_history h).trans ?_, rfl⟩
        rcases schedule_eq hschedule with ⟨-, rfl⟩ | ⟨d, -, rfl⟩ <;> rfl
      | torchOff n => exact .inr ⟨s.loop.now, .expire n, return_history h, rfl⟩
    next => cases h

/-- The requests that are sent to the object are those that the clients send. -/
theorem run_sent {events : List LEDsLoopEvent} (h : runFrom step start events = some s) :
    s.Hosted ∧ (s.history.map Prod.snd).flatMap ObjectEvent.sent =
      events.flatMap LEDsLoopEvent.sent := by
  refine runFrom_history (I := fun s events => s.Hosted ∧
    (s.history.map Prod.snd).flatMap ObjectEvent.sent = events.flatMap LEDsLoopEvent.sent) h
    ⟨start_hosted, rfl⟩ ?_
  rintro s hist e s' ⟨hs, hsent⟩ hstep
  refine ⟨step_hosted hs hstep, ?_⟩
  rw [List.flatMap_append, List.flatMap_singleton, ← hsent]
  rcases step_history hs hstep with ⟨hhistory, hnone⟩ | ⟨t, x, hhistory, hx⟩
  · rw [hhistory, hnone, List.append_nil]
  · rw [hhistory, hx, List.map_append, List.flatMap_append]
    exact congrArg _ (List.flatMap_singleton ..)

end LEDsLoop

/-- The object runs on its event loop as it should: in every run of the loop, with requests that
arrive, registrations that are made and time that passes at any moment, it goes through one of
the histories of an object with an inbox and timers, and hands the daemon the actions of that
history; requests are answered in the order in which they were sent, and a timer expires no
earlier than its duration after the request that armed it was handled. -/
theorem leds_on_loop (events : List LEDsLoopEvent) (s : LEDsLoop)
    (h : runFrom LEDsLoop.step .start events = some s) :
    runFrom LEDs.observe (.new, []) (s.history.map Prod.snd) = some (s.view, s.enqueued) ∧
      s.leds.answered.map Prod.fst ++ s.inbox = events.flatMap LEDsLoopEvent.sent ∧
      ∀ before t n after, s.history = before ++ (t, .expire n) :: after →
        ∃ t₀ d, LEDsLoop.Armed before n t₀ d ∧ t₀ + d.toNat ≤ t := by
  obtain ⟨hs, hsent⟩ := LEDsLoop.run_sent h
  refine ⟨hs.ran, (LEDs.run_answered hs.ran).trans hsent, fun before t n after hhistory => ?_⟩
  apply hs.late
  rw [hhistory]
  exact ⟨after, (List.append_cons ..).symm⟩

/-- The start of the loop, and the object with a torch handler. -/
def onLoop : List LEDsLoopEvent :=
  let iterate : List LEDsLoopEvent := [.loop .check, .loop (.poll []), .loop .dispatch, .finish,
    .loop .dispatch]
  [.loop .runLoop] ++ iterate ++ [.loop .constructed, .enqueue (.register .torch)] ++ iterate ++
    [.enqueue .registerObject] ++ iterate

/-- Two torch requests, and the timer of the first expires when it is due. -/
theorem leds_on_loop_torch :
    ∃ s : LEDsLoop,
      runFrom LEDsLoop.step .start
          (onLoop ++ [.send (.setTorch true 2), .send (.setTorch true 9), .loop .check,
            .loop (.poll []), .loop .dispatch, .finish, .loop .tick, .loop .dispatch, .finish,
            .loop .tick, .loop .dispatch, .loop .check, .loop (.poll []), .loop .dispatch,
            .finish]) = some s ∧
        s.enqueued = [.torch true, .torch true, .torch false] ∧ s.timers = [2] ∧
        runFrom LEDs.observe (.new, []) (s.history.map Prod.snd) = some (s.view, s.enqueued) := by
  have hrun : ((runFrom LEDsLoop.step .start
      (onLoop ++ [.send (.setTorch true 2), .send (.setTorch true 9), .loop .check,
        .loop (.poll []), .loop .dispatch, .finish, .loop .tick, .loop .dispatch, .finish,
        .loop .tick, .loop .dispatch, .loop .check, .loop (.poll []), .loop .dispatch,
        .finish])).any fun s =>
          s.enqueued = [.torch true, .torch true, .torch false] ∧ s.timers = [2]) = true := by
    decide +kernel
  obtain ⟨s, hs, hchecked⟩ := (Option.any_eq_true _ _).mp hrun
  obtain ⟨henqueued, htimers⟩ := of_decide_eq_true hchecked
  exact ⟨s, hs, henqueued, htimers, (leds_on_loop _ s hs).1⟩

end GemianLeds
