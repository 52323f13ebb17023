import GemianLeds.DBus.TorchTimer
import GemianLeds.Registration.EventSlots

/-! The life of the object that `LEDs` has on the bus. The handlers are registered before the
object is, and removed when the daemon's loop has ended; requests are handled and timers
expire on the event loop as long as there is one. -/
namespace GemianLeds

deriving instance DecidableEq for SessionEvent

/-- The actions that a request or an expiry asks for. -/
def SessionEvent.actions : SessionEvent → List DaemonAction
  | .request r => (dbusMethodCall r).actions
  | .expire _ => [.torch false]

def SessionEvent.request? : SessionEvent → Option Request
  | .request r => some r
  | .expire _ => none

theorem Session.run_concat {sess sess' : Session} {events : List SessionEvent} {e : SessionEvent}
    {t : Session} (h : sess.run events = some t) (hstep : t.step e = some sess') :
    sess.run (events ++ [e]) = some sess' := by
  induction events generalizing sess with
  | nil =>
    obtain rfl := Option.some.inj h
    exact (Option.bind_fun_some _).trans hstep
  | cons e' events ih =>
    obtain ⟨sess₁, h₁, h₂⟩ := Option.bind_eq_some_iff.mp h
    exact Option.bind_eq_some_iff.mpr ⟨sess₁, h₁, ih h₂⟩

def DaemonAction.event : DaemonAction → LEDsEvent
  | .capsLock _ => .capsLock
  | .setBlockRGB _ => .block
  | .clearBlock => .clearBlock
  | .pushBlock => .pushBlock
  | .torch _ => .torch
  | .call _ _ => .call

structure LEDs where
  handlers : LEDsEvent → LEDsHandler Unit
  /-- The object is registered. -/
  object : Bool
  inbox : List Request
  answered : List (Request × Reply)
  torchRequests : ℕ
  timers : List ℕ
  /-- The requests and expiries that came through to the daemon, or had nothing to tell it. -/
  handed : List SessionEvent

inductive ObjectEvent where
  | register (event : LEDsEvent)
  | registerObject
  | unregister (event : LEDsEvent)
  /-- A client sends a request. -/
  | send (r : Request)
  /-- The event loop takes the next request, or finds that a timer has expired. -/
  | handle
  | expire (armedBy : ℕ)

/-- What happens on the event loop, not by a call of the main thread. -/
def ObjectEvent.fromBus : ObjectEvent → Bool
  | .send _ | .handle | .expire _ => true
  | _ => false

/-- The requests that an event sends. -/
def ObjectEvent.sent : ObjectEvent → List Request
  | .send r => [r]
  | _ => []

namespace LEDs

/-- The constructor `LEDs::LEDs` sets one handler only. -/
def new : LEDs where
  handlers event := if event = .capsLock then .null else .empty
  object := false
  inbox := []
  answered := []
  torchRequests := 0
  timers := []
  handed := []

/-- What the call of a handler enqueues. To call an empty function throws. -/
def call (leds : LEDs) (action : DaemonAction) : Option (List DaemonAction) :=
  match leds.handlers action.event with
  | .empty => none
  | .given () => some [action]
  | .null => some []

/-- One request is handled: by its handler, if it has one, and what comes after. -/
def answer (leds : LEDs) (r : Request) (inbox : List Request) : LEDs × List DaemonAction :=
  match (dbusMethodCall r).actions.mapM leds.call with
  | none =>
      -- the exception is caught and its text returned
      let reply := Reply.error "G_DBUS_ERROR_FAILED" "bad_function_call"
      ({ leds with inbox, answered := leds.answered ++ [(r, reply)] }, [])
  | some called =>
      let actions := called.flatten
      let torchRequests := leds.torchRequests + r.torchCount
      ({ leds with
          inbox
          answered := leds.answered ++ [(r, (dbusMethodCall r).reply)]
          torchRequests
          timers := leds.timers ++ ((dbusMethodCall r).timer.map fun _ => torchRequests).toList
          handed :=
            if actions = (dbusMethodCall r).actions then leds.handed ++ [.request r]
            else leds.handed },
        actions)

/-- One event, and the actions that it enqueues. -/
def step (leds : LEDs) : ObjectEvent → Option (LEDs × List DaemonAction)
  | .register event =>
      some ({ leds with handlers := Function.update leds.handlers event (.given ()) }, [])
  | .registerObject => some ({ leds with object := true }, [])
  | .unregister event =>
      some ({ leds with handlers := unregisterHandler (event, ()) leds.handlers }, [])
  | .send r => if leds.object then some ({ leds with inbox := leds.inbox ++ [r] }, []) else none
  | .handle =>
      match leds.inbox with
      | [] => none
      | r :: inbox => some (leds.answer r inbox)
  | .expire armedBy =>
      if armedBy ∈ leds.timers then
        let actions := (leds.call (.torch false)).getD []
        some
          ({ leds with
              timers := leds.timers.erase armedBy
              handed :=
                if actions = [.torch false] then leds.handed ++ [.expire armedBy]
                else leds.handed },
            actions)
      else none

/-- No handler is an empty function. -/
def Ready (leds : LEDs) : Prop := ∀ event, leds.handlers event ≠ .empty

/-- Every handler is the daemon's. -/
def Manned (leds : LEDs) : Prop := ∀ event, leds.handlers event = .given ()

end LEDs

/-- A request asks for at most one action, and it is about a timer only if that is the torch's. -/
inductive Request.Asks (r : Request) : Prop where
  | torch (on : Bool) (hactions : (dbusMethodCall r).actions = [.torch on])
  | one (action : DaemonAction) (hactions : (dbusMethodCall r).actions = [action])
      (hcount : r.torchCount = 0) (htimer : (dbusMethodCall r).timer = none)
  | nothing (hactions : (dbusMethodCall r).actions = []) (hcount : r.torchCount = 0)
      (htimer : (dbusMethodCall r).timer = none)

theorem Request.asks (r : Request) : r.Asks := by
  cases r with
  | setTorch on duration => exact .torch on rfl
  | setLEDBlockStep led colour type value =>
    cases hverified : verifyLed led && verifyType type && verifyValue type value with
    | true =>
      have hcall : dbusMethodCall (.setLEDBlockStep led colour type value) =
          ⟨[.setBlockRGB (castStep led colour type value)], none, .value⟩ := if_pos hverified
      exact .one _ (by rw [hcall]) rfl (by rw [hcall])
    | false =>
      have hcall : dbusMethodCall (.setLEDBlockStep led colour type value) = ⟨[], none, .value⟩ :=
        if_neg (Bool.eq_false_iff.mp hverified)
      exact .nothing (by rw [hcall]) rfl (by rw [hcall])
  | setCapsLock state => exact .one (.capsLock state) rfl rfl rfl
  | clearLEDBlockAnimation => exact .one .clearBlock rfl rfl rfl
  | pushLEDBlockAnimation => exact .one .pushBlock rfl rfl rfl
  | setCall earpiece leftUp => exact .one (.call earpiece leftUp) rfl rfl rfl
  | unknown method => exact .nothing rfl rfl rfl

namespace LEDs
variable {leds leds' : LEDs} {actions : List DaemonAction}

theorem call_given {action : DaemonAction} (h : leds.handlers action.event = .given ()) :
    leds.call action = some [action] := by
  unfold call
  rw [h]

theorem call_null {action : DaemonAction} (h : leds.handlers action.event = .null) :
    leds.call action = some [] := by
  unfold call
  rw [h]

/-- Before the object is registered nothing has happened; afterwards every handler is a
function, and the session that the daemon sees goes on as long as it has the torch handler. -/
structure Sound (pc : UInt32) (leds : LEDs) : Prop where
  early : leds.object = false → leds.inbox = [] ∧ leds.answered = [] ∧ leds.torchRequests = 0 ∧
    leds.timers = [] ∧ leds.handed = []
  ready : leds.object = true → leds.Ready
  replies : ∀ x ∈ leds.answered, x.2 = (dbusMethodCall x.1).reply
  requests : leds.Manned →
    leds.handed.filterMap SessionEvent.request? = leds.answered.map Prod.fst
  session : ∃ sess, (Session.start pc).run leds.handed = some sess ∧
    (leds.handlers .torch ≠ .null →
      sess.torchRequests = leds.torchRequests ∧ sess.timers = leds.timers)

theorem new_sound (pc : UInt32) : Sound pc new where
  early _ := ⟨rfl, rfl, rfl, rfl, rfl⟩
  ready h := by cases h
  replies x hx := by cases hx
  requests _ := rfl
  session := ⟨_, rfl, fun _ => ⟨rfl, rfl⟩⟩

/-- The answer to a request of which the daemon hears if `handed` says so. -/
def afterAnswer (leds : LEDs) (r : Request) (inbox : List Request) (handed : List SessionEvent) :
    LEDs :=
  { leds with
    inbox
    answered := leds.answered ++ [(r, (dbusMethodCall r).reply)]
    torchRequests := leds.torchRequests + r.torchCount
    timers := leds.timers ++
      ((dbusMethodCall r).timer.map fun _ => leds.torchRequests + r.torchCount).toList
    handed }

/-- Everything an event does while no handler is empty: a request comes through to the daemon,
or there is no daemon behind its handler any more; and so for a timer. -/
inductive Effect (leds leds' : LEDs) (actions : List DaemonAction) : ObjectEvent → Prop where
  | register (event : LEDsEvent)
      (hleds : leds' = { leds with handlers := Function.update leds.handlers event (.given ()) })
      (hactions : actions = []) : Effect leds leds' actions (.register event)
  | registerObject (hleds : leds' = { leds with object := true }) (hactions : actions = []) :
      Effect leds leds' actions .registerObject
  | unregister (event : LEDsEvent)
      (hleds : leds' = { leds with handlers := unregisterHandler (event, ()) leds.handlers })
      (hactions : actions = []) : Effect leds leds' actions (.unregister event)
  | send (r : Request) (hobject : leds.object = true)
      (hleds : leds' = { leds with inbox := leds.inbox ++ [r] }) (hactions : actions = []) :
      Effect leds leds' actions (.send r)
  | through (r : Request) (inbox : List Request) (hinbox : leds.inbox = r :: inbox)
      (htorch : r.torchCount ≠ 0 → leds.handlers .torch = .given ())
      (hleds : leds' = leds.afterAnswer r inbox (leds.handed ++ [.request r]))
      (hactions : actions = (dbusMethodCall r).actions) : Effect leds leds' actions .handle
  | lost (r : Request) (inbox : List Request) (hinbox : leds.inbox = r :: inbox)
      (event : LEDsEvent) (hnull : leds.handlers event = .null)
      (htorch : event ≠ .torch → r.torchCount = 0 ∧ (dbusMethodCall r).timer = none)
      (hleds : leds' = leds.afterAnswer r inbox leds.handed) (hactions : actions = []) :
      Effect leds leds' actions .handle
  | expires (armedBy : ℕ) (hmem : armedBy ∈ leds.timers) (hslot : leds.handlers .torch = .given ())
      (hleds : leds' =
        { leds with
          timers := leds.timers.erase armedBy
          handed := leds.handed ++ [.expire armedBy] })
      (hactions : actions = [.torch false]) : Effect leds leds' actions (.expire armedBy)
  | lapses (armedBy : ℕ) (hmem : armedBy ∈ leds.timers) (hslot : leds.handlers .torch = .null)
      (hleds : leds' = { leds with timers := leds.timers.erase armedBy })
      (hactions : actions = []) : Effect leds leds' actions (.expire armedBy)

theorem Ready.slot (hready : leds.Ready) (event : LEDsEvent) :
    leds.handlers event = .given () ∨ leds.handlers event = .null := by
  cases hslot : leds.handlers event with
  | empty => exact absurd hslot (hready event)
  | given _ => exact .inl rfl
  | null => exact .inr rfl

/-- A request with an action, by what its handler is. -/
theorem answer_one {r : Request} {action : DaemonAction} (inbox : List Request)
    (hready : leds.Ready) (hactions : (dbusMethodCall r).actions = [action]) :
    leds.handlers action.event = .given () ∧
        leds.answer r inbox =
          (leds.afterAnswer r inbox (leds.handed ++ [.request r]), [action]) ∨
      leds.handlers action.event = .null ∧
        leds.answer r inbox = (leds.afterAnswer r inbox leds.handed, []) := by
  refine (hready.slot action.event).imp (fun hdaemon => ⟨hdaemon, ?_⟩)
    (fun hnull => ⟨hnull, ?_⟩)
  · simp [answer, afterAnswer, hactions, call_given hdaemon]
  · simp [answer, afterAnswer, hactions, call_null hnull]

theorem answer_effect {r : Request} {inbox : List Request} (hready : leds.Ready)
    (hinbox : leds.inbox = r :: inbox) (h : leds.answer r inbox = (leds', actions)) :
    Effect leds leds' actions .handle := by
  have hone {action : DaemonAction} (hactions : (dbusMethodCall r).actions = [action])
      (htorch : action.event ≠ .torch → r.torchCount = 0 ∧ (dbusMethodCall r).timer = none) :
      Effect leds leds' actions .handle := by
    rcases answer_one inbox hready hactions with ⟨hdaemon, hanswer⟩ | ⟨hnull, hanswer⟩
    · rw [hanswer] at h
      cases h
      refine .through r inbox hinbox (fun hcount => ?_) rfl hactions.symm
      by_cases hhandler : action.event = .torch
      · rw [← hhandler, hdaemon]
      · exact absurd (htorch hhandler).1 hcount
    · rw [hanswer] at h
      cases h
      exact .lost r inbox hinbox action.event hnull htorch rfl rfl
  cases r.asks with
  | torch on hactions => exact hone hactions fun h => absurd rfl h
  | one action hactions hcount htimer => exact hone hactions fun _ => ⟨hcount, htimer⟩
  | nothing hactions hcount htimer =>
    have hanswer : leds.answer r inbox =
        (leds.afterAnswer r inbox (leds.handed ++ [.request r]), []) := by
      simp [answer, afterAnswer, hactions]
    rw [hanswer] at h
    cases h
    exact .through r inbox hinbox (fun hne => absurd hcount hne) rfl hactions.symm

variable {pc : UInt32}

theorem step_effect {e : ObjectEvent} (hs : leds.Sound pc)
    (h : leds.step e = some (leds', actions)) : Effect leds leds' actions e := by
  have hready (hne : leds.inbox ≠ [] ∨ leds.timers ≠ []) : leds.Ready := by
    apply hs.ready
    by_contra hobject
    obtain ⟨hinbox, -, -, htimers, -⟩ := hs.early (Bool.eq_false_iff.mpr hobject)
    exact hne.elim (· hinbox) (· htimers)
  unfold step at h
  cases e with
  | register event =>
    cases h
    exact .register event rfl rfl
  | registerObject =>
    cases h
    exact .registerObject rfl rfl
  | unregister event =>
    cases h
    exact .unregister event rfl rfl
  | send r =>
    simp only at h
    split at h
    next hobject =>
      cases h
      exact .send r hobject rfl rfl
    next => cases h
  | handle =>
    simp only at h
    split at h
    next => cases h
    next r inbox hinbox =>
      have hne : leds.inbox ≠ [] := by
        rw [hinbox]
        exact List.cons_ne_nil r inbox
      exact answer_effect (hready (.inl hne)) hinbox (Option.some.inj h)
  | expire armedBy =>
    simp only at h
    split at h
    next hmem =>
      rcases (hready (.inr (List.ne_nil_of_mem hmem))).slot .torch with hdaemon | hnull
      · have hcall := @call_given leds (.torch false) hdaemon
        rw [hcall] at h
        cases h
        exact .expires armedBy hmem hdaemon rfl rfl
      · have hcall := @call_null leds (.torch false) hnull
        rw [hcall] at h
        cases h
        exact .lapses armedBy hmem hnull rfl rfl
    next => cases h

/-- A handler that is unregistered is null, and the others stay. -/
theorem unregistered (event event' : LEDsEvent) (handlers : LEDsEvent → LEDsHandler Unit) :
    unregisterHandler (event, ()) handlers event' = .null ∨
      event' ≠ event ∧ unregisterHandler (event, ()) handlers event' = handlers event' := by
  by_cases heq : event' = event
  · subst heq
    exact .inl (Function.update_self ..)
  · exact .inr ⟨heq, Function.update_of_ne heq ..⟩

/-- When an event may happen: handlers are registered before the object, and all of them. -/
def Allows (leds : LEDs) : ObjectEvent → Prop
  | .register _ => leds.object = false
  | .registerObject => leds.Ready
  | _ => True

/-- As long as nothing has happened, any change of the handlers is sound. -/
theorem Sound.register (hs : leds.Sound pc) (hobject : leds.object = false)
    (handlers : LEDsEvent → LEDsHandler Unit) : Sound pc { leds with handlers } := by
  obtain ⟨-, hanswered, htorchRequests, htimers, hhanded⟩ := hs.early hobject
  refine ⟨hs.early, fun h => absurd (hobject.symm.trans h) nofun, hs.replies, fun _ => ?_,
    .start pc, ?_, fun _ => ⟨htorchRequests.symm, htimers.symm⟩⟩
  · change leds.handed.filterMap _ = leds.answered.map _
    rw [hhanded, hanswered]
    rfl
  · change (Session.start pc).run leds.handed = _
    rw [hhanded]
    rfl

theorem Sound.answers (hs : leds.Sound pc) (r : Request) :
    ∀ x ∈ leds.answered ++ [(r, (dbusMethodCall r).reply)], x.2 = (dbusMethodCall x.1).reply := by
  intro x hx
  rcases List.mem_append.mp hx with hx | hx
  · exact hs.replies x hx
  · rw [List.mem_singleton.mp hx]

theorem Sound.object_of_inbox (hs : leds.Sound pc) {r : Request} {inbox : List Request}
    (hinbox : leds.inbox = r :: inbox) : leds.object = true := by
  by_contra hobject
  have hnone := (hs.early (Bool.eq_false_iff.mpr hobject)).1
  rw [hinbox] at hnone
  cases hnone

theorem step_sound {e : ObjectEvent} (hs : leds.Sound pc) (he : leds.Allows e)
    (h : leds.step e = some (leds', actions)) : leds'.Sound pc := by
  obtain ⟨sess, hrun, hsame⟩ := hs.session
  cases step_effect hs h with
  | register event hleds hactions =>
    subst hleds
    exact hs.register he _
  | registerObject hleds hactions =>
    subst hleds
    exact ⟨nofun, fun _ => he, hs.replies, hs.requests, hs.session⟩
  | unregister event hleds hactions =>
    subst hleds
    refine ⟨hs.early, fun hobject => ?_, hs.replies, fun hmanned => ?_, sess, hrun, ?_⟩
    · intro event'
      rcases unregistered event event' leds.handlers with hnull | ⟨-, hsame⟩
      · simp [hnull]
      · simpa [hsame] using hs.ready hobject event'
    · have hgone : unregisterHandler (event, ()) leds.handlers event = .null :=
        Function.update_self ..
      exact absurd (hgone.symm.trans (hmanned event)) nofun
    · intro htorch
      apply hsame
      rcases unregistered event .torch leds.handlers with hnull | ⟨-, hkept⟩
      · exact absurd hnull htorch
      · rwa [← hkept]
  | send r hobject hleds hactions =>
    subst hleds
    exact ⟨fun h => absurd (hobject.symm.trans h) nofun, hs.ready, hs.replies, hs.requests,
      hs.session⟩
  | through r inbox hinbox htorch hleds hactions =>
    have hobject := hs.object_of_inbox hinbox
    subst hleds
    refine ⟨fun h => absurd (hobject.symm.trans h) nofun, hs.ready, hs.answers r,
      fun hmanned => ?_, _, Session.run_concat hrun rfl, fun hnull => ?_⟩
    · change (leds.handed ++ [SessionEvent.request r]).filterMap _ =
        (leds.answered ++ [(r, _)]).map _
      rw [List.filterMap_append, List.map_append, hs.requests hmanned]
      rfl
    · obtain ⟨hcount, htimers⟩ := hsame hnull
      simp [afterAnswer, hcount, htimers]
  | lost r inbox hinbox event hnull htorch hleds hactions =>
    have hobject := hs.object_of_inbox hinbox
    subst hleds
    refine ⟨fun h => absurd (hobject.symm.trans h) nofun, hs.ready, hs.answers r,
      fun hmanned => ?_, sess, hrun, fun hslot => ?_⟩
    · exact absurd (hnull.symm.trans (hmanned event)) nofun
    · obtain ⟨hcount, htimers⟩ := hsame hslot
      obtain ⟨hzero, hnone⟩ := htorch fun heq => hslot (by rw [← heq]; exact hnull)
      simp [afterAnswer, hcount, htimers, hzero, hnone]
  | expires armedBy hmem hslot hleds hactions =>
    obtain ⟨hcount, htimers⟩ := hsame (by rw [hslot]; nofun)
    have hexpire : sess.step (.expire armedBy) =
        some
          { sess with
            light := runOps sess.light [.daemon (.torch false)]
            timers := sess.timers.erase armedBy } := if_pos (htimers ▸ hmem)
    subst hleds
    refine ⟨fun hobject => ?_, hs.ready, hs.replies, fun hmanned => ?_, _,
      Session.run_concat hrun hexpire, fun _ => ⟨hcount, by rw [htimers]⟩⟩
    · have hnone := (hs.early hobject).2.2.2.1
      rw [hnone] at hmem
      cases hmem
    · change (leds.handed ++ [SessionEvent.expire armedBy]).filterMap _ = _
      rw [List.filterMap_append, hs.requests hmanned]
      exact List.append_nil _
  | lapses armedBy hmem hslot hleds hactions =>
    subst hleds
    refine ⟨fun hobject => ?_, hs.ready, hs.replies, hs.requests, sess, hrun,
      fun htorch => absurd hslot htorch⟩
    have hnone := (hs.early hobject).2.2.2.1
    rw [hnone] at hmem
    cases hmem

/-- What an event enqueues is what the session asks for with it. -/
theorem step_actions {e : ObjectEvent} (hs : leds.Sound pc)
    (h : leds.step e = some (leds', actions)) :
    leds'.handed.flatMap SessionEvent.actions =
      leds.handed.flatMap SessionEvent.actions ++ actions := by
  cases step_effect hs h with
  | through r inbox _ _ hleds hactions =>
    subst hleds hactions
    change (leds.handed ++ [SessionEvent.request r]).flatMap _ = _
    rw [List.flatMap_append, List.flatMap_singleton]
    rfl
  | expires armedBy _ _ hleds hactions =>
    subst hleds hactions
    change (leds.handed ++ [SessionEvent.expire armedBy]).flatMap _ = _
    rw [List.flatMap_append, List.flatMap_singleton]
    rfl
  | register _ hleds hactions | registerObject hleds hactions | unregister _ hleds hactions
  | send _ _ hleds hactions | lost _ _ _ _ _ _ hleds hactions | lapses _ _ _ hleds hactions =>
    subst hleds hactions
    exact (List.append_nil _).symm

/-- Requests are answered in the order in which they were sent. -/
theorem step_sent {e : ObjectEvent} (hs : leds.Sound pc) (h : leds.step e = some (leds', actions)) :
    leds'.answered.map Prod.fst ++ leds'.inbox =
      leds.answered.map Prod.fst ++ leds.inbox ++ e.sent := by
  cases step_effect hs h with
  | send r _ hleds _ =>
    subst hleds
    exact (List.append_assoc ..).symm
  | through r inbox hinbox _ hleds _ | lost r inbox hinbox _ _ _ hleds _ =>
    subst hleds
    change (leds.answered ++ [(r, _)]).map Prod.fst ++ inbox = _ ++ []
    rw [hinbox, List.map_append, List.append_assoc, List.append_nil]
    rfl
  | register _ hleds _ | registerObject hleds _ | unregister _ hleds _ | expires _ _ _ hleds _
  | lapses _ _ _ hleds _ =>
    subst hleds
    exact (List.append_nil _).symm

end LEDs
end GemianLeds
