import GemianLeds.DBus.Releases

/-! The callback that the event loop of the object is in: what it is about to hand to the daemon,
what the object will be when it has returned, and which steps leave it alone. -/
namespace GemianLeds
open Interaction

/-- What happens to the object when a job is done. -/
def ObjectJob.event? : ObjectJob → Option ObjectEvent
  | .nothing => none
  | .call e => some e
  | .request _ => some .handle
  | .torchOff armedBy => some (.expire armedBy)

namespace LEDs

/-- A request that comes in meanwhile makes no difference to the callback under way. -/
theorem step_append {leds leds' : LEDs} {e : ObjectEvent} {actions : List DaemonAction}
    (he : e = .handle ∨ ∃ n, e = .expire n) (h : leds.step e = some (leds', actions))
    (r : Request) :
    step { leds with inbox := leds.inbox ++ [r] } e =
        some ({ leds' with inbox := leds'.inbox ++ [r] }, actions) ∧
      leds'.object = leds.object := by
  rcases he with rfl | ⟨n, rfl⟩
  · unfold step at h
    simp only at h
    split at h
    next => cases h
    next r₀ inbox hinbox =>
      have hanswer := leds.answer_eq r₀ inbox leds.timers leds.inbox
      have hanswer' := leds.answer_eq r₀ (inbox ++ [r]) leds.timers (leds.inbox ++ [r])
      have hhead : LEDs.inbox { leds with inbox := leds.inbox ++ [r] } = r₀ :: (inbox ++ [r]) := by
        rw [hinbox, List.cons_append]
      obtain ⟨rfl, rfl⟩ := Prod.mk.inj (hanswer.symm.trans (Option.some.inj h))
      rw [step_handle hhead]
      refine ⟨congrArg some hanswer', ?_⟩
      unfold answer
      split <;> rfl
  · obtain ⟨hmem, h⟩ := Option.ite_none_right_eq_some.mp h
    cases h
    exact ⟨if_pos hmem, rfl⟩

end LEDs

namespace LEDsLoop
variable {s s' : LEDsLoop} {e : LEDsLoopEvent} {j : ObjectJob} {n : ℕ}

/-- The actions that the callback under way hands to the daemon. -/
def asked (s : LEDsLoop) : List DaemonAction :=
  match s.current with
  | some (.request r) => (s.leds.answer r []).2
  | some (.torchOff _) => (s.leds.call (.torch false)).getD []
  | _ => []

/-- The object once the callback under way has returned. -/
def ahead (s : LEDsLoop) : LEDs :=
  ((s.current.bind ObjectJob.event?).bind s.view.step).elim s.view Prod.fst

/-- What the callback leaves when it has returned. -/
theorem finish_history (hs : s.Hosted) (h : s.step .finish = some s') (hj : s.current = some j) :
    s'.history = s.history ++ (j.event?.map fun x => (s.loop.now, x)).toList ∧
      s'.enqueued = s.enqueued ++ s.asked := by
  rw [step_finish, hj, Option.bind_some] at h
  obtain ⟨source, batch, hpoint, hjob⟩ := current_eq_some hj
  obtain ⟨j', hjob', hfits⟩ := hs.carries.calling hpoint
  obtain rfl := Option.some.inj (hjob.symm.trans hjob')
  unfold asked
  rw [hj]
  cases j with
  | nothing =>
    have hreturn := return_enqueued h
    exact ⟨(return_history h).trans (List.append_nil _).symm,
      hreturn.1.trans (List.append_nil _).symm⟩
  | call e =>
    obtain ⟨⟨leds, actions⟩, hstep, h⟩ := Option.bind_eq_some_iff.mp h
    obtain rfl : actions = [] := by
      cases e with
      | register event | registerObject | unregister event =>
        cases hstep
        rfl
      | send r | handle | expire n => exact absurd hfits.1 nofun
    exact ⟨return_history h, (return_enqueued h).1⟩
  | request r =>
    obtain ⟨s₁, hschedule, h⟩ := Option.bind_eq_some_iff.mp h
    rw [return_history h, (return_enqueued h).1]
    rcases schedule_eq hschedule with ⟨-, rfl⟩ | ⟨d, -, rfl⟩ <;> exact ⟨rfl, rfl⟩
  | torchOff n => exact ⟨return_history h, (return_enqueued h).1⟩

theorem view_of_history (hs : s.Hosted) (hs' : s'.Hosted) (h : s'.history = s.history) :
    s'.view = s.view := by
  have hran := hs'.ran
  rw [h, hs.ran] at hran
  exact (congrArg Prod.fst (Option.some.inj hran)).symm

theorem view_of_concat (hs : s.Hosted) (hs' : s'.Hosted) {t : ℕ} {x : ObjectEvent}
    {actions : List DaemonAction} (h : s'.history = s.history ++ [(t, x)])
    (henqueued : s'.enqueued = s.enqueued ++ actions) :
    s.view.step x = some (s'.view, actions) := by
  have hran := hs'.ran
  rw [h, List.map_append] at hran
  obtain ⟨seen, hseen, hstep⟩ := runFrom_concat.mp hran
  obtain rfl := Option.some.inj (hs.ran.symm.trans hseen)
  obtain ⟨next, hnext, heq⟩ := Option.map_eq_some_iff.mp hstep
  rw [hnext]
  obtain ⟨hview, hactions⟩ := Prod.mk.inj heq
  have hactions' := List.append_cancel_left (hactions.trans henqueued)
  rw [← hview, ← hactions']

/-- When the callback has returned the object is what it was to be. -/
theorem finish_view (hs : s.Hosted) (h : s.step .finish = some s') (hj : s.current = some j) :
    (j.event? = none → s'.view = s.view) ∧
      ∀ x, j.event? = some x → s.view.step x = some (s'.view, s.asked) := by
  obtain ⟨hhistory, henqueued⟩ := finish_history hs h hj
  constructor
  · intro hnone
    rw [hnone] at hhistory
    exact view_of_history hs (step_hosted hs h) (hhistory.trans (List.append_nil _))
  · intro x hx
    rw [hx] at hhistory
    exact view_of_concat hs (step_hosted hs h) hhistory henqueued

theorem finish_ahead (hs : s.Hosted) (h : s.step .finish = some s') : s'.view = s.ahead := by
  have hfinish := h
  rw [step_finish] at hfinish
  obtain ⟨j, hj, -⟩ := Option.bind_eq_some_iff.mp hfinish
  have hview := finish_view hs h hj
  unfold ahead
  rw [hj, Option.bind_some]
  cases hx : j.event? with
  | none => exact hview.1 hx
  | some x =>
    rw [Option.bind_some, hview.2 x hx]
    rfl

/-- What is asked is what the object asks for. -/
theorem step_asked (hs : s.Hosted) (hasked : s.asked ≠ []) :
    ∃ x, (x = .handle ∨ ∃ n, x = .expire n) ∧ s.current.bind ObjectJob.event? = some x ∧
      s.view.step x = some (s.ahead, s.asked) := by
  have hahead {x : ObjectEvent} {leds : LEDs} {actions : List DaemonAction}
      (hx : s.current.bind ObjectJob.event? = some x)
      (hstep : s.view.step x = some (leds, actions)) : s.ahead = leds := by
    unfold ahead
    rw [hx, Option.bind_some, hstep]
    rfl
  cases hj : s.current with
  | none =>
    unfold asked at hasked
    rw [hj] at hasked
    exact absurd rfl hasked
  | some j =>
    obtain ⟨source, batch, hpoint, hjob⟩ := current_eq_some hj
    obtain ⟨j', hjob', hfits⟩ := hs.carries.calling hpoint
    obtain rfl := Option.some.inj (hjob.symm.trans hjob')
    cases j with
    | nothing | call e =>
      unfold asked at hasked
      rw [hj] at hasked
      exact absurd rfl hasked
    | request r =>
      have hevent : s.current.bind ObjectJob.event? = some .handle := by
        rw [hj]
        rfl
      have hasks : s.asked = (s.leds.answer r []).2 := by
        unfold asked
        rw [hj]
      obtain ⟨inbox, hinbox⟩ := List.head?_eq_some_iff.mp (hs.head hpoint hjob hfits)
      have hstep : s.view.step .handle = some (s.view.answer r inbox) :=
        LEDs.step_handle hinbox
      refine ⟨.handle, .inl rfl, rfl, ?_⟩
      rw [hahead hevent hstep, hstep, hasks]
      have hactions := congrArg Prod.snd (s.leds.answer_eq r inbox s.timers s.inbox)
      exact congrArg some (Prod.ext rfl hactions)
    | torchOff n =>
      have hevent : s.current.bind ObjectJob.event? = some (.expire n) := by
        rw [hj]
        rfl
      have hasks : s.asked = (s.leds.call (.torch false)).getD [] := by
        unfold asked
        rw [hj]
      have hmember : n ∈ s.view.timers := by
        refine List.mem_filterMap.mpr ⟨.torchOff n, ?_, rfl⟩
        refine List.mem_filterMap.mpr ⟨source, ?_, hjob⟩
        exact List.mem_filter.mpr ⟨hs.carries.sound.mem_calling hpoint, hfits⟩
      have hstep : s.view.step (.expire n) = some _ := if_pos hmember
      refine ⟨.expire n, .inr ⟨n, rfl⟩, rfl, ?_⟩
      rw [hahead hevent hstep, hstep, hasks]
      rfl

/-! ### Steps that leave the callback alone -/

/-- Until the callback returns, it stays the same. -/
structure Undisturbed (s s' : LEDsLoop) : Prop where
  current : ∀ j, s.current = some j → s'.current = some j
  leds : s'.leds = s.leds
  promises : s.loop.promises <+: s'.loop.promises

theorem undisturbed_attached (hs : s.loop.phase ≠ .stopped) (kind : SourceKind)
    (job : ObjectJob) : s.Undisturbed (s.attached kind job) where
  current j hj := by
    obtain ⟨source, batch, hpoint, hjob⟩ := current_eq_some hj
    have hpoint' : (s.attached kind job).loop.point = .calling source none batch :=
      (EventLoop.point_attach _).trans hpoint
    rw [current_of_calling hpoint']
    exact jobOf_append hjob
  leds := rfl
  promises := by
    unfold attached
    rw [EventLoop.attach_open hs]
    exact List.prefix_append ..

theorem step_undisturbed (hs : s.Hosted) (he : e ≠ .finish) (h : s.step e = some s') :
    s.Undisturbed s' := by
  cases e with
  | enqueue x =>
    obtain ⟨-, -, rfl⟩ := eq_of_enqueue h
    exact undisturbed_attached hs.carries.alive .idle (.call x)
  | send r =>
    obtain ⟨-, -, rfl⟩ := eq_of_send h
    have hattached := undisturbed_attached hs.carries.alive .message (.request r)
    exact ⟨hattached.current, rfl, hattached.promises⟩
  | loop e =>
    obtain ⟨hinternal, loop, hloop, rfl⟩ := eq_of_loop h
    have hpoint {point : LoopPoint} (hpoint : s.loop.point = point)
        (hother : ∀ source batch, point ≠ .calling source none batch) (j : ObjectJob)
        (hj : s.current = some j) : current { s with loop } = some j := by
      obtain ⟨source, batch, hcalling, -⟩ := current_eq_some hj
      exact absurd (hpoint.symm.trans hcalling) (hother source batch)
    cases EventLoop.step_effect hloop with
    | attaches e kind hattaches hopen hloop' =>
      rw [LoopEvent.attaches_of_internal hinternal] at hattaches
      cases hattaches
    | quits hphase hloop' | closes hphase hpoint hloop'
    | waits number source batch hpoint hnumber hloop'
    | resumes number source batch hpoint hready hloop'
    | finishes threw source batch hpoint hloop' => cases hinternal
    | constructs hphase hready hloop' | ticks hloop' =>
      subst hloop'
      exact ⟨fun _ => id, rfl, List.prefix_rfl⟩
    | runs hrun hloop' | checks hrun hloop' | polls readable hrun hready hloop'
    | iterates hrun hloop' | calls source batch hrun hloop' =>
      subst hloop'
      exact ⟨hpoint hrun nofun, rfl, List.prefix_rfl⟩
  | finish => exact absurd rfl he

theorem Undisturbed.asked (h : s.Undisturbed s') (hasked : s.asked ≠ []) : s'.asked = s.asked := by
  cases hj : s.current with
  | none =>
    unfold LEDsLoop.asked at hasked
    rw [hj] at hasked
    exact absurd rfl hasked
  | some j =>
    unfold LEDsLoop.asked
    rw [hj, h.current j hj, h.leds]

theorem Undisturbed.ahead (h : s.Undisturbed s') (hasked : s.asked ≠ [])
    (hview : s'.view = s.view) : s'.ahead = s.ahead := by
  cases hj : s.current with
  | none =>
    unfold LEDsLoop.asked at hasked
    rw [hj] at hasked
    exact absurd rfl hasked
  | some j =>
    unfold LEDsLoop.ahead
    rw [hj, h.current j hj, hview]

/-- A request is sent to the object, which is registered. -/
theorem send_view (hs : s.Hosted) {r : Request} (h : s.step (.send r) = some s') :
    s.leds.object = true ∧ s'.view = { s.view with inbox := s.view.inbox ++ [r] } := by
  have hs' := step_hosted hs h
  obtain ⟨hobject, -, heq⟩ := eq_of_send h
  have hhistory : s'.history = s.history ++ [(s.loop.now, .send r)] := by
    rw [heq]
    rfl
  have henqueued : s'.enqueued = s.enqueued ++ [] := by
    rw [heq]
    rfl
  have hview := view_of_concat hs hs' hhistory henqueued
  have hsent := hview.symm.trans (if_pos hobject)
  exact ⟨hobject, congrArg Prod.fst (Option.some.inj hsent)⟩

/-- A request comes in while a callback is under way. -/
theorem send_ahead (hs : s.Hosted) (hasked : s.asked ≠ []) {r : Request}
    (h : s.step (.send r) = some s') : s.ahead.step (.send r) = some (s'.ahead, []) := by
  have hne : LEDsLoopEvent.send r ≠ .finish := nofun
  have hkept := step_undisturbed hs hne h
  obtain ⟨hobject, hview⟩ := send_view hs h
  obtain ⟨x, hx, hevent, hstep⟩ := step_asked hs hasked
  obtain ⟨happend, hsame⟩ := LEDs.step_append hx hstep r
  obtain ⟨j, hj, hjx⟩ := Option.bind_eq_some_iff.mp hevent
  have hahead : s'.ahead = { s.ahead with inbox := s.ahead.inbox ++ [r] } := by
    unfold LEDsLoop.ahead
    rw [hkept.current j hj, Option.bind_some, hjx, Option.bind_some, hview, happend]
    rfl
  rw [hahead]
  exact if_pos (hsame.trans hobject)

/-! ### Promises -/

/-- What is pending was pending before. -/
theorem pending_before (hs : s.Hosted) (hc : s.loop.Coherent) (h : s.step e = some s')
    (hn : n < s.jobs.length) (hpending : s'.loop.promises[n]? = some .pending) :
    s.loop.promises[n]? = some .pending := by
  rw [hs.carries.length] at hn
  by_contra hset
  have hget : s.loop.promises[n]? = some s.loop.promises[n] := List.getElem?_eq_getElem hn
  rw [hget] at hset
  have hne : s.loop.promises[n] ≠ .pending := fun heq => hset (congrArg some heq)
  obtain ⟨events, hloop⟩ := step_loop h
  have hset' := runFrom_invariant
    (I := fun loop => loop.Coherent ∧ loop.promises[n]? = some s.loop.promises[n]) hloop
    ⟨hc, hget⟩ fun ht hstep => ⟨EventLoop.step_coherent ht.1 hstep,
      EventLoop.step_forever ht.1 hstep hne ht.2⟩
  exact hne (Option.some.inj (hset'.2.symm.trans hpending))

/-- The future of a call is not ready at once. -/
theorem enqueue_pending {x : ObjectEvent} (h : s.step (.enqueue x) = some s') :
    s'.loop.promises[s.loop.promises.length]? = some .pending := by
  obtain ⟨-, -, rfl⟩ := eq_of_enqueue h
  exact (EventLoop.promises_attach .idle _).trans (if_pos rfl)

/-- The callback that returns sets its own promise only. -/
theorem finish_promise_other {source : GSource} {batch : List GSource}
    (hpoint : s.loop.point = .calling source none batch) (h : s.step .finish = some s')
    (hn : n ≠ source.number) {p : PromiseState} (hp : s.loop.promises[n]? = some p) :
    s'.loop.promises[n]? = some p := by
  have hfinish (loop : EventLoop) (threw : Bool) (hp : loop.promises[n]? = some p) :
      (loop.finish source threw batch).promises[n]? = some p := by
    rw [EventLoop.promise_finish_other hn]
    exact hp
  rw [step_finish] at h
  obtain ⟨j, -, h⟩ := Option.bind_eq_some_iff.mp h
  cases j with
  | nothing =>
    obtain rfl := eq_of_return h hpoint
    exact hfinish s.loop false hp
  | call e =>
    obtain ⟨next, -, h⟩ := Option.bind_eq_some_iff.mp h
    obtain rfl := eq_of_return h hpoint
    exact hfinish s.loop false hp
  | torchOff m =>
    obtain rfl := eq_of_return h hpoint
    exact hfinish s.loop _ hp
  | request r =>
    obtain ⟨s₁, hschedule, h⟩ := Option.bind_eq_some_iff.mp h
    rcases schedule_eq hschedule with ⟨-, rfl⟩ | ⟨d, -, rfl⟩
    · obtain rfl := eq_of_return h hpoint
      exact hfinish s.loop false hp
    · have hpoint₁ := (EventLoop.point_attach (.timeout (s.loop.now + d.toNat))).trans hpoint
      obtain rfl := eq_of_return h hpoint₁
      apply hfinish
      have hlt := (List.getElem?_eq_some_iff.mp hp).1
      exact (EventLoop.promises_attach _ n).trans ((if_neg (Nat.ne_of_lt hlt)).trans hp)

/-- And it sets it to a value, if it was a call. -/
theorem finish_promise_call (hs : s.Hosted) {source : GSource} {batch : List GSource}
    {x : ObjectEvent} (hpoint : s.loop.point = .calling source none batch)
    (hjob : EventLoop.jobOf s.jobs source = some (.call x)) (h : s.step .finish = some s') :
    s'.loop.promises[source.number]? = some .value := by
  have hlt := hs.carries.sound.below source
    (List.mem_append_right _ (hs.carries.sound.mem_calling hpoint))
  obtain ⟨j, hjob', hfits⟩ := hs.carries.calling hpoint
  obtain rfl := Option.some.inj (hjob.symm.trans hjob')
  rw [step_finish, current_of_calling hpoint, hjob, Option.bind_some] at h
  obtain ⟨next, -, h⟩ := Option.bind_eq_some_iff.mp h
  obtain rfl := eq_of_return h hpoint
  change (s.loop.finish source false batch).promises[source.number]? = some .value
  have hset : (s.loop.finish source false batch).promises =
      s.loop.promises.set source.number .value := by
    simp [EventLoop.finish, hfits.2, SourceKind.hasPromise, PromiseState.ofCall]
  rw [hset, List.getElem?_set_self hlt]

end LEDsLoop
end GemianLeds
