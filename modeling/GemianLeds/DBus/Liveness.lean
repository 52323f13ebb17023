import GemianLeds.DBus.Callbacks

/-! The event loop of the object goes on: a callback can return, and the loop runs what is
attached. -/
namespace GemianLeds
open Interaction

namespace LEDs
variable (leds : LEDs)

theorem call_cases {action : DaemonAction} {called : List DaemonAction}
    (h : leds.call action = some called) : called = [] ∨ ∃ a, called = [a] := by
  unfold call at h
  split at h
  next => cases h
  next => exact .inr ⟨action, (Option.some.inj h).symm⟩
  next => exact .inl (Option.some.inj h).symm

theorem answer_cases (r : Request) (inbox : List Request) :
    (leds.answer r inbox).2 = [] ∨ ∃ a, (leds.answer r inbox).2 = [a] := by
  have hone {action : DaemonAction} {called : List (List DaemonAction)}
      (h : [action].mapM leds.call = some called) :
      called.flatten = [] ∨ ∃ a, called.flatten = [a] := by
    rw [List.mapM_cons] at h
    obtain ⟨first, hfirst, h⟩ := Option.bind_eq_some_iff.mp h
    have hcalled : [first] = called := Option.some.inj h
    rw [← hcalled, List.flatten_cons, List.flatten_nil, List.append_nil]
    exact leds.call_cases hfirst
  unfold answer
  split
  next => exact .inl rfl
  next called hcalled =>
    cases r.asks with
    | torch on hactions => exact hone (hactions ▸ hcalled)
    | one action hactions => exact hone (hactions ▸ hcalled)
    | nothing hactions =>
      rw [hactions] at hcalled
      obtain rfl := Option.some.inj hcalled
      exact .inl rfl

end LEDs

namespace LEDsLoop
variable {s s' : LEDsLoop} {e : LEDsLoopEvent} {j : ObjectJob}

theorem asked_cases (s : LEDsLoop) : s.asked = [] ∨ ∃ a, s.asked = [a] := by
  unfold asked
  split
  next r hj => exact s.leds.answer_cases r []
  next =>
    cases hcall : s.leds.call (.torch false) with
    | none => exact .inl rfl
    | some called => exact s.leds.call_cases hcall
  next => exact .inl rfl

/-- The loop is not quit, its callbacks do not wait, and it has its first callback only until it
is constructed. -/
structure Alive (s : LEDsLoop) : Prop where
  unquit : s.loop.phase ≠ .stopping
  direct : ∀ source n batch, s.loop.point ≠ .calling source (some n) batch
  early : s.loop.phase = .constructing → s.jobs = [.nothing]

theorem Alive.attached (hs : s.Alive) (hstopped : s.loop.phase ≠ .stopped)
    (hopen : s.loop.phase ≠ .constructing) (kind : SourceKind) (j : ObjectJob) :
    (s.attached kind j).Alive := by
  have hphase : (s.attached kind j).loop.phase = s.loop.phase := by
    unfold LEDsLoop.attached
    rw [EventLoop.attach_open hstopped]
  have hpoint : (s.attached kind j).loop.point = s.loop.point := EventLoop.point_attach kind
  refine ⟨?_, ?_, fun hearly => absurd (hphase.symm.trans hearly) hopen⟩
  · rw [hphase]
    exact hs.unquit
  · rw [hpoint]
    exact hs.direct

theorem return_alive (hs : s.Alive) {source : GSource} {batch : List GSource} {threw : Bool}
    (hpoint : s.loop.point = .calling source none batch) (h : s.return_ threw = some s') :
    s'.Alive := by
  obtain rfl := eq_of_return h hpoint
  exact ⟨hs.unquit, nofun, hs.early⟩

theorem step_alive (hhosted : s.Hosted) (hs : s.Alive) (h : s.step e = some s') : s'.Alive := by
  have halive := hhosted.carries.alive
  cases e with
  | enqueue x =>
    obtain ⟨-, hopen, rfl⟩ := eq_of_enqueue h
    exact hs.attached halive hopen .idle (.call x)
  | send r =>
    obtain ⟨-, hopen, rfl⟩ := eq_of_send h
    have hattached := hs.attached halive hopen .message (.request r)
    exact ⟨hattached.unquit, hattached.direct, hattached.early⟩
  | loop e =>
    obtain ⟨hinternal, loop, hloop, rfl⟩ := eq_of_loop h
    cases EventLoop.step_effect hloop with
    | attaches e kind hattaches hopen hloop' =>
      rw [LoopEvent.attaches_of_internal hinternal] at hattaches
      cases hattaches
    | quits hphase hloop' | closes hphase hpoint hloop'
    | waits number source batch hpoint hnumber hloop'
    | resumes number source batch hpoint hready hloop'
    | finishes threw source batch hpoint hloop' => cases hinternal
    | constructs hphase hready hloop' =>
      subst hloop'
      exact ⟨nofun, hs.direct, nofun⟩
    | ticks hloop' =>
      subst hloop'
      exact ⟨hs.unquit, hs.direct, hs.early⟩
    | checks hpoint hloop' =>
      subst hloop'
      refine ⟨hs.unquit, fun source n batch hcalling => ?_, hs.early⟩
      change (bif s.loop.running then LoopPoint.polling else .exited) = _ at hcalling
      cases hrunning : s.loop.running <;> rw [hrunning] at hcalling <;> cases hcalling
    | runs hpoint hloop' | polls readable hpoint hready hloop' | iterates hpoint hloop'
    | calls source batch hpoint hloop' =>
      subst hloop'
      exact ⟨hs.unquit, nofun, hs.early⟩
  | finish =>
    rw [step_finish] at h
    obtain ⟨j, hj, h⟩ := Option.bind_eq_some_iff.mp h
    obtain ⟨source, batch, hpoint, -⟩ := current_eq_some hj
    cases j with
    | nothing => exact return_alive hs hpoint h
    | call x =>
      obtain ⟨next, -, h⟩ := Option.bind_eq_some_iff.mp h
      exact return_alive (s := s.record x next.1 next.2) ⟨hs.unquit, hs.direct, hs.early⟩ hpoint h
    | torchOff n =>
      obtain rfl := eq_of_return h hpoint
      exact ⟨hs.unquit, nofun, hs.early⟩
    | request r =>
      obtain ⟨s₁, hschedule, h⟩ := Option.bind_eq_some_iff.mp h
      have hrecord : (s.record .handle (s.leds.answer r []).1 (s.leds.answer r []).2).Alive :=
        ⟨hs.unquit, hs.direct, hs.early⟩
      rcases schedule_eq hschedule with ⟨-, rfl⟩ | ⟨d, harms, rfl⟩
      · exact return_alive hrecord hpoint h
      · rw [harms] at hschedule
        obtain ⟨loop, hloop, -⟩ := Option.map_eq_some_iff.mp hschedule
        obtain ⟨hopen, -⟩ := Option.ite_none_left_eq_some.mp hloop
        have hpoint' := (EventLoop.point_attach (.timeout (s.loop.now + d.toNat))).trans hpoint
        exact return_alive (hrecord.attached halive hopen _ _) hpoint' h

/-- A callback can return. -/
theorem finish_enabled (hhosted : s.Hosted) (hs : s.Alive) (hj : s.current = some j) :
    ∃ s', s.step .finish = some s' := by
  obtain ⟨source, batch, hpoint, hjob⟩ := current_eq_some hj
  obtain ⟨j', hjob', hfits⟩ := hhosted.carries.calling hpoint
  obtain rfl := Option.some.inj (hjob.symm.trans hjob')
  have hreturn (s₁ : LEDsLoop) (threw : Bool)
      (hpoint : s₁.loop.point = .calling source none batch) :
      ∃ s', s₁.return_ threw = some s' := by
    unfold return_ EventLoop.step
    simp only [hpoint]
    exact ⟨_, rfl⟩
  rw [step_finish, hj, Option.bind_some]
  cases j with
  | nothing => exact hreturn s false hpoint
  | call x =>
    obtain ⟨next, hnext⟩ : ∃ next, s.leds.step x = some next := by
      cases x with
      | register event | registerObject | unregister event => exact ⟨_, rfl⟩
      | send r | handle | expire n => exact absurd hfits.1 nofun
    obtain ⟨s', hs'⟩ := hreturn (s.record x next.1 next.2) false hpoint
    refine ⟨s', ?_⟩
    change (s.leds.step x).bind _ = some s'
    rw [hnext]
    exact hs'
  | torchOff n => exact hreturn _ _ hpoint
  | request r =>
    have hopen : s.loop.phase ≠ .constructing := by
      intro hearly
      rw [hs.early hearly] at hjob
      have hmem := List.mem_singleton.mp (List.mem_of_getElem? hjob)
      cases hmem
    obtain ⟨s₁, hs₁, hpoint₁⟩ : ∃ s₁, (s.record .handle (s.leds.answer r []).1
        (s.leds.answer r []).2).schedule (s.leds.arms r) = some s₁ ∧
          s₁.loop.point = .calling source none batch := by
      cases s.leds.arms r with
      | none => exact ⟨_, rfl, hpoint⟩
      | some d =>
        have hstep : s.loop.step (.scheduleIn d.toNat) = some (s.loop.scheduleIn d.toNat) :=
          if_neg hopen
        exact ⟨_, congrArg (Option.map _) hstep, (EventLoop.point_attach _).trans hpoint⟩
    obtain ⟨s', hs'⟩ := hreturn s₁ false hpoint₁
    refine ⟨s', ?_⟩
    change Option.bind _ _ = some s'
    rw [hs₁]
    exact hs'

/-- The loop goes on, or is in a callback, or has nothing to do. -/
theorem enabled_or_idle (hhosted : s.Hosted) (hc : s.loop.Coherent) (hs : s.Alive) :
    (∃ e : LoopEvent, e ≠ .tick ∧ ∃ s', s.step (.loop e) = some s') ∨ (∃ j, s.current = some j) ∨
      s.loop.point = .polling ∧ s.loop.Idle ∧ s.loop.phase ≠ .constructing := by
  have hloop (e : LoopEvent) (he : e.internal) {loop : EventLoop}
      (h : s.loop.step e = some loop) : ∃ s', s.step (.loop e) = some s' := by
    refine ⟨{ s with loop }, (if_pos he).trans ?_⟩
    rw [h]
    rfl
  by_cases hstill : ∀ e : LoopEvent, e.ofThread = true → s.loop.step e = none
  · rcases EventLoop.stands_still_iff.mp hstill with
      hexited | ⟨hpolling, -, hidle⟩ | ⟨n, source, batch, hwaits, -⟩
    · rcases hc.phased.halted (hc.phased.exited hexited) with hstarting | hstopping | hstopped
      · exact absurd (hexited.symm.trans hstarting) nofun
      · exact absurd hstopping hs.unquit
      · exact absurd hstopped hhosted.carries.alive
    · by_cases hearly : s.loop.phase = .constructing
      · -- the first callback was enqueued, and the loop has none such left
        left
        refine ⟨.constructed, nofun, hloop .constructed rfl (if_pos ⟨hearly, fun hpending => ?_⟩)⟩
        obtain ⟨source, hsource, -⟩ := (hc.kept.pending 0).mp hpending
        rw [hc.phased.stray hhosted.carries.alive, List.append_nil] at hsource
        obtain ⟨j, hj, hfits⟩ := hhosted.carries.fits source hsource
        obtain ⟨due, hdue, -⟩ := hidle source hsource
        unfold EventLoop.jobOf at hj
        rw [hs.early hearly] at hj
        obtain rfl := List.mem_singleton.mp (List.mem_of_getElem? hj)
        exact absurd (hdue.symm.trans hfits) nofun
      · exact .inr (.inr ⟨hpolling, hidle, hearly⟩)
    · exact absurd hwaits (hs.direct source n batch)
  · simp only [not_forall] at hstill
    obtain ⟨e, hthread, hsome⟩ := hstill
    obtain ⟨loop, hstep⟩ := Option.ne_none_iff_exists'.mp hsome
    have hcalling {source : GSource} {waitsFor : Option ℕ} {batch : List GSource}
        (hpoint : s.loop.point = .calling source waitsFor batch) : ∃ j, s.current = some j := by
      cases waitsFor with
      | some n => exact absurd hpoint (hs.direct source n batch)
      | none =>
        obtain ⟨j, hj, -⟩ := hhosted.carries.calling hpoint
        exact ⟨j, (current_of_calling hpoint).trans hj⟩
    cases EventLoop.step_effect hstep with
    | attaches e kind he hopen hs' =>
      cases e with
      | enqueue | scheduleIn timeout | watchFd | message => cases hthread
      | _ => cases he
    | constructs _ _ hs' | quits _ hs' | closes _ _ hs' | ticks hs' => cases hthread
    | runs hpoint hs' => exact .inl ⟨.runLoop, nofun, hloop _ rfl hstep⟩
    | checks hpoint hs' => exact .inl ⟨.check, nofun, hloop _ rfl hstep⟩
    | polls readable hpoint hready hs' =>
      exact .inl ⟨.poll readable, nofun, hloop _ rfl hstep⟩
    | iterates hpoint hs' | calls source batch hpoint hs' =>
      exact .inl ⟨.dispatch, nofun, hloop _ rfl hstep⟩
    | waits n source batch hpoint hn hs' | resumes n source batch hpoint hready hs'
    | finishes threw source batch hpoint hs' => exact .inr (.inl (hcalling hpoint))

/-- No request waits at a loop that has nothing to run. -/
theorem inbox_of_idle (h : s.loop.Idle) : s.inbox = [] := by
  have hnone : s.loop.sources.filter EventLoop.ofMessage = [] := by
    apply List.filter_eq_nil_iff.mpr
    intro source hsource
    obtain ⟨due, hdue, -⟩ := h source hsource
    simp [EventLoop.ofMessage, hdue]
  unfold inbox EventLoop.carried
  rw [hnone]
  rfl

end LEDsLoop

end GemianLeds
