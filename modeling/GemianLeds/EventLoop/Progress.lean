import GemianLeds.EventLoop.Futures
import GemianLeds.Interaction.Progress

/-! Who waits for an event loop, and for how long: the owner in `stop`, a caller for the future
of what it has enqueued, and a callback for a future of its own loop. -/
namespace GemianLeds
open Interaction

namespace EventLoop
variable {s s' : EventLoop} {e : LoopEvent}

theorem point_attach (kind : SourceKind) : (s.attach kind).point = s.point := by
  unfold attach
  split <;> rfl

theorem running_attach (kind : SourceKind) : (s.attach kind).running = s.running := by
  unfold attach
  split <;> rfl

theorem phase_attach (kind : SourceKind) : (s.attach kind).phase = s.phase := by
  unfold attach
  split <;> rfl

theorem length_attach (kind : SourceKind) :
    (s.attach kind).sources.length ≤ s.sources.length + 1 := by
  unfold attach
  split
  · exact Nat.le_succ _
  · exact Nat.le_of_eq List.length_append

/-- The loop has been quit, and its owner is in `stop` or has left it. -/
structure Quit (s : EventLoop) : Prop where
  coherent : s.Coherent
  running : s.running = false
  phase : s.phase = .stopping ∨ s.phase = .stopped

theorem Quit.not_starting (hs : s.Quit) : s.point ≠ .starting := by
  intro hpoint
  have hphase := hs.phase
  rw [(hs.coherent.phased.starting hpoint).1] at hphase
  simp at hphase

/-- How many steps the loop has left when it has been quit: at most one more test of
`is_running`, and what it finds if it has not polled yet. -/
def haltRank (s : EventLoop) : ℕ :=
  match s.point with
  | .starting | .exited => 0
  | .checking => 1
  | .polling => 2 * s.sources.length + 3
  | .dispatching batch => 2 * batch.length + 2
  | .calling _ _ batch => 2 * batch.length + 3

theorem haltRank_le (hs : s.Sound) : s.haltRank ≤ 2 * s.sources.length + 3 := by
  have hlength := hs.batch.length_le
  unfold haltRank
  cases hpoint : s.point with
  | starting | checking | polling | exited => simp only; omega
  | dispatching batch | calling source waitsFor batch =>
    simp only [hpoint, LoopPoint.batch, List.length_cons] at hlength ⊢
    omega

theorem haltRank_attach (kind : SourceKind) : (s.attach kind).haltRank ≤ s.haltRank + 2 := by
  have hlength := s.length_attach kind
  unfold haltRank
  rw [point_attach]
  cases s.point with
  | polling => simp only; omega
  | starting | checking | exited | dispatching _ | calling _ _ _ => exact Nat.le_add_right _ _

theorem ofLoop_of_attaches (he : e.attaches = true) : e.ofLoop = false := by
  cases e <;> first | rfl | cases he

theorem step_quit (hs : s.Quit) (h : s.step e = some s') : s'.Quit := by
  have hcoherent := step_coherent hs.coherent h
  have hnot : s.phase ≠ .constructing := by
    rcases hs.phase with hphase | hphase <;> rw [hphase] <;> exact nofun
  cases step_effect h with
  | attaches e kind he hopen hs' =>
    refine ⟨hcoherent, ?_, ?_⟩
    · rw [hs', running_attach]
      exact hs.running
    · rw [hs', phase_attach]
      exact hs.phase
  | constructs hphase hready hs' => exact absurd hphase hnot
  | quits hphase hs' =>
    subst hs'
    exact ⟨hcoherent, rfl, .inl rfl⟩
  | closes hphase hpoint hs' =>
    subst hs'
    exact ⟨hcoherent, hs.running, .inr rfl⟩
  | runs hpoint hs' => exact absurd hpoint hs.not_starting
  | ticks hs' | checks hpoint hs' | polls readable hpoint hready hs' | iterates hpoint hs'
  | calls source batch hpoint hs' | waits number source batch hpoint hnumber hs'
  | resumes number source batch hpoint hready hs' | finishes threw source batch hpoint hs' =>
    subst hs'
    exact ⟨hcoherent, hs.running, hs.phase⟩

theorem step_haltRank (hs : s.Quit) (h : s.step e = some s') :
    e.ofLoop.toNat + s'.haltRank ≤ s.haltRank + 2 * e.attaches.toNat := by
  cases step_effect h with
  | attaches e kind he hopen hs' =>
    rw [hs', he, ofLoop_of_attaches he]
    simpa using s.haltRank_attach kind
  | constructs hphase hready hs' =>
    have hphase' := hs.phase
    simp [hphase] at hphase'
  | closes hphase hpoint hs' =>
    subst hs'
    simp [haltRank, hpoint, LoopEvent.ofLoop]
  | runs hpoint hs' => exact absurd hpoint hs.not_starting
  | checks hpoint hs' =>
    subst hs'
    simp [haltRank, hpoint, hs.running, LoopEvent.ofLoop]
  | polls readable hpoint hready hs' =>
    have hlength := (s.batch_spec readable).1.length_le
    subst hs'
    simp only [haltRank, hpoint, LoopEvent.ofLoop, Bool.toNat_true]
    omega
  | quits hphase hs' | ticks hs' =>
    subst hs'
    simp [LoopEvent.ofLoop, haltRank]
  | iterates hpoint hs' | waits number source batch hpoint hnumber hs'
  | resumes number source batch hpoint hready hs' =>
    subst hs'
    simp [haltRank, hpoint, LoopEvent.ofLoop]
  | calls source batch hpoint hs' | finishes threw source batch hpoint hs' =>
    subst hs'
    simp only [haltRank, hpoint, LoopEvent.ofLoop, EventLoop.finish, Bool.toNat_true,
      List.length_cons]
    omega

/-- What the thread cannot do anything about. -/
def InCallback (s : EventLoop) : Prop :=
  ∃ source waitsFor batch, s.point = .calling source waitsFor batch

theorem quit_goes_on (hs : s.Quit) :
    s.InCallback ∨ (s.point = .exited ∧ (s.phase = .stopped ∨ (s.step .close).isSome)) ∨
      ∃ e : LoopEvent, e.ofLoop = true ∧ (s.step e).isSome := by
  cases hpoint : s.point with
  | starting => exact absurd hpoint hs.not_starting
  | checking =>
    right; right
    refine ⟨.check, rfl, ?_⟩
    simp [step, hpoint]
  | polling =>
    right; right
    refine ⟨.poll [], rfl, ?_⟩
    simp [step, hpoint, hs.running]
  | dispatching batch =>
    right; right
    refine ⟨.dispatch, rfl, ?_⟩
    cases batch <;> simp [step, hpoint]
  | calling source waitsFor batch => exact .inl ⟨source, waitsFor, batch, hpoint⟩
  | exited =>
    right; left
    refine ⟨rfl, ?_⟩
    rcases hs.phase with hphase | hphase
    · right
      simp [step, hphase, hpoint]
    · exact .inl hphase

/-- `stop` returns: from the moment it has quit the loop, by any thread, the loop thread has at
most two steps for each source that is attached then or later, and three more, and unless it is
inside a callback it goes on until it has left the loop, when `stop` can finish. -/
theorem stop_returns (before after : List LoopEvent) (t s s' : EventLoop)
    (ht : runFrom step start before = some t) (hquit : t.step .quit = some s)
    (h : runFrom step s after = some s') :
    after.countP LoopEvent.ofLoop ≤
        2 * (t.sources.length + after.countP LoopEvent.attaches) + 3 ∧
      (s'.InCallback ∨ (s'.point = .exited ∧ (s'.phase = .stopped ∨ (s'.step .close).isSome)) ∨
        ∃ e : LoopEvent, e.ofLoop = true ∧ (s'.step e).isSome) := by
  have hcoherent := run_coherent ht
  have hs : s.Quit ∧ s.sources = t.sources := by
    cases step_effect hquit with
    | quits hphase hs' =>
      have hnext := step_coherent hcoherent hquit
      subst hs'
      exact ⟨⟨hnext, rfl, .inl rfl⟩, rfl⟩
    | attaches e kind he hopen hs' => cases he
  constructor
  · have hcount := done_or_count_add_rank_le (I := Quit) (fun _ => False) haltRank LoopEvent.ofLoop
      LoopEvent.attaches 2 (throughout_of_forall s fun _ _ _ => trivial) h hs.1
      fun _ hs hstep => ⟨step_quit hs hstep, id, .inr (step_haltRank hs hstep)⟩
    have hle := haltRank_le hs.1.coherent.sound
    rw [hs.2] at hle
    have hcount := hcount.resolve_left id
    omega
  · exact quit_goes_on (runFrom_invariant h hs.1 step_quit)

/-- A callback is enqueued while the loop is stopped, and is called. -/
theorem stop_returns_called :
    ∃ s' : EventLoop,
      runFrom step start ([.runLoop, .check, .poll [], .dispatch, .finish false, .constructed,
        .dispatch, .check] ++ .quit :: [.enqueue, .poll [], .dispatch, .finish false, .dispatch,
          .check, .close]) = some s' ∧
      s'.promises = [.value, .value] ∧
      ([.enqueue, .poll [], .dispatch, .finish false, .dispatch, .check,
        .close] : List LoopEvent).countP LoopEvent.ofLoop ≤ 2 * (0 + 1) + 3 := by
  refine ⟨_, rfl, rfl, ?_⟩
  exact (stop_returns
    [.runLoop, .check, .poll [], .dispatch, .finish false, .constructed, .dispatch, .check]
    [.enqueue, .poll [], .dispatch, .finish false, .dispatch, .check, .close] _ _ _ rfl rfl rfl).1

/-- The sources from `enqueue` up to number `n`. -/
def ahead (s : EventLoop) (n : ℕ) : ℕ :=
  (s.sources.filter fromEnqueue).countP (·.number ≤ n)

/-- How many steps the loop has left until it has called the callback `n`, which `enqueue` has
attached: those for the batch of the iteration under way, if `n` is not in it, then those for
the callbacks enqueued before. -/
def waitRank (n : ℕ) (s : EventLoop) : ℕ :=
  match s.point with
  | .starting | .exited => 0
  | .checking => 2 * s.ahead n + 2
  | .polling => 2 * s.ahead n + 1
  | .dispatching batch =>
      if ∃ source ∈ batch, source.number = n then 2 * batch.countP (·.number ≤ n)
      else 2 * batch.length + 2 * s.ahead n + 3
  | .calling source _ batch =>
      if source.number = n then 1
      else if ∃ source ∈ batch, source.number = n then 2 * batch.countP (·.number ≤ n) + 1
      else 2 * batch.length + 2 * s.ahead n + 4

/-- Nobody quits, and nothing that has the higher priority comes in between. -/
def Quiet (s : EventLoop) : LoopEvent → Prop
  | .quit => False
  | .poll readable => s.sources.filter (s.ready readable) = []
  | _ => True

instance (s : EventLoop) : DecidablePred s.Quiet := fun e =>
  match e with
  | .quit => .isFalse id
  | .poll readable => inferInstanceAs (Decidable (s.sources.filter (s.ready readable) = []))
  | .enqueue | .scheduleIn _ | .watchFd | .message | .constructed | .close | .tick | .runLoop
  | .check | .dispatch | .wait _ | .waited | .finish _ => .isTrue trivial

/-- The callback `n` is attached to a loop that runs, or has been called. -/
structure Awaits (n : ℕ) (s : EventLoop) : Prop where
  coherent : s.Coherent
  running : s.running = true
  constructed : s.phase ≠ .constructing
  set : s.promises[n]? = some .pending ∨ ∃ threw, s.promises[n]? = some (.ofCall threw)
  attached : s.promises[n]? = some .pending → ⟨n, .idle⟩ ∈ s.sources
  made : n < s.promises.length

theorem ahead_le (s : EventLoop) (n : ℕ) : s.ahead n ≤ s.sources.length :=
  List.countP_le_length.trans (List.length_filter_le _ _)

theorem waitRank_le (hs : s.Sound) (n : ℕ) : s.waitRank n ≤ 4 * s.sources.length + 3 := by
  have hlength := hs.batch.length_le
  have hahead := s.ahead_le n
  have hcount (batch : List GSource) : batch.countP (·.number ≤ n) ≤ batch.length :=
    List.countP_le_length
  unfold waitRank
  cases hpoint : s.point with
  | starting | checking | polling | exited => simp only; omega
  | dispatching batch | calling source waitsFor batch =>
    have hcount := hcount batch
    simp only [hpoint, LoopPoint.batch, List.length_cons] at hlength ⊢
    split_ifs <;> omega

/-- A loop that runs has not been stopped. -/
theorem Phased.of_running (hs : s.Phased) (h : s.running = true) :
    s.phase ≠ .stopped ∧ s.point ≠ .exited := by
  have hpoint : s.point ≠ .exited := by
    intro hexited
    rw [hs.exited hexited] at h
    cases h
  exact ⟨fun hstopped => hpoint (hs.stopped hstopped).2, hpoint⟩

theorem Awaits.not_starting {n : ℕ} (hs : s.Awaits n) : s.point ≠ .starting :=
  fun hpoint => hs.constructed (hs.coherent.phased.starting hpoint).1

theorem length_promises_step (h : s.step e = some s') :
    s.promises.length ≤ s'.promises.length := by
  cases step_effect h with
  | attaches e kind he hopen hs' =>
    rw [hs']
    unfold attach
    split <;> exact Nat.le_of_lt (by simp)
  | closes hphase hpoint hs' =>
    rw [hs']
    exact Nat.le_of_eq s.length_breakPromises.symm
  | finishes threw source batch hpoint hs' =>
    rw [hs']
    exact Nat.le_of_eq length_finish.symm
  | constructs hphase hready hs' | quits hphase hs' | ticks hs' | runs hpoint hs'
  | checks hpoint hs' | polls readable hpoint hready hs' | iterates hpoint hs'
  | calls source batch hpoint hs' | waits number source batch hpoint hnumber hs'
  | resumes number source batch hpoint hready hs' =>
    rw [hs']

/-- What is pending was pending before. -/
theorem pending_before (hs : s.Coherent) (h : s.step e = some s') {n : ℕ}
    (hn : n < s.promises.length) (hpending : s'.promises[n]? = some .pending) :
    s.promises[n]? = some .pending := by
  by_contra hne
  have hsome : s.promises[n]? = some s.promises[n] := List.getElem?_eq_getElem hn
  have hp : s.promises[n] ≠ .pending := fun heq => hne (by rw [hsome, heq])
  have hkept := step_forever hs h hp hsome
  rw [hpending] at hkept
  exact hp (Option.some.inj hkept).symm

/-- A promise that is pending is set by its own callback or broken by `stop`. -/
theorem pending_after (h : s.step e = some s') {n : ℕ}
    (hpending : s.promises[n]? = some .pending) :
    s'.phase = .stopped ∨ s'.promises[n]? = some .pending ∨
      ∃ threw, s'.promises[n]? = some (.ofCall threw) := by
  cases step_effect h with
  | attaches e kind he hopen hs' =>
    right; left
    rw [hs', promises_attach,
      if_neg (Nat.ne_of_lt (List.getElem?_eq_some_iff.mp hpending).1), hpending]
  | closes hphase hpoint hs' =>
    left
    rw [hs']
  | finishes threw source batch hpoint hs' =>
    right
    rw [hs']
    cases hpromise : source.kind.hasPromise with
    | false =>
      left
      simpa [EventLoop.finish, hpromise] using hpending
    | true =>
      by_cases hnumber : source.number = n
      · right
        refine ⟨threw, ?_⟩
        have hlt := (List.getElem?_eq_some_iff.mp hpending).1
        simp [EventLoop.finish, hpromise, hnumber, List.getElem?_set_self hlt]
      · left
        simpa [EventLoop.finish, hpromise, List.getElem?_set_ne hnumber] using hpending
  | constructs hphase hready hs' | quits hphase hs' | ticks hs' | runs hpoint hs'
  | checks hpoint hs' | polls readable hpoint hready hs' | iterates hpoint hs'
  | calls source batch hpoint hs' | waits number source batch hpoint hnumber hs'
  | resumes number source batch hpoint hready hs' =>
    rw [hs']
    exact .inr (.inl hpending)

theorem step_awaits {n : ℕ} (hs : s.Awaits n) (hquiet : s.Quiet e) (h : s.step e = some s') :
    s'.Awaits n := by
  have hcoherent := step_coherent hs.coherent h
  obtain ⟨hstopped, hexited⟩ := hs.coherent.phased.of_running hs.running
  have hmade := Nat.lt_of_lt_of_le hs.made (length_promises_step h)
  have hbefore (hpending : s'.promises[n]? = some .pending) : ⟨n, .idle⟩ ∈ s.sources :=
    hs.attached (pending_before hs.coherent h hs.made hpending)
  have hset (hlive : s'.phase ≠ .stopped) : s'.promises[n]? = some .pending ∨
      ∃ threw, s'.promises[n]? = some (.ofCall threw) := by
    rcases hs.set with hpending | ⟨threw, hcall⟩
    · exact (pending_after h hpending).resolve_left hlive
    · exact .inr ⟨threw, step_forever hs.coherent h (ofCall_ne threw).1 hcall⟩
  cases step_effect h with
  | attaches e kind he hopen hs' =>
    refine ⟨hcoherent, ?_, ?_, hset ?_, fun hpending => ?_, hmade⟩
    · rw [hs', running_attach]
      exact hs.running
    · rw [hs', phase_attach]
      exact hs.constructed
    · rw [hs', phase_attach]
      exact hstopped
    · rw [hs', attach_open hstopped]
      exact List.mem_append_left _ (hbefore hpending)
  | constructs hphase hready hs' => exact absurd hphase hs.constructed
  | quits hphase hs' => exact hquiet.elim
  | closes hphase hpoint hs' => exact absurd hpoint hexited
  | runs hpoint hs' => exact absurd hpoint hs.not_starting
  | finishes threw source batch hpoint hs' =>
    refine ⟨hcoherent, by rw [hs']; exact hs.running, by rw [hs']; exact hs.constructed,
      hset (by rw [hs']; exact hstopped), fun hpending => ?_, hmade⟩
    have hmem := hbefore hpending
    have hne : (⟨n, .idle⟩ : GSource) ≠ source := by
      rintro rfl
      have hset := hcoherent.kept.set ⟨n, .idle⟩ threw
        (by rw [hs', mem_finished_finish]; exact .inr ⟨rfl, rfl⟩) rfl
      exact (ofCall_ne threw).1 (Option.some.inj (hset.symm.trans hpending))
    rw [hs']
    change _ ∈ (if source.kind = .fd then s.sources else s.sources.erase source)
    split
    · exact hmem
    · exact (List.mem_erase_of_ne hne).mpr hmem
  | ticks hs' | checks hpoint hs' | polls readable hpoint hready hs' | iterates hpoint hs'
  | calls source batch hpoint hs' | waits number source batch hpoint hnumber hs'
  | resumes number source batch hpoint hready hs' =>
    subst hs'
    exact ⟨hcoherent, hs.running, hs.constructed, hset hstopped, hbefore, hmade⟩

theorem ahead_attach {n : ℕ} (hn : n < s.promises.length) (kind : SourceKind) :
    (s.attach kind).ahead n = s.ahead n := by
  unfold ahead attach
  split
  · rfl
  · have hlast : ¬ s.promises.length ≤ n := Nat.not_le.mpr hn
    have hnone : ([⟨s.promises.length, kind⟩].filter fromEnqueue).countP (·.number ≤ n) = 0 := by
      rw [List.countP_eq_zero]
      intro x hx
      obtain rfl := List.mem_singleton.mp (List.mem_of_mem_filter hx)
      simpa using hlast
    rw [List.filter_append, List.countP_append, hnone, Nat.add_zero]

theorem ahead_finish (n : ℕ) (source : GSource) (threw : Bool) (batch : List GSource) :
    (s.finish source threw batch).ahead n ≤ s.ahead n :=
  (sources_finish_sublist.filter _).countP_le

theorem waitRank_attach {n : ℕ} (hn : n < s.promises.length) (kind : SourceKind) :
    (s.attach kind).waitRank n = s.waitRank n := by
  unfold waitRank
  rw [point_attach, ahead_attach hn]

/-- The sources of a batch are numbered in order, so those before number `n` are ahead of it. -/
theorem Sound.ahead_of_mem (hs : s.Sound) {n : ℕ} {source : GSource} {batch : List GSource}
    (hbatch : s.point.batch = source :: batch) (hmem : ∃ x ∈ batch, x.number = n) :
    (source :: batch).countP (·.number ≤ n) = batch.countP (·.number ≤ n) + 1 := by
  have hordered := hs.attached.sublist hs.batch
  rw [hbatch] at hordered
  obtain ⟨x, hx, rfl⟩ := hmem
  have hlt := (List.pairwise_cons.mp hordered).1 x hx
  exact List.countP_cons_of_pos (by simpa using Nat.le_of_lt hlt)

theorem waitRank_poll {n : ℕ} (hpoint : s.point = .polling) (readable : List ℕ)
    (hquiet : s.sources.filter (s.ready readable) = []) (hmem : ⟨n, .idle⟩ ∈ s.sources) :
    waitRank n { s with point := .dispatching (s.batch readable) } + 1 = s.waitRank n := by
  have hbatch : s.batch readable = s.sources.filter fromEnqueue := by
    unfold batch
    rw [hquiet]
    rfl
  have hin : ∃ source ∈ s.sources.filter fromEnqueue, source.number = n :=
    ⟨⟨n, .idle⟩, List.mem_filter.mpr ⟨hmem, rfl⟩, rfl⟩
  simp only [waitRank, hbatch, hpoint, if_pos hin, ahead]

theorem waitRank_call (hs : s.Sound) {n : ℕ} {source : GSource} {batch : List GSource}
    (hpoint : s.point = .dispatching (source :: batch)) :
    waitRank n { s with point := .calling source none batch } + 1 ≤ s.waitRank n := by
  unfold waitRank
  simp only [hpoint, List.mem_cons, exists_eq_or_imp, List.length_cons, ahead]
  by_cases hself : source.number = n
  · have hcount : (source :: batch).countP (·.number ≤ n) = batch.countP (·.number ≤ n) + 1 :=
      List.countP_cons_of_pos (by simp [hself])
    rw [if_pos hself, if_pos (.inl hself), hcount]
    omega
  · by_cases hmem : ∃ x ∈ batch, x.number = n
    · rw [if_neg hself, if_pos hmem, if_pos (.inr hmem), hs.ahead_of_mem (by rw [hpoint]; rfl) hmem]
      omega
    · rw [if_neg hself, if_neg hmem,
        if_neg (by simp only [hself, hmem, or_self, not_false_eq_true])]
      omega

theorem waitRank_finish {n : ℕ} {source : GSource} {batch : List GSource} (threw : Bool)
    (hpoint : s.point = .calling source none batch) (hne : source.number ≠ n) :
    (s.finish source threw batch).waitRank n + 1 ≤ s.waitRank n := by
  have hahead := s.ahead_finish n source threw batch
  have hpoint' : (s.finish source threw batch).point = .dispatching batch := rfl
  unfold waitRank
  simp only [hpoint, hpoint', if_neg hne]
  split
  · exact Nat.le_refl _
  · omega

theorem step_waitRank {n : ℕ} (hs : s.Awaits n) (hquiet : s.Quiet e) (h : s.step e = some s') :
    s'.promises[n]? ≠ some .pending ∨ e.ofLoop.toNat + s'.waitRank n ≤ s.waitRank n := by
  by_cases hpending : s'.promises[n]? = some .pending
  · right
    have hbefore := hs.attached (pending_before hs.coherent h hs.made hpending)
    cases step_effect h with
    | attaches e kind he hopen hs' =>
      rw [hs', ofLoop_of_attaches he, waitRank_attach hs.made]
      exact Nat.le_of_eq (Nat.zero_add _)
    | constructs hphase hready hs' => exact absurd hphase hs.constructed
    | quits hphase hs' => exact hquiet.elim
    | closes hphase hpoint hs' =>
      exact absurd hpoint (hs.coherent.phased.of_running hs.running).2
    | runs hpoint hs' => exact absurd hpoint hs.not_starting
    | ticks hs' =>
      subst hs'
      exact Nat.le_of_eq (Nat.zero_add _)
    | checks hpoint hs' =>
      subst hs'
      simp only [waitRank, hpoint, hs.running, LoopEvent.ofLoop, ahead, cond_true, Bool.toNat_true]
      omega
    | polls readable hpoint hready hs' =>
      subst hs'
      have hrank := waitRank_poll hpoint readable hquiet hbefore
      exact Nat.le_of_eq ((Nat.add_comm _ _).trans hrank)
    | iterates hpoint hs' =>
      subst hs'
      simp only [waitRank, hpoint, LoopEvent.ofLoop, ahead, Bool.toNat_true, List.not_mem_nil,
        false_and, exists_false, if_false, List.length_nil]
      omega
    | calls source batch hpoint hs' =>
      subst hs'
      exact (Nat.add_comm _ _).le.trans (waitRank_call hs.coherent.sound hpoint)
    | waits number source batch hpoint hnumber hs'
    | resumes number source batch hpoint hready hs' =>
      subst hs'
      simp [waitRank, hpoint, LoopEvent.ofLoop, ahead]
    | finishes threw source batch hpoint hs' =>
      have hafter := (step_awaits hs hquiet h).attached hpending
      subst hs'
      refine (Nat.add_comm _ _).le.trans (waitRank_finish threw hpoint ?_)
      intro hnumber
      have hsource := hs.coherent.sound.eq_of_number (hs.coherent.sound.mem_calling hpoint) hbefore
        hnumber
      rw [hsource, sources_finish (by simp)] at hafter
      exact (nodup_of_numbered hs.coherent.sound.attached).not_mem_erase hafter
  · exact .inl hpending

theorem Awaits.waitRank_pos {n : ℕ} (hs : s.Awaits n) : 0 < s.waitRank n := by
  unfold waitRank
  cases hpoint : s.point with
  | starting => exact absurd hpoint hs.not_starting
  | exited => exact absurd hpoint (hs.coherent.phased.of_running hs.running).2
  | checking | polling => exact Nat.succ_pos _
  | dispatching batch =>
    simp only
    split
    next hin =>
      obtain ⟨source, hmem, hnumber⟩ := hin
      have hcount : 0 < batch.countP (·.number ≤ n) :=
        List.countP_pos_iff.mpr ⟨source, hmem, by simp [hnumber]⟩
      omega
    next => exact Nat.succ_pos _
  | calling source waitsFor batch =>
    simp only
    split_ifs <;> exact Nat.succ_pos _

/-- A future is ready in time: once `enqueue` has returned, unless the loop is quit or finds
something ready at the default priority, the callback has been called after at most four steps
of the loop for each source that was attached, and seven more, whatever else is attached. -/
theorem enqueue_returns_in_time (before after : List LoopEvent) (t s s' : EventLoop)
    (ht : runFrom step start before = some t) (hrunning : t.running = true)
    (henqueue : t.step .enqueue = some s)
    (hquiet : Throughout step Quiet s after) (h : runFrom step s after = some s')
    (hcount : 4 * t.sources.length + 7 ≤ after.countP LoopEvent.ofLoop) :
    ∃ threw : Bool, s'.promises[t.promises.length]? = some (.ofCall threw) := by
  have hcoherent := run_coherent ht
  have hphase := (hcoherent.phased.of_running hrunning).1
  obtain ⟨hopen, hs⟩ := Option.ite_none_left_eq_some.mp henqueue
  obtain rfl := Option.some.inj hs
  have hstart : (t.attach .idle).Awaits t.promises.length := by
    refine ⟨step_coherent hcoherent henqueue, ?_, ?_, ?_, fun _ => ?_, ?_⟩
    · rw [running_attach]
      exact hrunning
    · rw [phase_attach]
      exact hopen
    · left
      rw [promises_attach, if_pos rfl]
      rfl
    · rw [attach_open hphase]
      exact List.mem_append_right _ (List.mem_singleton_self _)
    · rw [attach_open hphase]
      simp
  have hend : s'.Awaits t.promises.length := hquiet.invariant h hstart
    fun hquiet ht hstep => step_awaits ht hquiet hstep
  have hrank := done_or_count_add_rank_le (I := Awaits t.promises.length)
    (fun s => s.promises[t.promises.length]? ≠ some .pending) (waitRank t.promises.length)
    LoopEvent.ofLoop (fun _ => false) 0 hquiet h hstart
    fun hquiet ht hstep => ⟨step_awaits ht hquiet hstep,
      fun hdone hpending => hdone (pending_before ht.coherent hstep ht.made hpending), by
        simpa using step_waitRank ht hquiet hstep⟩
  have hbound := waitRank_le hstart.coherent.sound t.promises.length
  have hpos := hend.waitRank_pos
  have hlength := t.length_attach .idle
  have hdone : s'.promises[t.promises.length]? ≠ some .pending := by
    rcases hrank with hdone | hrank
    · exact hdone
    · omega
  exact hend.set.resolve_left hdone

/-- A second callback is enqueued while the one before it is awaited. -/
theorem enqueue_returns_in_time_second :
    ∃ t s s' : EventLoop,
      runFrom step start [.runLoop, .check, .poll [], .dispatch, .finish false, .constructed] =
          some t ∧
        t.step .enqueue = some s ∧
        runFrom step s [.dispatch, .check, .poll [], .enqueue, .dispatch, .finish true, .dispatch,
          .check] = some s' ∧
        ∃ threw : Bool, s'.promises[1]? = some (.ofCall threw) := by
  refine ⟨_, _, _, rfl, rfl, rfl, ?_⟩
  exact enqueue_returns_in_time
    [.runLoop, .check, .poll [], .dispatch, .finish false, .constructed]
    [.dispatch, .check, .poll [], .enqueue, .dispatch, .finish true, .dispatch, .check]
    _ _ _ rfl rfl rfl (by decide) rfl (by decide)

/-- All that is attached are timeouts that are not due. -/
def Idle (s : EventLoop) : Prop :=
  ∀ source ∈ s.sources, ∃ due, source.kind = .timeout due ∧ s.now < due

/-- A callback waits for a future of its own loop. -/
def WaitsForItself (s : EventLoop) : Prop :=
  ∃ number source batch, s.point = .calling source (some number) batch ∧
    s.promises[number]? = some .pending

theorem batch_eq_nil (readable : List ℕ) : s.batch readable = [] ↔
    ∀ source ∈ s.sources, s.ready readable source = false ∧ fromEnqueue source = false := by
  unfold batch
  constructor
  · intro h source hsource
    split at h
    next hready =>
      exact ⟨by simpa using List.filter_eq_nil_iff.mp hready source hsource,
        by simpa [fromEnqueue] using List.filter_eq_nil_iff.mp h source hsource⟩
    next hsome => exact absurd h hsome
  · intro h
    have hready : s.sources.filter (s.ready readable) = [] :=
      List.filter_eq_nil_iff.mpr fun source hsource => by simp [(h source hsource).1]
    rw [hready]
    exact List.filter_eq_nil_iff.mpr fun source hsource => by
      simpa [fromEnqueue] using (h source hsource).2

theorem batches_eq_nil : (∀ readable, s.batch readable = []) ↔ s.Idle := by
  simp only [batch_eq_nil]
  constructor
  · intro h source hsource
    obtain ⟨hready, hidle⟩ := h [source.number] source hsource
    cases hkind : source.kind with
    | idle => simp [fromEnqueue, hkind, SourceKind.isIdle] at hidle
    | timeout due => exact ⟨due, rfl, by simpa [ready, hkind] using hready⟩
    | fd | message => simp [ready, hkind] at hready
  · intro h readable source hsource
    obtain ⟨due, hkind, hlt⟩ := h source hsource
    simp [ready, fromEnqueue, hkind, SourceKind.isIdle, hlt]

/-- The thread stands still when it has left the loop, when it has nothing to do, or when a
callback waits for itself. -/
theorem stands_still_iff :
    (∀ e : LoopEvent, e.ofThread = true → s.step e = none) ↔
      s.point = .exited ∨ (s.point = .polling ∧ s.running = true ∧ s.Idle) ∨
        s.WaitsForItself := by
  constructor
  · intro h
    cases hpoint : s.point with
    | starting => simpa [step, hpoint] using h .runLoop rfl
    | checking => simpa [step, hpoint] using h .check rfl
    | dispatching batch =>
      cases batch <;> simpa [step, hpoint] using h .dispatch rfl
    | polling =>
      have hpoll (readable : List ℕ) : s.batch readable = [] ∧ s.running = true := by
        simpa [step, hpoint] using h (.poll readable) rfl
      exact .inr (.inl ⟨rfl, (hpoll []).2, batches_eq_nil.mp fun readable => (hpoll readable).1⟩)
    | calling source waitsFor batch =>
      cases waitsFor with
      | none => simpa [step, hpoint] using h (.finish false) rfl
      | some number =>
        have hpending : s.promises[number]? = some .pending := by
          simpa [step, hpoint] using h .waited rfl
        exact .inr (.inr ⟨number, source, batch, hpoint, hpending⟩)
    | exited => exact .inl rfl
  · rintro (hpoint | ⟨hpoint, hrunning, hidle⟩ | ⟨number, source, batch, hpoint, hpending⟩) e he
    · cases e <;> simp [LoopEvent.ofThread, step, hpoint] at he ⊢
    · have hbatch := batches_eq_nil.mpr hidle
      cases e <;> simp [LoopEvent.ofThread, step, hpoint, hrunning, hbatch] at he ⊢
    · cases e <;> simp [LoopEvent.ofThread, step, hpoint, hpending] at he ⊢

theorem step_waitsForItself (hself : s.WaitsForItself) (h : s.step e = some s') :
    s'.WaitsForItself ∧ s'.finished = s.finished := by
  have hstill := stands_still_iff.mpr (.inr (.inr hself))
  obtain ⟨number, source, batch, hpoint, hpending⟩ := hself
  have hthread : e.ofThread = false := by
    cases he : e.ofThread with
    | false => rfl
    | true => exact absurd ((hstill e he).symm.trans h) nofun
  cases step_effect h with
  | attaches e kind he hopen hs' =>
    subst hs'
    refine ⟨⟨number, source, batch, (point_attach kind).trans hpoint, ?_⟩, ?_⟩
    · rw [promises_attach, if_neg (Nat.ne_of_lt (List.getElem?_eq_some_iff.mp hpending).1)]
      exact hpending
    · unfold attach
      split <;> rfl
  | closes hphase hexited hs' => exact absurd (hpoint.symm.trans hexited) nofun
  | constructs hphase hready hs' | quits hphase hs' | ticks hs' =>
    subst hs'
    exact ⟨⟨number, source, batch, hpoint, hpending⟩, rfl⟩
  | runs | checks | polls | iterates | calls | waits | resumes | finishes => cases hthread

/-- The loop thread stands still only when it has left the loop, when all that is attached are
timeouts that are not due, or when a callback waits for a future of its own loop, one that is
not ready. In that case, whatever happens later, no callback runs any more, nor does `stop`
return. -/
theorem self_wait_deadlocks (before after : List LoopEvent) (s s' : EventLoop)
    (h : runFrom step start before = some s) (h' : runFrom step s after = some s') :
    ((∀ e : LoopEvent, e.ofThread = true → s.step e = none) ↔
      s.point = .exited ∨ (s.point = .polling ∧ s.running = true ∧ s.Idle) ∨
        s.WaitsForItself) ∧
      (s.WaitsForItself →
        s'.WaitsForItself ∧ s'.finished = s.finished ∧ s'.phase ≠ .stopped) := by
  refine ⟨stands_still_iff, fun hself => ?_⟩
  have hend := runFrom_invariant (I := fun t => t.Coherent ∧ t.WaitsForItself ∧
    t.finished = s.finished) h' ⟨run_coherent h, hself, rfl⟩ fun ht hstep =>
      ⟨step_coherent ht.1 hstep, (step_waitsForItself ht.2.1 hstep).1,
        (step_waitsForItself ht.2.1 hstep).2.trans ht.2.2⟩
  refine ⟨hend.2.1, hend.2.2, fun hstopped => ?_⟩
  obtain ⟨number, source, batch, hpoint, -⟩ := hend.2.1
  exact absurd (hpoint.symm.trans (hend.1.phased.stopped hstopped).2) nofun

/-- A callback enqueues another one and waits for it. -/
theorem self_wait_deadlocks_nested :
    ∃ s s' : EventLoop,
      runFrom step start [.runLoop, .check, .poll [], .dispatch, .finish false, .constructed,
        .enqueue, .dispatch, .check, .poll [], .dispatch, .enqueue, .wait 2] = some s ∧
      runFrom step s [.enqueue, .quit] = some s' ∧ s'.phase ≠ .stopped := by
  refine ⟨_, _, rfl, rfl, ?_⟩
  exact ((self_wait_deadlocks [.runLoop, .check, .poll [], .dispatch, .finish false, .constructed,
    .enqueue, .dispatch, .check, .poll [], .dispatch, .enqueue, .wait 2] [.enqueue, .quit] _ _
    rfl rfl).2 ⟨2, _, _, rfl, rfl⟩).2.2

end EventLoop
end GemianLeds
