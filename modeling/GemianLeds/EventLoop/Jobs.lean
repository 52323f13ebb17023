import GemianLeds.EventLoop.Futures

/-! What the sources of an event loop carry. To each source belongs a job, kept under the number
of the source. Messages are taken in the order in which they were attached, and the other sources
as the iterations find them. -/
namespace GemianLeds
open Interaction

def SourceKind.isTimeout : SourceKind → Bool
  | .timeout _ => true
  | _ => false

/-- The steps of the loop from one callback to the next, while it has not been quit. -/
def LoopEvent.internal : LoopEvent → Bool
  | .constructed | .tick | .runLoop | .check | .poll _ | .dispatch => true
  | _ => false

theorem LoopEvent.attaches_of_internal {e : LoopEvent} (h : e.internal) : e.attaches = false := by
  cases e <;> first | rfl | cases h

namespace EventLoop
variable {J : Type} {s s' : EventLoop} {e : LoopEvent} {jobs : List J} {p : GSource → Bool}

def ofMessage (source : GSource) : Bool := source.kind = .message

def jobOf (jobs : List J) (source : GSource) : Option J := jobs[source.number]?

/-- The jobs of the sources of a kind, in the order in which these were attached. -/
def carried (s : EventLoop) (jobs : List J) (p : GSource → Bool) : List J :=
  (s.sources.filter p).filterMap (jobOf jobs)

/-- The iteration under way takes the messages from the first on. -/
def MessagesFirst (s : EventLoop) : Prop :=
  s.point.batch.filter ofMessage <+: s.sources.filter ofMessage

theorem start_messagesFirst : start.MessagesFirst := List.nil_prefix

theorem filter_attach (hphase : s.phase ≠ .stopped) (kind : SourceKind) :
    (s.attach kind).sources.filter p =
      s.sources.filter p ++ [⟨s.promises.length, kind⟩].filter p := by
  rw [attach_open hphase]
  exact List.filter_append ..

section Finish
variable {source : GSource} {batch : List GSource} {threw : Bool}

theorem filter_finish_other (hp : p source = false) :
    (s.finish source threw batch).sources.filter p = s.sources.filter p := by
  change (if source.kind = .fd then s.sources else s.sources.erase source).filter p = _
  split
  · rfl
  · rw [← List.erase_filter, List.erase_eq_self_iff]
    simp [hp]

/-- The message whose callback runs was the first one. -/
theorem MessagesFirst.calling (hs : s.MessagesFirst) (threw : Bool)
    (hpoint : s.point = .calling source none batch) (hmessage : ofMessage source) :
    s.sources.filter ofMessage =
        source :: (s.finish source threw batch).sources.filter ofMessage ∧
      batch.filter ofMessage <+: (s.finish source threw batch).sources.filter ofMessage := by
  have hkind : source.kind ≠ .fd := by
    rw [of_decide_eq_true hmessage]
    nofun
  unfold MessagesFirst at hs
  rw [hpoint, LoopPoint.batch, List.filter_cons_of_pos hmessage] at hs
  obtain ⟨rest, hrest⟩ := hs
  rw [sources_finish hkind, ← List.erase_filter, ← hrest, List.cons_append, List.erase_cons_head]
  exact ⟨rfl, List.prefix_append ..⟩

theorem MessagesFirst.finish (hs : s.MessagesFirst)
    (hpoint : s.point = .calling source none batch) :
    (s.finish source threw batch).MessagesFirst := by
  change batch.filter ofMessage <+: (s.finish source threw batch).sources.filter ofMessage
  cases hmessage : ofMessage source with
  | true => exact (hs.calling threw hpoint hmessage).2
  | false =>
    unfold MessagesFirst at hs
    rw [hpoint, LoopPoint.batch, List.filter_cons_of_neg (by simp [hmessage])] at hs
    rwa [filter_finish_other hmessage]

/-- Only its own promise is set. -/
theorem promise_finish_other {n : ℕ} (hn : n ≠ source.number) :
    (s.finish source threw batch).promises[n]? = s.promises[n]? := by
  change (bif source.kind.hasPromise then s.promises.set source.number _ else s.promises)[n]? = _
  cases source.kind.hasPromise with
  | false => rfl
  | true => exact List.getElem?_set_ne (Ne.symm hn)

end Finish

/-- An iteration finds every message there is, or none. -/
theorem batch_messages (readable : List ℕ) :
    (s.batch readable).filter ofMessage <+: s.sources.filter ofMessage := by
  have hready (source : GSource) : ofMessage source → s.ready readable source := by
    intro hmessage
    simp [ready, of_decide_eq_true hmessage]
  have hidle (source : GSource) : ofMessage source → ¬ source.kind.isIdle := by
    intro hmessage
    simp [SourceKind.isIdle, of_decide_eq_true hmessage]
  unfold batch
  split
  · have hnone : (s.sources.filter fun source => source.kind.isIdle).filter ofMessage = [] := by
      rw [List.filter_filter, List.filter_eq_nil_iff]
      intro source _ hboth
      obtain ⟨hmessage, hidle'⟩ := Bool.and_eq_true_iff.mp hboth
      exact hidle source hmessage hidle'
    rw [hnone]
    exact List.nil_prefix
  · rw [List.filter_filter]
    have hall : s.sources.filter (fun source => ofMessage source && s.ready readable source) =
        s.sources.filter ofMessage := by
      apply List.filter_congr
      intro source _
      cases hmessage : ofMessage source with
      | false => rfl
      | true => exact hready source hmessage
    exact ⟨[], (List.append_nil _).trans hall⟩

theorem step_messagesFirst (hs : s.MessagesFirst) (h : s.step e = some s') : s'.MessagesFirst := by
  have hmove {point : LoopPoint} (hbatch : point.batch = s.point.batch) :
      MessagesFirst { s with point } := by
    change point.batch.filter ofMessage <+: _
    rw [hbatch]
    exact hs
  cases step_effect h with
  | attaches e kind he hopen hs' =>
    subst hs'
    by_cases hphase : s.phase = .stopped
    · rw [attach_stopped hphase]
      exact hs
    · rw [attach_open hphase]
      change s.point.batch.filter ofMessage <+: (s.sources ++ [_]).filter ofMessage
      rw [List.filter_append]
      exact hs.trans (List.prefix_append ..)
  | constructs hphase hready hs' | quits hphase hs' | ticks hs' =>
    subst hs'
    exact hs
  | closes hphase hpoint hs' =>
    subst hs'
    unfold MessagesFirst
    rw [hpoint]
    exact List.nil_prefix
  | runs hpoint hs' =>
    subst hs'
    exact List.nil_prefix
  | checks hpoint hs' =>
    subst hs'
    apply hmove
    rw [hpoint]
    cases s.running <;> rfl
  | polls readable hpoint hready hs' =>
    subst hs'
    exact batch_messages readable
  | iterates hpoint hs' =>
    subst hs'
    exact List.nil_prefix
  | calls source batch hpoint hs' | waits number source batch hpoint hnumber hs'
  | resumes number source batch hpoint hready hs' =>
    subst hs'
    apply hmove
    rw [hpoint]
    rfl
  | finishes threw source batch hpoint hs' =>
    subst hs'
    exact hs.finish hpoint

/-! ### The jobs that are carried -/

/-- A job of its own for the source that is made next. -/
theorem carried_attach (hs : s.Sound) (hphase : s.phase ≠ .stopped)
    (hjobs : jobs.length = s.promises.length) (kind : SourceKind) (j : J) :
    (s.attach kind).carried (jobs ++ [j]) p =
      s.carried jobs p ++ bif p ⟨s.promises.length, kind⟩ then [j] else [] := by
  have hold : (s.sources.filter p).filterMap (jobOf (jobs ++ [j])) = s.carried jobs p := by
    apply List.filterMap_congr
    intro source hsource
    apply List.getElem?_append_left
    rw [hjobs]
    exact hs.below source (List.mem_append_right _ (List.mem_of_mem_filter hsource))
  unfold carried at hold ⊢
  rw [filter_attach hphase, List.filterMap_append, hold]
  congr 1
  have hnew : jobOf (jobs ++ [j]) ⟨s.promises.length, kind⟩ = some j := by
    simp [jobOf, ← hjobs]
  cases hp : p ⟨s.promises.length, kind⟩ with
  | false => simp [hp]
  | true =>
    rw [List.filter_cons_of_pos hp, List.filterMap_cons_some hnew]
    rfl

section Finish
variable {source : GSource} {batch : List GSource} {threw : Bool} {j : J}

theorem carried_finish_other (hp : p source = false) :
    (s.finish source threw batch).carried jobs p = s.carried jobs p := by
  unfold carried
  rw [filter_finish_other hp]

/-- One job is taken out. -/
theorem carried_finish (hs : s.Sound) (threw : Bool) (hpoint : s.point = .calling source none batch)
    (hkind : source.kind ≠ .fd) (hp : p source) (hj : jobOf jobs source = some j) :
    ∃ before after, s.carried jobs p = before ++ j :: after ∧
      (s.finish source threw batch).carried jobs p = before ++ after := by
  have hmem : source ∈ s.sources.filter p := List.mem_filter.mpr ⟨hs.mem_calling hpoint, hp⟩
  obtain ⟨before, after, -, hsources, herase⟩ := List.exists_erase_eq hmem
  refine ⟨before.filterMap (jobOf jobs), after.filterMap (jobOf jobs), ?_, ?_⟩
  · unfold carried
    rw [hsources, List.filterMap_append, List.filterMap_cons_some hj]
  · unfold carried
    rw [sources_finish hkind, ← List.erase_filter, herase, List.filterMap_append]

/-- And it was the first one, if it is a message's. -/
theorem carried_finish_message (hs : s.MessagesFirst) (threw : Bool)
    (hpoint : s.point = .calling source none batch) (hmessage : ofMessage source)
    (hj : jobOf jobs source = some j) :
    s.carried jobs ofMessage = j :: (s.finish source threw batch).carried jobs ofMessage := by
  unfold carried
  rw [(hs.calling threw hpoint hmessage).1, List.filterMap_cons_some hj]

end Finish

/-! ### A loop whose sources all carry jobs -/

/-- Every source has a job that fits its kind, and the loop has not been closed. -/
structure Carries (F : J → SourceKind → Prop) (s : EventLoop) (jobs : List J) : Prop where
  sound : s.Sound
  first : s.MessagesFirst
  alive : s.phase ≠ .stopped
  length : jobs.length = s.promises.length
  fits : ∀ source ∈ s.sources, ∃ j, jobOf jobs source = some j ∧ F j source.kind

variable {F : J → SourceKind → Prop}

theorem Carries.attach (hs : s.Carries F jobs) {j : J} {kind : SourceKind} (hj : F j kind) :
    (s.attach kind).Carries F (jobs ++ [j]) := by
  have hphase := hs.alive
  refine ⟨hs.sound.attach kind, ?_, ?_, ?_, ?_⟩
  all_goals rw [attach_open hphase]
  · change s.point.batch.filter ofMessage <+: (s.sources ++ [_]).filter ofMessage
    rw [List.filter_append]
    exact hs.first.trans (List.prefix_append ..)
  · exact hphase
  · simp [hs.length]
  · intro source hsource
    rcases List.mem_append.mp hsource with hold | hnew
    · obtain ⟨j', hj', hfits⟩ := hs.fits source hold
      refine ⟨j', ?_, hfits⟩
      have hlt := (List.getElem?_eq_some_iff.mp hj').1
      exact (List.getElem?_append_left hlt).trans hj'
    · obtain rfl := List.mem_singleton.mp hnew
      refine ⟨j, ?_, hj⟩
      simp [jobOf, ← hs.length]

theorem Carries.finish (hs : s.Carries F jobs) {source : GSource} {batch : List GSource}
    (threw : Bool) (hpoint : s.point = .calling source none batch) :
    (s.finish source threw batch).Carries F jobs where
  sound := hs.sound.finish hpoint
  first := hs.first.finish hpoint
  alive := hs.alive
  length := hs.length.trans length_finish.symm
  fits x hx := hs.fits x (sources_finish_sublist.subset hx)

/-- The job of the callback that runs. -/
theorem Carries.calling (hs : s.Carries F jobs) {source : GSource} {batch : List GSource}
    (hpoint : s.point = .calling source none batch) :
    ∃ j, jobOf jobs source = some j ∧ F j source.kind :=
  hs.fits source (hs.sound.mem_calling hpoint)

/-- A step of the loop from one callback to the next, or of time. -/
theorem Carries.move (hs : s.Carries F jobs) (he : e.internal) (h : s.step e = some s') :
    s'.Carries F jobs ∧ s'.sources = s.sources ∧ s.now ≤ s'.now := by
  have hsound := step_sound hs.sound h
  have hfirst := step_messagesFirst hs.first h
  cases step_effect h with
  | attaches e kind hattaches hopen hs' =>
    rw [LoopEvent.attaches_of_internal he] at hattaches
    cases hattaches
  | quits hphase hs' | closes hphase hpoint hs' | waits number source batch hpoint hnumber hs'
  | resumes number source batch hpoint hready hs' | finishes threw source batch hpoint hs' =>
    cases he
  | constructs hphase hready hs' =>
    subst hs'
    exact ⟨⟨hsound, hfirst, nofun, hs.length, hs.fits⟩, rfl, le_refl _⟩
  | ticks hs' =>
    subst hs'
    exact ⟨⟨hsound, hfirst, hs.alive, hs.length, hs.fits⟩, rfl, Nat.le_succ _⟩
  | runs hpoint hs' | checks hpoint hs' | polls readable hpoint hready hs' | iterates hpoint hs'
  | calls source batch hpoint hs' =>
    subst hs'
    exact ⟨⟨hsound, hfirst, hs.alive, hs.length, hs.fits⟩, rfl, le_refl _⟩

end EventLoop
end GemianLeds
