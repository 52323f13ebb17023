import GemianLeds.EventLoop.Loop
import Mathlib.Data.List.Perm.Basic

/-! The futures that an event loop hands out: each is set once and for all, by the callback it
belongs to, and none is left unset by `stop`. Callbacks handed to `enqueue` run in order. -/
namespace GemianLeds
open Interaction

/-- What the iteration under way has still to dispatch, the callback under way included. -/
def LoopPoint.batch : LoopPoint → List GSource
  | .dispatching batch => batch
  | .calling source _ batch => source :: batch
  | _ => []

namespace EventLoop
variable {s s' : EventLoop} {e : LoopEvent}

/-- The sources of a kind, those finished before those attached. -/
def log (s : EventLoop) (p : GSource → Bool) : List GSource :=
  (s.finished.map Prod.fst).filter p ++ s.sources.filter p

def oneShot (source : GSource) : Bool := source.kind ≠ .fd

def fromEnqueue (source : GSource) : Bool := source.kind.isIdle

/-- Sources are numbered apart, and an iteration dispatches what is attached: what is idle from
the first on, or what was ready. -/
structure Sound (s : EventLoop) : Prop where
  below : ∀ source ∈ s.finished.map Prod.fst ++ s.sources, source.number < s.promises.length
  attached : s.sources.Pairwise fun x y => x.number < y.number
  once : (s.log oneShot).Pairwise fun x y => x.number ≠ y.number
  order : (s.log fromEnqueue).Pairwise fun x y => x.number < y.number
  batch : s.point.batch.Sublist s.sources
  level : (∀ source ∈ s.point.batch, ¬ fromEnqueue source) ∨
    s.point.batch <+: s.sources.filter fromEnqueue
  due : ∀ source ∈ s.finished.map Prod.fst ++ s.point.batch,
    ∀ due, source.kind = .timeout due → due ≤ s.now

theorem start_sound : start.Sound where
  below := by decide
  attached := by decide
  once := by decide
  order := by decide
  batch := by decide
  level := .inl (by decide)
  due := by simp [start, LoopPoint.batch]

theorem nodup_of_numbered {sources : List GSource}
    (h : sources.Pairwise fun x y => x.number < y.number) : sources.Nodup :=
  h.imp fun hlt heq => absurd hlt (by rw [heq]; exact Nat.lt_irrefl _)

theorem attach_stopped (h : s.phase = .stopped) (kind : SourceKind) :
    s.attach kind =
      { s with
        promises := s.promises ++ [kind.promise]
        stray := s.stray ++ [⟨s.promises.length, kind⟩] } := if_pos h

theorem attach_open (h : s.phase ≠ .stopped) (kind : SourceKind) :
    s.attach kind =
      { s with
        promises := s.promises ++ [kind.promise]
        sources := s.sources ++ [⟨s.promises.length, kind⟩] } := if_neg h

theorem mem_of_log {p : GSource → Bool} {source : GSource} (h : source ∈ s.log p) :
    source ∈ s.finished.map Prod.fst ++ s.sources := by
  unfold log at h
  rw [← List.filter_append] at h
  exact List.mem_of_mem_filter h

theorem log_attach (hphase : s.phase ≠ .stopped) (kind : SourceKind) (p : GSource → Bool) :
    (s.attach kind).log p = s.log p ++ [⟨s.promises.length, kind⟩].filter p := by
  rw [attach_open hphase]
  simp only [log, List.filter_append, List.append_assoc]

theorem pairwise_concat {R : GSource → GSource → Prop} {sources : List GSource}
    {source : GSource} (h : sources.Pairwise R) (hlast : ∀ x ∈ sources, R x source)
    (p : GSource → Bool) : (sources ++ [source].filter p).Pairwise R := by
  rw [List.pairwise_append]
  refine ⟨h, (List.pairwise_singleton _ _).filter p, fun x hx y hy => ?_⟩
  obtain rfl := List.mem_singleton.mp (List.mem_of_mem_filter hy)
  exact hlast x hx

/-- The source that is made last has the highest number. -/
theorem Sound.attach (hs : s.Sound) (kind : SourceKind) : (s.attach kind).Sound := by
  by_cases hphase : s.phase = .stopped
  · rw [attach_stopped hphase]
    refine ⟨?_, hs.attached, hs.once, hs.order, hs.batch, hs.level, hs.due⟩
    intro source hsource
    rw [List.length_append]
    exact Nat.lt_add_right _ (hs.below source hsource)
  · have hlog (p : GSource → Bool) : ∀ x ∈ s.log p, x.number < s.promises.length :=
      fun x hx => hs.below x (mem_of_log hx)
    have honce : ((s.attach kind).log oneShot).Pairwise fun x y => x.number ≠ y.number := by
      rw [log_attach hphase]
      exact pairwise_concat hs.once (fun x hx => Nat.ne_of_lt (hlog _ x hx)) _
    have horder : ((s.attach kind).log fromEnqueue).Pairwise fun x y => x.number < y.number := by
      rw [log_attach hphase]
      exact pairwise_concat hs.order (hlog _) _
    rw [attach_open hphase] at honce horder ⊢
    refine ⟨?_, ?_, honce, horder, hs.batch.trans (List.sublist_append_left _ _), ?_, hs.due⟩
    · intro source hsource
      rw [List.length_append, List.length_singleton]
      rw [← List.append_assoc] at hsource
      rcases List.mem_append.mp hsource with hold | hnew
      · exact Nat.lt_succ_of_lt (hs.below source hold)
      · obtain rfl := List.mem_singleton.mp hnew
        exact Nat.lt_succ_self _
    · exact pairwise_concat hs.attached
        (fun x hx => hs.below x (List.mem_append_right _ hx)) fun _ => true
    · apply hs.level.imp id
      intro hbatch
      rw [List.filter_append]
      exact hbatch.trans (List.prefix_append _ _)

section Finish
variable {source : GSource} {batch : List GSource} {threw : Bool}

theorem finished_finish : (s.finish source threw batch).finished.map Prod.fst =
    s.finished.map Prod.fst ++ [source] := List.map_append

theorem sources_finish (h : source.kind ≠ .fd) :
    (s.finish source threw batch).sources = s.sources.erase source := if_neg h

theorem sources_finish_sublist : (s.finish source threw batch).sources.Sublist s.sources := by
  change (if source.kind = .fd then s.sources else s.sources.erase source).Sublist s.sources
  split
  · exact .refl _
  · exact List.erase_sublist

theorem length_finish : (s.finish source threw batch).promises.length = s.promises.length := by
  change (bif _ then s.promises.set _ _ else s.promises).length = _
  cases source.kind.hasPromise with
  | true => exact List.length_set
  | false => rfl

theorem Sound.mem_calling (hs : s.Sound) (hpoint : s.point = .calling source none batch) :
    source ∈ s.sources := by
  have hbatch := hs.batch
  rw [hpoint] at hbatch
  exact hbatch.subset List.mem_cons_self

/-- A source that is not watched on leaves the attached ones for the finished ones. -/
theorem log_finish (hs : s.Sound) (hpoint : s.point = .calling source none batch)
    (p : GSource → Bool) (hp : p source → source.kind ≠ .fd) :
    ((s.finish source threw batch).log p).Perm (s.log p) := by
  unfold log
  rw [finished_finish, List.filter_append, List.append_assoc]
  apply List.Perm.append_left
  cases hsource : p source with
  | true =>
    have hfilter : [source].filter p = [source] := by simp [hsource]
    rw [sources_finish (hp hsource), hfilter, ← List.erase_filter]
    exact (List.perm_cons_erase (List.mem_filter.mpr ⟨hs.mem_calling hpoint, hsource⟩)).symm
  | false =>
    have hfilter : [source].filter p = [] := by simp [hsource]
    have hsources : (s.finish source threw batch).sources.filter p = s.sources.filter p := by
      change (if source.kind = .fd then s.sources else s.sources.erase source).filter p = _
      split
      · rfl
      · rw [← List.erase_filter, List.erase_eq_self_iff]
        simp [hsource]
    rw [hsources, hfilter]
    exact .refl _

/-- If it is idle, it was the first idle one. -/
theorem idle_finish (hs : s.Sound) (hpoint : s.point = .calling source none batch)
    (hidle : fromEnqueue source) :
    source :: (s.finish source threw batch).sources.filter fromEnqueue =
        s.sources.filter fromEnqueue ∧
      batch <+: (s.finish source threw batch).sources.filter fromEnqueue := by
  have hlevel := hs.level
  rw [hpoint] at hlevel
  rcases hlevel with hnone | ⟨rest, hrest⟩
  · exact absurd hidle (hnone source List.mem_cons_self)
  · have hkind : source.kind ≠ .fd := by
      intro hfd
      rw [fromEnqueue, hfd] at hidle
      cases hidle
    rw [sources_finish hkind, ← List.erase_filter, ← hrest]
    simp only [LoopPoint.batch, List.cons_append, List.erase_cons_head]
    exact ⟨trivial, List.prefix_append _ _⟩

/-- The callback of the first source of the batch has run. -/
theorem Sound.finish (hs : s.Sound) (hpoint : s.point = .calling source none batch) :
    (s.finish source threw batch).Sound := by
  have hbatch := hs.batch
  have hlevel := hs.level
  have hdue := hs.due
  rw [hpoint] at hbatch hlevel hdue
  refine ⟨?_, hs.attached.sublist sources_finish_sublist, ?_, ?_, ?_, ?_, ?_⟩
  · intro x hx
    rw [length_finish]
    apply hs.below x
    rw [finished_finish] at hx
    rcases List.mem_append.mp hx with hx | hx
    · rcases List.mem_append.mp hx with hx | hx
      · exact List.mem_append_left _ hx
      · obtain rfl := List.mem_singleton.mp hx
        exact List.mem_append_right _ (hs.mem_calling hpoint)
    · exact List.mem_append_right _ (sources_finish_sublist.subset hx)
  · have hperm : ((s.finish source threw batch).log oneShot).Perm (s.log oneShot) :=
      log_finish hs hpoint oneShot (by simp [oneShot])
    exact (hperm.pairwise_iff fun h => h.symm).mpr hs.once
  · have horder := hs.order
    unfold log at horder ⊢
    rw [finished_finish, List.filter_append, List.append_assoc]
    cases hidle : fromEnqueue source with
    | true =>
      have hfilter : [source].filter fromEnqueue = [source] := by simp [hidle]
      rw [hfilter, List.singleton_append, (idle_finish hs hpoint hidle).1]
      exact horder
    | false =>
      have hfilter : [source].filter fromEnqueue = [] := by simp [hidle]
      rw [hfilter, List.nil_append]
      exact horder.sublist (sources_finish_sublist.filter _ |>.append_left _)
  · change batch.Sublist (s.finish source threw batch).sources
    by_cases hkind : source.kind = .fd
    · have hsources : (s.finish source threw batch).sources = s.sources := if_pos hkind
      rw [hsources]
      exact (List.sublist_cons_self source batch).trans hbatch
    · rw [sources_finish hkind]
      have herase := hbatch.erase source
      rwa [LoopPoint.batch, List.erase_cons_head] at herase
  · change (∀ x ∈ batch, _) ∨ batch <+: _
    rcases hlevel with hnone | hsome
    · exact .inl fun x hx => hnone x (List.mem_cons_of_mem _ hx)
    · right
      have hidle : fromEnqueue source := by
        obtain ⟨rest, hrest⟩ := hsome
        have hmem : source ∈ s.sources.filter fromEnqueue := by
          rw [← hrest]
          exact List.mem_cons_self
        exact (List.mem_filter.mp hmem).2
      exact (idle_finish hs hpoint hidle).2
  · intro x hx
    apply hdue x
    rw [finished_finish, List.append_assoc] at hx
    exact hx

end Finish

/-- The thread moves on with the same batch. -/
theorem Sound.move (hs : s.Sound) {point : LoopPoint} (running : Bool)
    (hbatch : point.batch = s.point.batch) : Sound { s with point, running } := by
  refine ⟨hs.below, hs.attached, hs.once, hs.order, ?_, ?_, ?_⟩
  all_goals
    simp only [hbatch]
  · exact hs.batch
  · exact hs.level
  · exact hs.due

/-- What an iteration finds. -/
theorem batch_spec (readable : List ℕ) :
    (s.batch readable).Sublist s.sources ∧
      ((∀ source ∈ s.batch readable, s.ready readable source) ∨
        s.batch readable = s.sources.filter fromEnqueue) := by
  unfold batch
  split
  · exact ⟨List.filter_sublist, .inr rfl⟩
  · exact ⟨List.filter_sublist, .inl fun source hsource => (List.mem_filter.mp hsource).2⟩

theorem Sound.poll (hs : s.Sound) (readable : List ℕ) :
    Sound { s with point := .dispatching (s.batch readable) } := by
  obtain ⟨hsublist, hready⟩ := s.batch_spec readable
  refine ⟨hs.below, hs.attached, hs.once, hs.order, hsublist, ?_, ?_⟩
  · rcases hready with hready | hidle
    · left
      intro source hsource hidle
      have hready := hready source hsource
      unfold fromEnqueue at hidle
      cases hkind : source.kind <;> simp_all [SourceKind.isIdle, ready]
    · right
      exact ⟨[], (List.append_nil _).trans hidle⟩
  · intro source hsource due hdue
    rcases List.mem_append.mp hsource with hfinished | hbatch
    · exact hs.due source (List.mem_append_left _ hfinished) due hdue
    · change source ∈ s.batch readable at hbatch
      rcases hready with hready | hidle
      · simpa [ready, hdue] using hready source hbatch
      · rw [hidle] at hbatch
        simp [fromEnqueue, hdue, SourceKind.isIdle] at hbatch

theorem length_breakPromises (s : EventLoop) : s.breakPromises.length = s.promises.length :=
  List.length_mapIdx

theorem Sound.close (hs : s.Sound) (hpoint : s.point = .exited) :
    Sound { s with phase := .stopped, sources := [], promises := s.breakPromises } := by
  have hlog (p : GSource → Bool) :
      (log { s with phase := .stopped, sources := [], promises := s.breakPromises } p).Sublist
        (s.log p) := List.Sublist.append_left (List.nil_sublist _) _
  refine ⟨?_, .nil, hs.once.sublist (hlog _), hs.order.sublist (hlog _), ?_, ?_, hs.due⟩
  · intro source hsource
    rw [List.append_nil] at hsource
    rw [length_breakPromises]
    exact hs.below source (List.mem_append_left _ hsource)
  all_goals
    rw [hpoint]
  · exact .refl _
  · exact .inl nofun

theorem step_sound (hs : s.Sound) (h : s.step e = some s') : s'.Sound := by
  cases step_effect h with
  | attaches e kind he hopen hs' => exact hs' ▸ hs.attach kind
  | constructs hphase hready hs' =>
    subst hs'
    exact ⟨hs.below, hs.attached, hs.once, hs.order, hs.batch, hs.level, hs.due⟩
  | quits hphase hs' =>
    subst hs'
    exact ⟨hs.below, hs.attached, hs.once, hs.order, hs.batch, hs.level, hs.due⟩
  | closes hphase hpoint hs' => exact hs' ▸ hs.close hpoint
  | ticks hs' =>
    subst hs'
    exact ⟨hs.below, hs.attached, hs.once, hs.order, hs.batch, hs.level,
      fun source hsource due hdue => Nat.le_succ_of_le (hs.due source hsource due hdue)⟩
  | runs hpoint hs' => exact hs' ▸ hs.move true (by rw [hpoint]; rfl)
  | checks hpoint hs' =>
    refine hs' ▸ hs.move s.running ?_
    rw [hpoint]
    cases s.running <;> rfl
  | polls readable hpoint hready hs' => exact hs' ▸ hs.poll readable
  | iterates hpoint hs' => exact hs' ▸ hs.move s.running (by rw [hpoint]; rfl)
  | calls source batch hpoint hs' => exact hs' ▸ hs.move s.running (by rw [hpoint]; rfl)
  | waits number source batch hpoint hnumber hs' =>
    exact hs' ▸ hs.move s.running (by rw [hpoint]; rfl)
  | resumes number source batch hpoint hready hs' =>
    exact hs' ▸ hs.move s.running (by rw [hpoint]; rfl)
  | finishes threw source batch hpoint hs' => exact hs' ▸ hs.finish hpoint

/-- How far the owner, the thread and the loop are together. The constructor waits for a first
callback, so the loop has begun to run when it is quit, and does not run again. -/
structure Phased (s : EventLoop) : Prop where
  starting : s.point = .starting → s.phase = .constructing ∧ s.promises[0]? = some .pending
  halted : s.running = false → s.point = .starting ∨ s.phase = .stopping ∨ s.phase = .stopped
  exited : s.point = .exited → s.running = false
  stopped : s.phase = .stopped → s.sources = [] ∧ s.point = .exited
  stray : s.phase ≠ .stopped → s.stray = []

theorem start_phased : start.Phased where
  starting _ := ⟨rfl, rfl⟩
  halted _ := .inl rfl
  exited h := by cases h
  stopped h := by cases h
  stray _ := rfl

theorem Phased.attach (hs : s.Phased) (hopen : s.phase ≠ .constructing) (kind : SourceKind) :
    (s.attach kind).Phased := by
  have hstarting : s.point ≠ .starting := fun h => hopen (hs.starting h).1
  by_cases hphase : s.phase = .stopped
  · rw [attach_stopped hphase]
    exact ⟨fun h => absurd h hstarting, hs.halted, hs.exited, hs.stopped,
      fun h => absurd hphase h⟩
  · rw [attach_open hphase]
    exact ⟨fun h => absurd h hstarting, hs.halted, hs.exited, fun h => absurd h hphase, hs.stray⟩

theorem Phased.quit (hs : s.Phased) (hphase : s.phase = .constructed ∨ s.phase = .stopping) :
    Phased { s with phase := .stopping, running := false } := by
  have hopen : s.phase ≠ .constructing := by
    rintro h
    rw [h] at hphase
    simp at hphase
  have hstopped : s.phase ≠ .stopped := by
    rintro h
    rw [h] at hphase
    simp at hphase
  exact ⟨fun h => absurd (hs.starting h).1 hopen, fun _ => .inr (.inl rfl), fun _ => rfl, nofun,
    fun _ => hs.stray hstopped⟩

theorem Phased.construct (hs : s.Phased) (hphase : s.phase = .constructing)
    (hready : s.promises[0]? ≠ some .pending) : Phased { s with phase := .constructed } := by
  have hstarting : s.point ≠ .starting := fun h => hready (hs.starting h).2
  refine ⟨fun h => absurd h hstarting, fun h => ?_, hs.exited, nofun,
    fun _ => hs.stray (by rw [hphase]; exact nofun)⟩
  have hhalted := hs.halted h
  rw [hphase] at hhalted
  exact absurd hhalted (by simp [hstarting])

/-- The thread moves on, inside the loop or out of it. -/
theorem Phased.move (hs : s.Phased) {point : LoopPoint} (hlive : s.point ≠ .exited)
    (hstarting : s.point ≠ .starting) (hpoint : point ≠ .starting)
    (hexited : point = .exited → s.running = false) : Phased { s with point } := by
  refine ⟨fun h => absurd h hpoint, fun h => ?_, hexited,
    fun h => absurd (hs.stopped h).2 hlive, hs.stray⟩
  exact .inr ((hs.halted h).resolve_left hstarting)

theorem step_phased (hs : s.Phased) (h : s.step e = some s') : s'.Phased := by
  cases step_effect h with
  | attaches e kind he hopen hs' => exact hs' ▸ hs.attach hopen kind
  | constructs hphase hready hs' => exact hs' ▸ hs.construct hphase hready
  | quits hphase hs' => exact hs' ▸ hs.quit hphase
  | closes hphase hpoint hs' =>
    subst hs'
    exact ⟨fun h => absurd (hpoint.symm.trans h) nofun, fun _ => .inr (.inr rfl), hs.exited,
      fun _ => ⟨rfl, hpoint⟩, fun h => absurd rfl h⟩
  | ticks hs' => exact hs' ▸ ⟨hs.starting, hs.halted, hs.exited, hs.stopped, hs.stray⟩
  | runs hpoint hs' =>
    have hphase := (hs.starting hpoint).1
    subst hs'
    exact ⟨nofun, nofun, nofun, fun h => absurd (hphase.symm.trans h) nofun, hs.stray⟩
  | checks hpoint hs' =>
    subst hs'
    apply hs.move (by rw [hpoint]; exact nofun) (by rw [hpoint]; exact nofun)
    · cases s.running <;> exact nofun
    · cases s.running with
      | true => exact nofun
      | false => exact fun _ => rfl
  | polls readable hpoint hready hs' | iterates hpoint hs' | calls source batch hpoint hs'
  | waits number source batch hpoint hnumber hs'
  | resumes number source batch hpoint hready hs' =>
    exact hs' ▸ hs.move (by rw [hpoint]; exact nofun) (by rw [hpoint]; exact nofun) nofun nofun
  | finishes threw source batch hpoint hs' =>
    have hlive : s.point ≠ .exited := by
      rw [hpoint]
      exact nofun
    have hstarting : s.point ≠ .starting := by
      rw [hpoint]
      exact nofun
    subst hs'
    exact ⟨nofun, fun h => .inr ((hs.halted h).resolve_left hstarting), nofun,
      fun h => absurd (hs.stopped h).2 hlive, hs.stray⟩

/-- Every promise is pending as long as its source is attached, and is set by what its callback
does, or broken by `stop`. -/
structure Kept (s : EventLoop) : Prop where
  pending : ∀ n : ℕ, s.promises[n]? = some .pending ↔
    ∃ source ∈ s.sources ++ s.stray, source.kind.hasPromise ∧ source.number = n
  set : ∀ source threw, (source, threw) ∈ s.finished → source.kind.hasPromise →
    s.promises[source.number]? = some (.ofCall threw)
  earned : ∀ (n : ℕ) threw, s.promises[n]? = some (.ofCall threw) →
    ∃ source, (source, threw) ∈ s.finished ∧ source.kind.hasPromise ∧ source.number = n
  broken : ∀ n : ℕ, s.promises[n]? = some .broken → s.phase = .stopped

theorem start_kept : start.Kept where
  pending n := by
    cases n with
    | zero => simp [start, SourceKind.hasPromise]
    | succ n => simp [start]
  set source threw h := by cases h
  earned n threw h := by
    cases n <;> cases threw <;> simp [start, PromiseState.ofCall] at h
  broken n h := by
    cases n <;> simp [start] at h

theorem ofCall_ne (threw : Bool) :
    PromiseState.ofCall threw ≠ .pending ∧ PromiseState.ofCall threw ≠ .broken ∧
      ∀ kind : SourceKind, kind.promise ≠ .ofCall threw := by
  refine ⟨?_, ?_, fun kind => ?_⟩
  · cases threw <;> exact nofun
  · cases threw <;> exact nofun
  · cases kind <;> cases threw <;> exact nofun

theorem promise_eq_pending (kind : SourceKind) : kind.promise = .pending ↔ kind.hasPromise := by
  cases kind <;> simp [SourceKind.promise, SourceKind.hasPromise]

/-- What is made gets a promise of its own, and no other changes. -/
theorem promises_attach (kind : SourceKind) (n : ℕ) :
    (s.attach kind).promises[n]? =
      if n = s.promises.length then some kind.promise else s.promises[n]? := by
  have hpromises : (s.attach kind).promises = s.promises ++ [kind.promise] := by
    unfold attach
    split <;> rfl
  rw [hpromises, List.getElem?_append]
  split
  next hlt => rw [if_neg (Nat.ne_of_lt hlt)]
  next hge =>
    by_cases hn : n = s.promises.length
    · simp [hn]
    · rw [if_neg hn, List.getElem?_eq_none (by simp; omega), List.getElem?_eq_none (by omega)]

theorem sources_attach (kind : SourceKind) (source : GSource) :
    source ∈ (s.attach kind).sources ++ (s.attach kind).stray ↔
      source ∈ s.sources ++ s.stray ∨ source = ⟨s.promises.length, kind⟩ := by
  unfold attach
  split <;> simp only [List.mem_append, List.mem_singleton] <;> tauto

theorem Kept.attach (hs : s.Kept) (hsound : s.Sound) (kind : SourceKind) :
    (s.attach kind).Kept := by
  have hfinished : (s.attach kind).finished = s.finished := by
    unfold EventLoop.attach
    split <;> rfl
  have hphase : (s.attach kind).phase = s.phase := by
    unfold EventLoop.attach
    split <;> rfl
  refine ⟨fun n => ?_, fun source threw hfin hpromise => ?_, fun n threw hn => ?_, fun n hn => ?_⟩
  · rw [promises_attach]
    simp only [sources_attach, or_and_right, exists_or, exists_eq_left]
    split
    next hn =>
      subst hn
      have hold : s.promises[s.promises.length]? ≠ some .pending := by
        rw [List.getElem?_eq_none (Nat.le_refl _)]
        exact nofun
      have hnone := mt (hs.pending _).mpr hold
      simp only [hnone, false_or, and_true, Option.some.injEq, promise_eq_pending]
    next hn =>
      have hnew : ¬ (kind.hasPromise = true ∧ s.promises.length = n) := fun h => hn h.2.symm
      simp only [hnew, or_false]
      exact hs.pending n
  · rw [hfinished] at hfin
    have hlt := hsound.below source
      (List.mem_append_left _ (List.mem_map.mpr ⟨_, hfin, rfl⟩))
    rw [promises_attach, if_neg (Nat.ne_of_lt hlt)]
    exact hs.set source threw hfin hpromise
  · rw [promises_attach] at hn
    rw [hfinished]
    split at hn
    · exact absurd (Option.some.inj hn) ((ofCall_ne threw).2.2 kind)
    · exact hs.earned n threw hn
  · rw [promises_attach] at hn
    rw [hphase]
    split at hn
    · have hkind := Option.some.inj hn
      cases kind <;> cases hkind
    · exact hs.broken n hn

theorem Sound.eq_of_number (hs : s.Sound) {x y : GSource} (hx : x ∈ s.sources)
    (hy : y ∈ s.sources) (h : x.number = y.number) : x = y := by
  have hapart : s.sources.Pairwise fun x y => x.number = y.number → x = y :=
    hs.attached.imp fun hlt heq => absurd heq (Nat.ne_of_lt hlt)
  have hflip : s.sources.Pairwise fun x y => y.number = x.number → y = x :=
    hs.attached.imp fun hlt heq => absurd heq.symm (Nat.ne_of_lt hlt)
  exact hapart.forall_of_forall_of_flip (fun _ _ _ => rfl) hflip hx hy h

/-- What is attached is no source of one shot that has run. -/
theorem Sound.ne_of_finished (hs : s.Sound) {x y : GSource} {threw : Bool}
    (hx : (x, threw) ∈ s.finished) (hy : y ∈ s.sources) (hpromise : x.kind.hasPromise)
    (hypromise : y.kind.hasPromise) : x.number ≠ y.number := by
  have hshot {z : GSource} (h : z.kind.hasPromise) : oneShot z := by
    unfold oneShot
    cases hkind : z.kind <;> simp_all [SourceKind.hasPromise]
  have honce := hs.once
  unfold log at honce
  apply (List.pairwise_append.mp honce).2.2
  · exact List.mem_filter.mpr ⟨List.mem_map.mpr ⟨_, hx, rfl⟩, hshot hpromise⟩
  · exact List.mem_filter.mpr ⟨hy, hshot hypromise⟩

/-- The sources with a promise, after one without has been finished. -/
theorem promised_finish {source : GSource} {batch : List GSource} {threw : Bool}
    (hpromise : source.kind.hasPromise = false) {x : GSource} (hx : x.kind.hasPromise) :
    x ∈ (s.finish source threw batch).sources ↔ x ∈ s.sources := by
  have hne : x ≠ source := by
    rintro rfl
    rw [hpromise] at hx
    cases hx
  change x ∈ (if source.kind = .fd then s.sources else s.sources.erase source) ↔ _
  split
  · exact .rfl
  · exact List.mem_erase_of_ne hne

theorem mem_finished_finish {source x : GSource} {batch : List GSource} {threw t : Bool} :
    (x, t) ∈ (s.finish source threw batch).finished ↔
      (x, t) ∈ s.finished ∨ x = source ∧ t = threw := by
  change (x, t) ∈ s.finished ++ [(source, threw)] ↔ _
  simp

theorem Kept.finish (hs : s.Kept) (hsound : s.Sound) (hphased : s.Phased) {source : GSource}
    {batch : List GSource} (threw : Bool) (hpoint : s.point = .calling source none batch) :
    (s.finish source threw batch).Kept := by
  have hmem := hsound.mem_calling hpoint
  have hlive : s.phase ≠ .stopped := by
    intro hphase
    exact absurd (hpoint.symm.trans (hphased.stopped hphase).2) nofun
  have hstray : s.stray = [] := hphased.stray hlive
  cases hpromise : source.kind.hasPromise with
  | false =>
    have hpromises : (s.finish source threw batch).promises = s.promises := by
      simp [EventLoop.finish, hpromise]
    have hold {x : GSource} {t : Bool} (hx : x.kind.hasPromise) :
        (x, t) ∈ (s.finish source threw batch).finished ↔ (x, t) ∈ s.finished := by
      rw [mem_finished_finish, or_iff_left]
      rintro ⟨rfl, -⟩
      rw [hpromise] at hx
      cases hx
    refine ⟨fun n => ?_, fun x t hfin hx => ?_, fun n t hn => ?_, fun n hn => ?_⟩
    · rw [hpromises, hs.pending]
      apply exists_congr
      intro x
      simp only [List.mem_append]
      constructor
      · rintro ⟨hx, hxpromise, hnumber⟩
        exact ⟨hx.imp_left (promised_finish hpromise hxpromise).mpr, hxpromise, hnumber⟩
      · rintro ⟨hx, hxpromise, hnumber⟩
        exact ⟨hx.imp_left (promised_finish hpromise hxpromise).mp, hxpromise, hnumber⟩
    · rw [hpromises]
      exact hs.set x t ((hold hx).mp hfin) hx
    · rw [hpromises] at hn
      obtain ⟨x, hfin, hx, hnumber⟩ := hs.earned n t hn
      exact ⟨x, (hold hx).mpr hfin, hx, hnumber⟩
    · rw [hpromises] at hn
      exact hs.broken n hn
  | true =>
    have hpromises : (s.finish source threw batch).promises =
        s.promises.set source.number (.ofCall threw) := by
      simp [EventLoop.finish, hpromise]
    have hkind : source.kind ≠ .fd := by
      intro hfd
      rw [hfd] at hpromise
      cases hpromise
    have hlt := hsound.below source (List.mem_append_right _ hmem)
    have hself : (s.finish source threw batch).promises[source.number]? =
        some (.ofCall threw) := by
      rw [hpromises, List.getElem?_set_self hlt]
    have hother {n : ℕ} (hn : source.number ≠ n) :
        (s.finish source threw batch).promises[n]? = s.promises[n]? := by
      rw [hpromises, List.getElem?_set_ne hn]
    refine ⟨fun n => ?_, fun x t hfin hx => ?_, fun n t hn => ?_, fun n hn => ?_⟩
    · change _ ↔ ∃ x ∈ (s.finish source threw batch).sources ++ s.stray, _
      rw [sources_finish hkind, hstray, List.append_nil]
      have hpending := hs.pending n
      rw [hstray, List.append_nil] at hpending
      by_cases hn : source.number = n
      · subst hn
        rw [hself]
        refine iff_of_false (fun h => (ofCall_ne threw).1 (Option.some.inj h)) ?_
        rintro ⟨x, hx, -, hnumber⟩
        have heq := hsound.eq_of_number (List.mem_of_mem_erase hx) hmem hnumber
        subst heq
        exact (nodup_of_numbered hsound.attached).not_mem_erase hx
      · rw [hother hn, hpending]
        apply exists_congr
        intro x
        refine ⟨fun ⟨hx, hrest⟩ => ⟨(List.mem_erase_of_ne ?_).mpr hx, hrest⟩,
          fun ⟨hx, hrest⟩ => ⟨List.mem_of_mem_erase hx, hrest⟩⟩
        rintro rfl
        exact hn hrest.2
    · rcases mem_finished_finish.mp hfin with hfin | ⟨rfl, rfl⟩
      · rw [hother (hsound.ne_of_finished hfin hmem hx hpromise).symm]
        exact hs.set x t hfin hx
      · exact hself
    · by_cases hnumber : source.number = n
      · subst hnumber
        rw [hself] at hn
        have ht : threw = t := by
          cases threw <;> cases t <;> first | rfl | cases hn
        exact ⟨source, mem_finished_finish.mpr (.inr ⟨rfl, ht.symm⟩), hpromise, rfl⟩
      · rw [hother hnumber] at hn
        obtain ⟨x, hfin, hx, hxn⟩ := hs.earned n t hn
        exact ⟨x, mem_finished_finish.mpr (.inl hfin), hx, hxn⟩
    · by_cases hnumber : source.number = n
      · subst hnumber
        rw [hself] at hn
        exact absurd (Option.some.inj hn) (ofCall_ne threw).2.1
      · rw [hother hnumber] at hn
        exact hs.broken n hn

theorem breakPromises_getElem? (s : EventLoop) (n : ℕ) : s.breakPromises[n]? =
    s.promises[n]?.map fun p =>
      if p = .pending ∧ ∃ source ∈ s.sources, source.number = n then .broken else p :=
  List.getElem?_mapIdx

/-- Every promise that was pending had a source to be destroyed. -/
theorem Kept.close (hs : s.Kept) (hphased : s.Phased) (hphase : s.phase = .stopping) :
    Kept { s with phase := .stopped, sources := [], promises := s.breakPromises } := by
  have hstray : s.stray = [] := hphased.stray (by rw [hphase]; exact nofun)
  have hkept (n : ℕ) {p : PromiseState} (hp : p ≠ .pending) (hpb : p ≠ .broken) :
      s.breakPromises[n]? = some p ↔ s.promises[n]? = some p := by
    rw [breakPromises_getElem?, Option.map_eq_some_iff]
    constructor
    · rintro ⟨q, hq, hqp⟩
      split at hqp
      · exact absurd hqp.symm hpb
      · rwa [← hqp]
    · exact fun h => ⟨p, h, if_neg fun h => hp h.1⟩
  refine ⟨fun n => ?_, fun source threw hfin hpromise => ?_, fun n threw hn => ?_, fun _ _ => rfl⟩
  · refine iff_of_false (fun hn => ?_) (by simp [hstray])
    obtain ⟨p, hp, hbroken⟩ := Option.map_eq_some_iff.mp (breakPromises_getElem? s n ▸ hn)
    split at hbroken
    next => cases hbroken
    next hnot =>
      subst hbroken
      obtain ⟨source, hsource, -, hnumber⟩ := (hs.pending n).mp hp
      rw [hstray, List.append_nil] at hsource
      exact hnot ⟨rfl, source, hsource, hnumber⟩
  · exact (hkept _ (ofCall_ne threw).1 (ofCall_ne threw).2.1).mpr
      (hs.set source threw hfin hpromise)
  · exact hs.earned n threw ((hkept n (ofCall_ne threw).1 (ofCall_ne threw).2.1).mp hn)

theorem step_kept (hs : s.Kept) (hsound : s.Sound) (hphased : s.Phased)
    (h : s.step e = some s') : s'.Kept := by
  have hmove {s' : EventLoop} (hsources : s'.sources = s.sources) (hstray : s'.stray = s.stray)
      (hpromises : s'.promises = s.promises) (hfinished : s'.finished = s.finished)
      (hphase : s.phase = .stopped → s'.phase = .stopped) : s'.Kept := by
    refine ⟨?_, ?_, ?_, ?_⟩
    all_goals
      simp only [hsources, hstray, hpromises, hfinished]
    · exact hs.pending
    · exact hs.set
    · exact hs.earned
    · exact fun n hn => hphase (hs.broken n hn)
  cases step_effect h with
  | attaches e kind he hopen hs' => exact hs' ▸ hs.attach hsound kind
  | closes hphase hpoint hs' => exact hs' ▸ hs.close hphased hphase
  | finishes threw source batch hpoint hs' => exact hs' ▸ hs.finish hsound hphased threw hpoint
  | constructs hphase hready hs' =>
    subst hs'
    exact hmove rfl rfl rfl rfl fun h => absurd (hphase.symm.trans h) nofun
  | quits hphase hs' =>
    subst hs'
    refine hmove rfl rfl rfl rfl fun h => ?_
    rw [h] at hphase
    simp at hphase
  | ticks hs' | runs hpoint hs' | checks hpoint hs' | polls readable hpoint hready hs'
  | iterates hpoint hs' | calls source batch hpoint hs'
  | waits number source batch hpoint hnumber hs'
  | resumes number source batch hpoint hready hs' =>
    subst hs'
    exact hmove rfl rfl rfl rfl id

/-- The invariants together. -/
structure Coherent (s : EventLoop) : Prop where
  sound : s.Sound
  phased : s.Phased
  kept : s.Kept

theorem run_coherent {events : List LoopEvent} (h : runFrom step start events = some s) :
    s.Coherent := by
  apply runFrom_invariant h ⟨start_sound, start_phased, start_kept⟩
  intro t e t' ht hstep
  exact ⟨step_sound ht.sound hstep, step_phased ht.phased hstep,
    step_kept ht.kept ht.sound ht.phased hstep⟩

theorem step_coherent (hs : s.Coherent) (h : s.step e = some s') : s'.Coherent :=
  ⟨step_sound hs.sound h, step_phased hs.phased h, step_kept hs.kept hs.sound hs.phased h⟩

/-- A promise that is set stays as it is. -/
theorem step_forever (hs : s.Coherent) (h : s.step e = some s') {n : ℕ} {p : PromiseState}
    (hp : p ≠ .pending) (hn : s.promises[n]? = some p) : s'.promises[n]? = some p := by
  cases step_effect h with
  | attaches e kind he hopen hs' =>
    have hlt := (List.getElem?_eq_some_iff.mp hn).1
    rw [hs', promises_attach, if_neg (Nat.ne_of_lt hlt)]
    exact hn
  | closes hphase hpoint hs' =>
    rw [hs']
    change s.breakPromises[n]? = some p
    rw [breakPromises_getElem?, hn, Option.map_some, if_neg fun h => hp h.1]
  | finishes threw source batch hpoint hs' =>
    rw [hs']
    cases hpromise : source.kind.hasPromise with
    | false =>
      have hpromises : (s.finish source threw batch).promises = s.promises := by
        simp [EventLoop.finish, hpromise]
      rw [hpromises]
      exact hn
    | true =>
      have hpromises : (s.finish source threw batch).promises =
          s.promises.set source.number (.ofCall threw) := by
        simp [EventLoop.finish, hpromise]
      have hpending := (hs.kept.pending source.number).mpr
        ⟨source, List.mem_append_left _ (hs.sound.mem_calling hpoint), hpromise, rfl⟩
      rw [hpromises, List.getElem?_set_ne]
      · exact hn
      · rintro rfl
        exact hp (Option.some.inj (hn.symm.trans hpending))
  | constructs hphase hready hs' | quits hphase hs' | ticks hs' | runs hpoint hs'
  | checks hpoint hs' | polls readable hpoint hready hs' | iterates hpoint hs'
  | calls source batch hpoint hs' | waits number source batch hpoint hnumber hs'
  | resumes number source batch hpoint hready hs' =>
    rw [hs']
    exact hn

/-- After `stop` nothing runs, and nothing that is enqueued then is ever set. -/
theorem step_stopped (hs : s.Coherent) (hstopped : s.phase = .stopped) (h : s.step e = some s') :
    s'.phase = .stopped ∧ s'.finished = s.finished ∧
      ∀ (n : ℕ) p, s.promises[n]? = some p → s'.promises[n]? = some p := by
  have hexited := (hs.phased.stopped hstopped).2
  have hidle {point : LoopPoint} (hpoint : s.point = point) (hne : point ≠ .exited) : False :=
    hne (hpoint.symm.trans hexited)
  cases step_effect h with
  | attaches e kind he hopen hs' =>
    rw [hs']
    refine ⟨?_, ?_, fun n p hn => ?_⟩
    · rw [attach_stopped hstopped]
      exact hstopped
    · rw [attach_stopped hstopped]
    · rw [promises_attach, if_neg (Nat.ne_of_lt (List.getElem?_eq_some_iff.mp hn).1)]
      exact hn
  | ticks hs' => exact hs' ▸ ⟨hstopped, rfl, fun _ _ hn => hn⟩
  | constructs hphase hready hs' => exact absurd (hphase.symm.trans hstopped) nofun
  | quits hphase hs' => simp [hstopped] at hphase
  | closes hphase hpoint hs' => exact absurd (hphase.symm.trans hstopped) nofun
  | runs hpoint hs' | checks hpoint hs' | polls readable hpoint hready hs' | iterates hpoint hs'
  | calls source batch hpoint hs' | waits number source batch hpoint hnumber hs'
  | resumes number source batch hpoint hready hs' | finishes threw source batch hpoint hs' =>
    exact (hidle hpoint nofun).elim

/-- What callers can rely on. -/
structure Reliable (s : EventLoop) : Prop where
  once : ((s.finished.map Prod.fst).filter oneShot).Pairwise fun x y => x.number ≠ y.number
  order : ((s.finished.map Prod.fst).filter fromEnqueue).Pairwise fun x y => x.number < y.number
  due : ∀ source threw due, (source, threw) ∈ s.finished → source.kind = .timeout due → due ≤ s.now
  set : ∀ (n : ℕ) threw, s.promises[n]? = some (.ofCall threw) ↔
    ∃ source, (source, threw) ∈ s.finished ∧ source.kind.hasPromise ∧ source.number = n
  broken : ∀ n : ℕ, s.promises[n]? = some .broken → s.phase = .stopped ∧
    ∀ source threw, (source, threw) ∈ s.finished → source.kind.hasPromise → source.number ≠ n
  ready : s.phase = .stopped → ∀ n : ℕ, s.promises[n]? = some .pending →
    ∃ source ∈ s.stray, source.number = n

theorem Coherent.reliable (hs : s.Coherent) : s.Reliable where
  once := (List.pairwise_append.mp hs.sound.once).1
  order := (List.pairwise_append.mp hs.sound.order).1
  due source threw due hfin hdue :=
    hs.sound.due source (List.mem_append_left _ (List.mem_map.mpr ⟨_, hfin, rfl⟩)) due hdue
  set n threw := by
    refine ⟨hs.kept.earned n threw, ?_⟩
    rintro ⟨source, hfin, hpromise, rfl⟩
    exact hs.kept.set source threw hfin hpromise
  broken n hn := by
    refine ⟨hs.kept.broken n hn, fun source threw hfin hpromise hnumber => ?_⟩
    have hset := hs.kept.set source threw hfin hpromise
    rw [hnumber, hn] at hset
    exact (ofCall_ne threw).2.1 (Option.some.inj hset).symm
  ready hstopped n hn := by
    obtain ⟨source, hsource, -, hnumber⟩ := (hs.kept.pending n).mp hn
    rw [(hs.phased.stopped hstopped).1, List.nil_append] at hsource
    exact ⟨source, hsource, hnumber⟩

/-- In every run, whoever calls what and whatever the callbacks do: a callback runs at most
once, those of `enqueue` in order and those of `schedule_in` never early; a future is ready when
and only when its own callback has returned or thrown, or `stop` has returned, and stays so;
after `stop` no callback runs, and only what is enqueued then has a future that is never
ready. -/
theorem futures_reliable (before after : List LoopEvent) (s s' : EventLoop)
    (h : runFrom step start before = some s) (h' : runFrom step s after = some s') :
    s.Reliable ∧
      (∀ (n : ℕ) p, s.promises[n]? = some p → p ≠ .pending → s'.promises[n]? = some p) ∧
      (s.phase = .stopped → s'.finished = s.finished ∧
        ∀ n : ℕ, s.promises[n]? = some .pending → s'.promises[n]? = some .pending) := by
  have hs := run_coherent h
  refine ⟨hs.reliable, fun n p hn hp => ?_, fun hstopped => ?_⟩
  · exact (runFrom_invariant (I := fun t => t.Coherent ∧ t.promises[n]? = some p) h' ⟨hs, hn⟩
      fun ht hstep => ⟨step_coherent ht.1 hstep, step_forever ht.1 hstep hp ht.2⟩).2
  · have hlast := runFrom_invariant (I := fun t => t.Coherent ∧ t.phase = .stopped ∧
        t.finished = s.finished ∧ ∀ n : ℕ, s.promises[n]? = some .pending →
          t.promises[n]? = some .pending) h' ⟨hs, hstopped, rfl, fun _ hn => hn⟩ ?_
    · exact hlast.2.2
    · rintro t e t' ⟨ht, hphase, hfinished, hpending⟩ hstep
      obtain ⟨hphase', hfinished', hpromises⟩ := step_stopped ht hphase hstep
      exact ⟨step_coherent ht hstep, hphase', hfinished'.trans hfinished,
        fun n hn => hpromises n _ (hpending n hn)⟩

/-- The loop is stopped when one callback has thrown and another one is not due. -/
theorem futures_reliable_stopped :
    ∃ s s' : EventLoop, s.promises = [.value, .exception, .broken] ∧
      s'.promises = [.value, .exception, .broken, .pending] ∧ s.Reliable := by
  have hrun : (runFrom step start [.runLoop, .check, .poll [], .dispatch, .finish false,
      .constructed, .enqueue, .scheduleIn 5, .dispatch, .check, .poll [], .dispatch, .finish true,
      .quit, .dispatch, .check, .close]).any (fun s =>
        decide (s.promises = [.value, .exception, .broken]) &&
          (runFrom step s [.enqueue, .tick]).any fun s' =>
            decide (s'.promises = [.value, .exception, .broken, .pending])) = true := by
    decide
  obtain ⟨s, hs, hcheck⟩ := (Option.any_eq_true _ _).mp hrun
  obtain ⟨hpromises, hrest⟩ := Bool.and_eq_true_iff.mp hcheck
  obtain ⟨s', hs', hpromises'⟩ := (Option.any_eq_true _ _).mp hrest
  exact ⟨s, s', of_decide_eq_true hpromises, of_decide_eq_true hpromises',
    (futures_reliable _ _ s s' hs hs').1⟩

end EventLoop
end GemianLeds
