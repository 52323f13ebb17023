import GemianLeds.Interaction.Runs
import Mathlib.Data.List.Basic
import Mathlib.Algebra.Ring.Int.Defs

/-! `EventLoop`: a thread that runs the main loop of its own main context, and callers that hand
it callbacks from any thread and may wait until these have run. -/
namespace GemianLeds
open Interaction

/-- What waits in the main context: a callback given to `enqueue` or `schedule_in`, one given to
`watch_fd`, or a message that GDBus has put there for one of its own handlers. -/
inductive SourceKind where
  | idle
  | timeout (due : ℕ)
  | fd
  | message
  deriving DecidableEq

/-- A `GSourceContext` owns a promise; the other contexts have none. -/
def SourceKind.hasPromise : SourceKind → Bool
  | .idle | .timeout _ => true
  | .fd | .message => false

/-- All but idle sources have the default priority, which is the higher one. -/
def SourceKind.isIdle : SourceKind → Bool
  | .idle => true
  | _ => false

/-- Sources are numbered in the order in which they are made. -/
structure GSource where
  number : ℕ
  kind : SourceKind
  deriving DecidableEq

/-- The promise `done` of a source, if it has one. It is broken when it is destroyed unset. -/
inductive PromiseState where
  | absent
  | pending
  | value
  | exception
  | broken
  deriving DecidableEq

def SourceKind.promise (kind : SourceKind) : PromiseState :=
  bif kind.hasPromise then .pending else .absent

/-- `set_value` when the callback has returned, `set_exception` when it has thrown. -/
def PromiseState.ofCall (threw : Bool) : PromiseState := bif threw then .exception else .value

/-- Where `loop_thread` is: before `g_main_loop_run` has set `is_running`, at the test of
`is_running`, in an iteration before and after it has found out what is ready, inside a callback,
perhaps waiting for a future there, or done. -/
inductive LoopPoint where
  | starting
  | checking
  | polling
  | dispatching (batch : List GSource)
  | calling (source : GSource) (waitsFor : Option ℕ) (batch : List GSource)
  | exited
  deriving DecidableEq

/-- How far the owner of the object is: in the constructor, after it, in `stop` once
`g_main_loop_quit` has been called, or after the rest of `stop`. -/
inductive LoopPhase where
  | constructing
  | constructed
  | stopping
  | stopped
  deriving DecidableEq

/-- `sources` are attached to `main_context`, in order. `stray` are the sources that were
attached when `main_context` was null already, and so to the default context, which no thread
iterates. `finished` are those whose callbacks have run, and whether they threw. -/
structure EventLoop where
  now : ℕ
  phase : LoopPhase
  running : Bool
  point : LoopPoint
  sources : List GSource
  stray : List GSource
  promises : List PromiseState
  finished : List (GSource × Bool)

inductive LoopEvent where
  | enqueue
  | scheduleIn (timeout : ℤ)
  | watchFd
  | message
  | constructed
  | quit
  | close
  | tick
  | runLoop
  | check
  | poll (readable : List ℕ)
  | dispatch
  | wait (number : ℕ)
  | waited
  | finish (threw : Bool)

/-- The steps of `loop_thread`. -/
def LoopEvent.ofThread : LoopEvent → Bool
  | .runLoop | .check | .poll _ | .dispatch | .wait _ | .waited | .finish _ => true
  | _ => false

/-- The steps of `loop_thread`, but for those inside a callback. -/
def LoopEvent.ofLoop : LoopEvent → Bool
  | .runLoop | .check | .poll _ | .dispatch | .finish _ => true
  | _ => false

def LoopEvent.attaches : LoopEvent → Bool
  | .enqueue | .scheduleIn _ | .watchFd | .message => true
  | _ => false

namespace EventLoop

/-- In the constructor, when `loop_thread` has been created and `[]{}` enqueued. -/
def start : EventLoop where
  now := 0
  phase := .constructing
  running := false
  point := .starting
  sources := [⟨0, .idle⟩]
  stray := []
  promises := [.pending]
  finished := []

/-- `g_source_attach`. -/
def attach (s : EventLoop) (kind : SourceKind) : EventLoop :=
  let source : GSource := ⟨s.promises.length, kind⟩
  let promises := s.promises ++ [kind.promise]
  if s.phase = .stopped then { s with promises, stray := s.stray ++ [source] }
  else { s with promises, sources := s.sources ++ [source] }

/-- The argument of `g_timeout_source_new` is a `guint`. -/
def scheduleIn (s : EventLoop) (timeout : ℤ) : EventLoop :=
  s.attach (.timeout (s.now + (timeout % 2 ^ 32).toNat))

/-- What the iteration finds ready at the default priority, with the descriptors that poll says
are readable. -/
def ready (s : EventLoop) (readable : List ℕ) (source : GSource) : Bool :=
  match source.kind with
  | .idle => false
  | .timeout due => due ≤ s.now
  | .fd => source.number ∈ readable
  | .message => true

/-- What one iteration is going to dispatch: what is ready at the default priority, or if there
is nothing, what is idle. -/
def batch (s : EventLoop) (readable : List ℕ) : List GSource :=
  match s.sources.filter (s.ready readable) with
  | [] => s.sources.filter (·.kind.isIdle)
  | batch => batch

/-- `~GSourceContext` for all sources that the context still has. -/
def breakPromises (s : EventLoop) : List PromiseState :=
  s.promises.mapIdx fun number p =>
    if p = .pending ∧ ∃ source ∈ s.sources, source.number = number then .broken else p

/-- `static_call`, when the callback has returned or thrown. Only a descriptor is watched on. -/
def finish (s : EventLoop) (source : GSource) (threw : Bool) (batch : List GSource) : EventLoop :=
  { s with
    point := .dispatching batch
    sources := if source.kind = .fd then s.sources else s.sources.erase source
    promises :=
      bif source.kind.hasPromise then
        s.promises.set source.number (.ofCall threw)
      else s.promises
    finished := s.finished ++ [(source, threw)] }

/-- Callers have the object once it is constructed. An iteration blocks while nothing is ready,
unless the loop has been quit. -/
def step (s : EventLoop) : LoopEvent → Option EventLoop
  | .enqueue => if s.phase = .constructing then none else some (s.attach .idle)
  | .scheduleIn timeout => if s.phase = .constructing then none else some (s.scheduleIn timeout)
  | .watchFd => if s.phase = .constructing then none else some (s.attach .fd)
  | .message =>
      if s.phase = .constructing ∨ s.phase = .stopped then none else some (s.attach .message)
  | .constructed =>
      if s.phase = .constructing ∧ s.promises[0]? ≠ some .pending then
        some { s with phase := .constructed }
      else none
  | .quit =>
      if s.phase = .constructed ∨ s.phase = .stopping then
        some { s with phase := .stopping, running := false }
      else none
  | .close =>
      if s.phase = .stopping ∧ s.point = .exited then
        some { s with phase := .stopped, sources := [], promises := s.breakPromises }
      else none
  | .tick => some { s with now := s.now + 1 }
  | .runLoop =>
      match s.point with
      | .starting => some { s with point := .checking, running := true }
      | _ => none
  | .check =>
      match s.point with
      | .checking => some { s with point := bif s.running then .polling else .exited }
      | _ => none
  | .poll readable =>
      match s.point with
      | .polling =>
          if s.batch readable = [] ∧ s.running then none
          else some { s with point := .dispatching (s.batch readable) }
      | _ => none
  | .dispatch =>
      match s.point with
      | .dispatching [] => some { s with point := .checking }
      | .dispatching (source :: batch) => some { s with point := .calling source none batch }
      | _ => none
  | .wait number =>
      match s.point with
      | .calling source none batch =>
          if number < s.promises.length then
            some { s with point := .calling source (some number) batch }
          else none
      | _ => none
  | .waited =>
      match s.point with
      | .calling source (some number) batch =>
          if s.promises[number]? = some .pending then none
          else some { s with point := .calling source none batch }
      | _ => none
  | .finish threw =>
      match s.point with
      | .calling source none batch => some (s.finish source threw batch)
      | _ => none

/-- Everything one step can do. -/
inductive Effect (s s' : EventLoop) : LoopEvent → Prop where
  | attaches (e : LoopEvent) (kind : SourceKind) (he : e.attaches = true)
      (hopen : s.phase ≠ .constructing) (hs' : s' = s.attach kind) : Effect s s' e
  | constructs (hphase : s.phase = .constructing) (hready : s.promises[0]? ≠ some .pending)
      (hs' : s' = { s with phase := .constructed }) : Effect s s' .constructed
  | quits (hphase : s.phase = .constructed ∨ s.phase = .stopping)
      (hs' : s' = { s with phase := .stopping, running := false }) : Effect s s' .quit
  | closes (hphase : s.phase = .stopping) (hpoint : s.point = .exited)
      (hs' : s' = { s with phase := .stopped, sources := [], promises := s.breakPromises }) :
      Effect s s' .close
  | ticks (hs' : s' = { s with now := s.now + 1 }) : Effect s s' .tick
  | runs (hpoint : s.point = .starting)
      (hs' : s' = { s with point := .checking, running := true }) : Effect s s' .runLoop
  | checks (hpoint : s.point = .checking)
      (hs' : s' = { s with point := bif s.running then .polling else .exited }) :
      Effect s s' .check
  | polls (readable : List ℕ) (hpoint : s.point = .polling)
      (hready : s.running = true → s.batch readable ≠ [])
      (hs' : s' = { s with point := .dispatching (s.batch readable) }) :
      Effect s s' (.poll readable)
  | iterates (hpoint : s.point = .dispatching []) (hs' : s' = { s with point := .checking }) :
      Effect s s' .dispatch
  | calls (source : GSource) (batch : List GSource)
      (hpoint : s.point = .dispatching (source :: batch))
      (hs' : s' = { s with point := .calling source none batch }) : Effect s s' .dispatch
  | waits (number : ℕ) (source : GSource) (batch : List GSource)
      (hpoint : s.point = .calling source none batch) (hnumber : number < s.promises.length)
      (hs' : s' = { s with point := .calling source (some number) batch }) :
      Effect s s' (.wait number)
  | resumes (number : ℕ) (source : GSource) (batch : List GSource)
      (hpoint : s.point = .calling source (some number) batch)
      (hready : s.promises[number]? ≠ some .pending)
      (hs' : s' = { s with point := .calling source none batch }) : Effect s s' .waited
  | finishes (threw : Bool) (source : GSource) (batch : List GSource)
      (hpoint : s.point = .calling source none batch) (hs' : s' = s.finish source threw batch) :
      Effect s s' (.finish threw)

theorem step_effect {s s' : EventLoop} {e : LoopEvent} (h : s.step e = some s') :
    Effect s s' e := by
  unfold step at h
  cases e with
  | enqueue | watchFd =>
    obtain ⟨hopen, hs'⟩ := Option.ite_none_left_eq_some.mp h
    exact .attaches _ _ rfl hopen (Option.some.inj hs').symm
  | scheduleIn timeout =>
    obtain ⟨hopen, hs'⟩ := Option.ite_none_left_eq_some.mp h
    exact .attaches _ _ rfl hopen (Option.some.inj hs').symm
  | message =>
    obtain ⟨hopen, hs'⟩ := Option.ite_none_left_eq_some.mp h
    exact .attaches _ _ rfl (fun hphase => hopen (.inl hphase)) (Option.some.inj hs').symm
  | constructed =>
    obtain ⟨⟨hphase, hready⟩, hs'⟩ := Option.ite_none_right_eq_some.mp h
    exact .constructs hphase hready (Option.some.inj hs').symm
  | quit =>
    obtain ⟨hphase, hs'⟩ := Option.ite_none_right_eq_some.mp h
    exact .quits hphase (Option.some.inj hs').symm
  | close =>
    obtain ⟨⟨hphase, hpoint⟩, hs'⟩ := Option.ite_none_right_eq_some.mp h
    exact .closes hphase hpoint (Option.some.inj hs').symm
  | tick => exact .ticks (Option.some.inj h).symm
  | runLoop =>
    simp only at h
    split at h
    next hpoint => exact .runs hpoint (Option.some.inj h).symm
    next => cases h
  | check =>
    simp only at h
    split at h
    next hpoint => exact .checks hpoint (Option.some.inj h).symm
    next => cases h
  | poll readable =>
    simp only at h
    split at h
    next hpoint =>
      obtain ⟨hready, hs'⟩ := Option.ite_none_left_eq_some.mp h
      exact .polls readable hpoint (fun hrunning hnone => hready ⟨hnone, hrunning⟩)
        (Option.some.inj hs').symm
    next => cases h
  | dispatch =>
    simp only at h
    split at h
    next hpoint => exact .iterates hpoint (Option.some.inj h).symm
    next source batch hpoint => exact .calls source batch hpoint (Option.some.inj h).symm
    next => cases h
  | wait number =>
    simp only at h
    split at h
    next source batch hpoint =>
      obtain ⟨hnumber, hs'⟩ := Option.ite_none_right_eq_some.mp h
      exact .waits number source batch hpoint hnumber (Option.some.inj hs').symm
    next => cases h
  | waited =>
    simp only at h
    split at h
    next source number batch hpoint =>
      obtain ⟨hready, hs'⟩ := Option.ite_none_left_eq_some.mp h
      exact .resumes number source batch hpoint hready (Option.some.inj hs').symm
    next => cases h
  | finish threw =>
    simp only at h
    split at h
    next source batch hpoint =>
      exact .finishes threw source batch hpoint (Option.some.inj h).symm
    next => cases h

end EventLoop
end GemianLeds
