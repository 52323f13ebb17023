import GemianLeds.System.Following
import GemianLeds.Program.Budget
import GemianLeds.Program.Frames

/-! How clients show an animation: clear what is there, send the steps, push. What the chip then
plays is the animation of the steps that were accepted, whatever else goes on. -/
namespace GemianLeds
open Interaction

/-- The step that a request adds. -/
def SessionEvent.staged : SessionEvent → Option BlockAnimStep
  | .request (.setLEDBlockStep led colour type value) =>
      if verifyLed led && verifyType type && verifyValue type value then
        some (castStep led colour type value)
      else none
  | _ => none

/-- Neither the torch nor a clear request replaces the steps. -/
def SessionEvent.keepsSteps : SessionEvent → Bool
  | .request (.setTorch _ _) | .request .clearLEDBlockAnimation | .expire _ => false
  | _ => true

theorem perform_keeps {e : SessionEvent} (he : e.keepsSteps = true) (r : Requested) :
    (e.actions.foldl Requested.perform r).steps = r.steps ++ e.staged.toList := by
  cases e with
  | expire armedBy => cases he
  | request request =>
    cases request with
    | setTorch on duration | clearLEDBlockAnimation => cases he
    | setLEDBlockStep led colour type value =>
      unfold SessionEvent.actions SessionEvent.staged dbusMethodCall
      simp only
      split
      · rfl
      · exact (List.append_nil _).symm
    | setCapsLock state | pushLEDBlockAnimation | setCall earpiece leftUp | unknown method =>
      exact (List.append_nil _).symm

theorem performs_keep {events : List SessionEvent} (h : ∀ e ∈ events, e.keepsSteps = true)
    (r : Requested) :
    ((events.flatMap SessionEvent.actions).foldl Requested.perform r).steps =
      r.steps ++ events.filterMap SessionEvent.staged := by
  induction events generalizing r with
  | nil => exact (List.append_nil _).symm
  | cons e events ih =>
    have hrest := ih (fun e' he' => h e' (.tail e he')) (e.actions.foldl Requested.perform r)
    rw [List.flatMap_cons, List.foldl_append, hrest, perform_keeps (h e List.mem_cons_self),
      List.append_assoc]
    cases hstaged : e.staged with
    | none => rw [List.filterMap_cons_none hstaged]; rfl
    | some step => rw [List.filterMap_cons_some hstaged]; rfl

theorem staged_accepted {events : List SessionEvent} :
    ∀ step ∈ events.filterMap SessionEvent.staged, Accepted step := by
  intro step hstep
  obtain ⟨e, -, hstaged⟩ := List.mem_filterMap.mp hstep
  unfold SessionEvent.staged at hstaged
  split at hstaged
  next led colour type value =>
    split at hstaged
    next hverified =>
      simp only [Bool.and_eq_true] at hverified
      exact ⟨led, colour, type, value, hverified.1.1, hverified.1.2, hverified.2,
        (Option.some.inj hstaged).symm⟩
    next => cases hstaged
  next => cases hstaged

/-- What neither replaces nor adds steps updates, if it does anything. -/
theorem actions_update {e : SessionEvent} (hkeeps : e.keepsSteps = true) (hnone : e.staged = none) :
    ∀ action ∈ e.actions, (Op.daemon action).callsUpdate = true := by
  intro action haction
  cases e with
  | expire armedBy => cases hkeeps
  | request request =>
    cases request with
    | setTorch on duration | clearLEDBlockAnimation => cases hkeeps
    | setLEDBlockStep led colour type value =>
      unfold SessionEvent.actions dbusMethodCall at haction
      unfold SessionEvent.staged at hnone
      simp only at haction hnone
      split at hnone
      next => cases hnone
      next hrejected =>
        rw [if_neg hrejected] at haction
        cases haction
    | unknown method => cases haction
    | setCapsLock state | pushLEDBlockAnimation | setCall earpiece leftUp =>
      rw [List.mem_singleton.mp haction]
      rfl

/-- An upload: after a clear request the steps, then a push request; around it anything that
keeps the steps. -/
def Uploads (handed : List SessionEvent) (steps : List BlockAnimStep) : Prop :=
  ∃ before between after,
    handed =
      before ++ .request .clearLEDBlockAnimation ::
        (between ++ .request .pushLEDBlockAnimation :: after) ∧
    (∀ e ∈ between, e.keepsSteps = true) ∧ between.filterMap SessionEvent.staged = steps ∧
    ∀ e ∈ after, e.keepsSteps = true ∧ e.staged = none

variable {handed : List SessionEvent} {steps : List BlockAnimStep}

theorem Uploads.accepted (h : Uploads handed steps) : ∀ step ∈ steps, Accepted step := by
  obtain ⟨-, between, -, -, -, rfl, -⟩ := h
  exact staged_accepted

theorem Uploads.requested_steps (h : Uploads handed steps) (r : Requested) :
    ((handed.flatMap SessionEvent.actions).foldl Requested.perform r).steps = steps := by
  obtain ⟨before, between, after, rfl, hbetween, rfl, hafter⟩ := h
  have hnone : after.filterMap SessionEvent.staged = [] :=
    List.filterMap_eq_nil_iff.mpr fun e he => (hafter e he).2
  have hkeep : ∀ e ∈ between ++ .request .pushLEDBlockAnimation :: after, e.keepsSteps = true := by
    intro e he
    rcases List.mem_append.mp he with he | he
    · exact hbetween e he
    · rcases List.mem_cons.mp he with rfl | he
      · rfl
      · exact (hafter e he).1
  rw [List.flatMap_append, List.flatMap_cons, List.foldl_append, List.foldl_append,
    performs_keep hkeep, List.filterMap_append, List.filterMap_cons_none rfl, hnone,
    List.append_nil]
  rfl

/-- The last action of an upload updates. -/
theorem Uploads.last (h : Uploads handed steps) :
    ∃ action, (handed.flatMap SessionEvent.actions).getLast? = some action ∧
      (Op.daemon action).callsUpdate = true := by
  obtain ⟨before, between, after, rfl, -, -, hafter⟩ := h
  have hupdate : ∀ action ∈ .pushBlock :: after.flatMap SessionEvent.actions,
      (Op.daemon action).callsUpdate = true := by
    intro action haction
    rcases List.mem_cons.mp haction with rfl | haction
    · rfl
    · obtain ⟨e, he, haction⟩ := List.mem_flatMap.mp haction
      exact actions_update (hafter e he).1 (hafter e he).2 action haction
  have hne : DaemonAction.pushBlock :: after.flatMap SessionEvent.actions ≠ [] :=
    List.cons_ne_nil _ _
  refine ⟨_, ?_, hupdate _ (List.getLast_mem hne)⟩
  rw [← List.getLast?_eq_some_getLast hne]
  simp only [List.flatMap_append, List.flatMap_cons]
  change (_ ++ ([DaemonAction.clearBlock] ++ (_ ++
    (.pushBlock :: after.flatMap SessionEvent.actions)))).getLast? = _
  rw [← List.append_assoc, ← List.append_assoc, List.getLast?_append_of_ne_nil _ hne]

/-- As many steps always fit. -/
theorem program_fits {s : LightState} (hpower : s.powerState = 0)
    (h : ∀ step ∈ s.steps, StepOk step) (hfew : s.steps.length ≤ 237) :
    (program s).length ≤ 256 := by
  suffices hwords : wordsBeforeBranch s < 256 by
    have hlength := program_length h
    omega
  by_cases hshort : hasDelay s.steps ∨ s.callEarpiece
  · have hle := wordsBeforeBranch_le hpower hshort
    omega
  · obtain ⟨hdelay, hcall⟩ := not_or.mp hshort
    have hcaps := s.capsLock.toNat_le
    have hconnected := connected_le s
    have hwords := wordsBeforeBranch_status hpower (Bool.eq_false_iff.mpr hdelay)
      (Bool.eq_false_iff.mpr hcall)
    split_ifs at hwords <;> omega

/-- Whatever else happens and in whatever order, as long as operations on the light state do not
overlap: when an animation of at most 237 accepted steps was uploaded last, nothing waits in the
queue and the watcher is quiet, the chip plays that animation, pass by pass, with connman's states
beside it. -/
theorem uploaded_animation_plays (fade : Fade → ℕ → ℕ → ℕ) (powered : Technology → Bool)
    (pc : UInt32) (b : Board) (events : List DeviceEvent) (s : Device)
    (steps : List BlockAnimStep)
    (h : runFrom (Device.step (rampOf fade)) (.start powered pc b) events = some s)
    (hupload : Uploads s.leds.handed steps) (hfew : steps.length ≤ 237)
    (hqueue : s.daemon.waiting = []) (hquiet : s.watcher.Quiet) :
    s.watcher.light.steps = steps ∧
      (∀ t, connectivityOf s.watcher.light t = s.watcher.powered t) ∧
      ∃ (b' : Board) (n : ℕ),
        s.board = (Board.tick (rampOf fade))^[n] (b'.writes (update.run s.watcher.light).output) ∧
        ∀ k, passFrames (rampOf fade) (b'.writes (update.run s.watcher.light).output)
            s.watcher.light k =
          (animation fade).shown Cue.halfMs (cues s.watcher.light)
            (panelBefore fade s.watcher.light k) := by
  simp only [update_run]
  have hs := Device.run_follows h
  obtain ⟨sess, hrun, -⟩ := hs.leds.session
  obtain ⟨action, hlast, hupdate⟩ := hupload.last
  obtain ⟨-, b', n, hboard⟩ := hs.plays hqueue hlast hupdate
  rw [update_run] at hboard
  have hrequested := hs.requested hrun
  rw [hqueue] at hrequested
  have hstarted : s.watcher.Started := by
    apply hs.started
    intro hnone
    rw [hnone] at hlast
    cases hlast
  have hsteps : s.watcher.light.steps = steps := by
    have hsession := congrArg Requested.steps (Session.run_requested hrun)
    rw [hupload.requested_steps] at hsession
    exact (congrArg Requested.steps hrequested).trans hsession
  have hok : ∀ step ∈ s.watcher.light.steps, StepOk step := by
    intro step hstep
    rw [hsteps] at hstep
    exact .inl (hupload.accepted step hstep)
  have hpower : s.watcher.light.powerState = 0 := by
    rw [hs.light]
    exact runOps_powerState pc s.performed
  have hfit := program_fits hpower hok (by rw [hsteps]; exact hfew)
  exact ⟨hsteps, hs.connectivity hstarted hquiet, b', n, hboard, passFrames_eq fade b' hok hfit⟩

/-- A fade between two delays with a step for an LED that there is not, and the wifi goes on
before the push request comes. -/
theorem uploaded_animation_plays_fade :
    ∃ s : Device,
      runFrom (Device.step (rampOf fun _ _ _ => 255)) (.start (fun _ => false) 0 .blank)
          (startUp ++ [.bus (.send .clearLEDBlockAnimation),
            .bus (.send (.setLEDBlockStep 1 0 3 5)), .bus (.send (.setLEDBlockStep 9 0 0 9)),
            .bus (.send (.setLEDBlockStep 2 2 1 60)), .bus .handle, .bus .handle, .bus .handle,
            .bus .handle, .connman (.change .wifi true), .connman .arrive, .connman .dispatch] ++
            performNext ++ performNext ++ performNext ++
            [.bus (.send .pushLEDBlockAnimation), .bus .handle] ++ performNext ++ [.tick]) =
          some s ∧
        s.watcher.light.steps = [castStep 1 0 3 5, castStep 2 2 1 60] ∧
        connectivityOf s.watcher.light .wifi = true := by
  have hrun : ((runFrom (Device.step (rampOf fun _ _ _ => 255)) (.start (fun _ => false) 0 .blank)
      (startUp ++ [.bus (.send .clearLEDBlockAnimation),
        .bus (.send (.setLEDBlockStep 1 0 3 5)), .bus (.send (.setLEDBlockStep 9 0 0 9)),
        .bus (.send (.setLEDBlockStep 2 2 1 60)), .bus .handle, .bus .handle, .bus .handle,
        .bus .handle, .connman (.change .wifi true), .connman .arrive, .connman .dispatch] ++
        performNext ++ performNext ++ performNext ++
        [.bus (.send .pushLEDBlockAnimation), .bus .handle] ++ performNext ++ [.tick])).any
      fun s =>
        s.leds.handed =
            [.request .clearLEDBlockAnimation, .request (.setLEDBlockStep 1 0 3 5),
              .request (.setLEDBlockStep 9 0 0 9), .request (.setLEDBlockStep 2 2 1 60),
              .request .pushLEDBlockAnimation] ∧
          s.watcher.powered .wifi = true ∧ s.daemon.waiting = [] ∧ s.watcher.wire.isEmpty ∧
          s.watcher.queue.isEmpty) = true := by
    decide +kernel
  obtain ⟨s, hs, hchecked⟩ := (Option.any_eq_true _ _).mp hrun
  obtain ⟨hhanded, hwifi, hqueue, hwire, hdispatched⟩ := of_decide_eq_true hchecked
  have hupload : Uploads s.leds.handed [castStep 1 0 3 5, castStep 2 2 1 60] :=
    ⟨[], [.request (.setLEDBlockStep 1 0 3 5), .request (.setLEDBlockStep 9 0 0 9),
      .request (.setLEDBlockStep 2 2 1 60)], [], hhanded, by decide, rfl, by simp⟩
  obtain ⟨hsteps, hconnectivity, -⟩ :=
    uploaded_animation_plays (fun _ _ _ => 255) (fun _ => false) 0 .blank _ s _ hs hupload
      (by decide) hqueue ⟨List.isEmpty_iff.mp hwire, List.isEmpty_iff.mp hdispatched⟩
  exact ⟨s, hs, hsteps, (hconnectivity .wifi).trans hwifi⟩

end GemianLeds
