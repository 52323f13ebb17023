import GemianLeds.LightState.Commuting

/-! Animations under construction: the step list is both where a client builds an animation
and what every update loads, so a status change shows whatever is staged at that moment. -/
namespace GemianLeds

/-- The animation pushed last, given the one before the operation. -/
def Op.pushed (s : LightState) (pushed : List BlockAnimStep) : Op → List BlockAnimStep
  | .daemon .pushBlock => s.steps
  | .daemon (.torch on) => ((Op.daemon (.torch on)).set s).steps
  | _ => pushed

/-- The animation pushed last in a run. -/
def lastPushed (s : LightState) (pushed : List BlockAnimStep) : List Op → List BlockAnimStep
  | [] => pushed
  | op :: ops => lastPushed (op.next s) (op.pushed s pushed) ops

/-- The operations that reprogram the chip for a reason other than the animation. -/
def Op.changesStatus : Op → Bool
  | .daemon (.capsLock _) => true
  | .daemon (.call _ _) => true
  | .watcher _ => true
  | _ => false

/-- Whether an operation leaves steps staged that are not pushed yet. -/
def Op.staging (staging : Bool) : Op → Bool
  | .daemon (.setBlockRGB _) => true
  | .daemon .clearBlock => true
  | .daemon .pushBlock => false
  | .daemon (.torch _) => false
  | _ => staging

/-- No status change of a run comes between a clear or step request and the next push. -/
def Undisturbed (staging : Bool) : List Op → Prop
  | [] => True
  | op :: ops => (op.changesStatus → staging = false) ∧ Undisturbed (op.staging staging) ops

instance (staging : Bool) : (ops : List Op) → Decidable (Undisturbed staging ops)
  | [] => .isTrue trivial
  | op :: ops =>
    have := instDecidableUndisturbed (op.staging staging) ops
    inferInstanceAs (Decidable (_ ∧ _))

/-- Once an operation of the run has reprogrammed the chip, what was loaded last is what `update`
loads for the animation pushed last. -/
def ShowsPushed (s : LightState) (ops : List Op) : Prop :=
  (∃ op ∈ ops, op.callsUpdate) → lastUpdate s ops =
    some (update.run { runOps s ops with steps := lastPushed s [] ops }).output

/-- What holds after every operation: with nothing staged the steps are those pushed last, and
they are what was loaded last, if anything was. -/
structure PushedInvariant (s : LightState) (pushed : List BlockAnimStep) (staging : Bool)
    (log : List Write) : Prop where
  steps : staging = false → s.steps = pushed
  loaded : lastLoad log = none ∨ lastLoad log = some (updateWrites { s with steps := pushed })

/-- An operation that reprograms the chip from the animation pushed last. -/
theorem PushedInvariant.of_update {op : Op} (hop : op.callsUpdate) {s : LightState}
    {pushed : List BlockAnimStep} {staging : Bool} (hsteps : (op.next s).steps = pushed)
    (log : List Write) : PushedInvariant (op.next s) pushed staging (log ++ op.writes s) where
  steps _ := hsteps
  loaded := by
    obtain ⟨ws, hws⟩ := Op.writes_eq hop s
    right
    rw [hws, ← List.append_assoc, lastLoad_append_of_some (lastLoad_update _), ← hsteps]

theorem PushedInvariant.next {s : LightState} {pushed : List BlockAnimStep} {staging : Bool}
    {log : List Write} (h : PushedInvariant s pushed staging log) {op : Op}
    (hop : op.changesStatus → staging = false) :
    PushedInvariant (op.next s) (op.pushed s pushed) (op.staging staging) (log ++ op.writes s) := by
  rcases op with (_ | _ | _ | _ | _ | _) | (_ | _ | _)
  case daemon.setBlockRGB | daemon.clearBlock =>
    have hloaded := h.loaded
    rw [← List.append_nil log] at hloaded
    exact ⟨Bool.noConfusion, hloaded⟩
  case daemon.pushBlock | daemon.torch => exact .of_update rfl rfl log
  all_goals
    have hsteps : s.steps = pushed := h.steps (hop rfl)
    apply PushedInvariant.of_update rfl
    rw [Op.next_steps]
    exact hsteps

theorem PushedInvariant.run {s : LightState} {pushed : List BlockAnimStep} {staging : Bool}
    {log : List Write} (h : PushedInvariant s pushed staging log) {ops : List Op}
    (hops : Undisturbed staging ops) :
    PushedInvariant (runOps s ops) (lastPushed s pushed ops) (ops.foldl Op.staging staging)
      (log ++ opsWrites s ops) := by
  induction ops generalizing s pushed staging log with
  | nil => simpa [lastPushed] using h
  | cons op ops ih =>
    have hrun := ih (h.next hops.1) hops.2
    simpa only [runOps_cons, lastPushed, List.foldl_cons, opsWrites_cons, List.append_assoc]
      using hrun

/-- A run with an update in it loads something. -/
theorem lastUpdate_ne_none {ops : List Op} {op : Op} (hmem : op ∈ ops) (hop : op.callsUpdate)
    (s : LightState) : lastUpdate s ops ≠ none := by
  obtain ⟨before, after, rfl⟩ := List.append_of_mem hmem
  obtain ⟨ws, hws⟩ := Op.writes_eq hop (runOps s before)
  have hdisable : .reg GCR 0 ∈ updateWrites (op.next (runOps s before)) := List.mem_cons_self
  rw [lastUpdate, ne_eq, lastLoad_eq_none_iff, not_not, opsWrites_append, opsWrites_cons, hws]
  simp [hdisable]

/-- In every run whose status changes leave uploads undisturbed, what the last update loaded
is the animation pushed last. -/
theorem loaded_animation_is_pushed (pc : UInt32) (ops : List Op) (h : Undisturbed false ops) :
    ShowsPushed (.new pc) ops := by
  rintro ⟨op, hmem, hop⟩
  have hstart : PushedInvariant (.new pc) [] false [] := ⟨fun _ => rfl, .inl rfl⟩
  have hloaded := (hstart.run h).loaded
  rw [List.nil_append] at hloaded
  rw [update_run]
  exact hloaded.resolve_left (lastUpdate_ne_none hmem hop _)

/-- An upload, a caps-lock change, and a clear request that is not pushed. -/
theorem loaded_animation_is_pushed_upload :
    lastUpdate (.new 0) [.daemon (.setBlockRGB ⟨1, .red, .setPWM, 200⟩), .daemon .pushBlock,
        .daemon (.capsLock true), .daemon .clearBlock] =
      some (update.run
        { LightState.new 0 with
          capsLock := true
          steps := [⟨1, .red, .setPWM, 200⟩] }).output := by
  have h := loaded_animation_is_pushed 0 [.daemon (.setBlockRGB ⟨1, .red, .setPWM, 200⟩),
    .daemon .pushBlock, .daemon (.capsLock true), .daemon .clearBlock] (by decide)
    ⟨.daemon .pushBlock, by simp, rfl⟩
  rw [h, update_run, update_run]
  rfl

/-- A pushed step, a clear request and a caps-lock change: the step is gone before the next
push. -/
theorem status_change_shows_staged :
    ¬ ∀ (pc : UInt32) (ops : List Op), ShowsPushed (.new pc) ops := by
  intro hall
  have h := hall 0 [.daemon (.setBlockRGB ⟨1, .red, .setPWM, 200⟩), .daemon .pushBlock,
    .daemon .clearBlock, .daemon (.capsLock true)] ⟨.daemon .pushBlock, by simp, rfl⟩
  have hcaps : (Op.daemon (.capsLock true)).callsUpdate := rfl
  have hlast := lastUpdate_concat (.new 0) [.daemon (.setBlockRGB ⟨1, .red, .setPWM, 200⟩),
    .daemon .pushBlock, .daemon .clearBlock] hcaps
  rw [update_run] at h
  have hsame := Option.some.inj (hlast.symm.trans h)
  revert hsame
  decide

end GemianLeds
