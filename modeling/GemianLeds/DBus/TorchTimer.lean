import GemianLeds.DBus.LEDs

/-! Timed torch requests. Each arms a timer of its own, which switches the torch off when it
expires, whatever was requested since. The daemon performs what is queued in order, so here
an event performs its actions at once. -/
namespace GemianLeds

/-- A timer is known by the `SetTorch` request that armed it, counted from 1. -/
structure Session where
  light : LightState
  torchRequests : ℕ
  timers : List ℕ

inductive SessionEvent where
  | request (r : Request)
  | expire (armedBy : ℕ)

def Session.start (pc : UInt32) : Session := ⟨.new pc, 0, []⟩

def Request.torchCount : Request → ℕ
  | .setTorch _ _ => 1
  | _ => 0

def Session.step (sess : Session) : SessionEvent → Option Session
  | .request r =>
      let torchRequests := sess.torchRequests + r.torchCount
      some
        { light := runOps sess.light ((dbusMethodCall r).actions.map .daemon)
          torchRequests
          timers := sess.timers ++ ((dbusMethodCall r).timer.map fun _ => torchRequests).toList }
  | .expire armedBy =>
      if armedBy ∈ sess.timers then
        some
          { sess with
            light := runOps sess.light [.daemon (.torch false)]
            timers := sess.timers.erase armedBy }
      else none

def Session.run (sess : Session) : List SessionEvent → Option Session
  | [] => some sess
  | e :: events => (sess.step e).bind fun sess' => sess'.run events

/-- What a history leaves: whether the torch was last switched on, and whether a step was
accepted after both the last switch and the last clear request. -/
structure Latest where
  torchOn : Bool
  staged : Bool

def Latest.next (l : Latest) : SessionEvent → Latest
  | .request (.setTorch on _) => ⟨on, false⟩
  | .request (.setLEDBlockStep led _ type value) =>
      ⟨l.torchOn, l.staged || (verifyLed led && verifyType type && verifyValue type value)⟩
  | .request .clearLEDBlockAnimation => ⟨l.torchOn, false⟩
  | .expire _ => ⟨false, false⟩
  | .request _ => l

def latest (events : List SessionEvent) : Latest := events.foldl Latest.next ⟨false, false⟩

/-- The light state agrees with the history. -/
structure Agrees (l : Latest) (s : LightState) : Prop where
  power : s.powerLevels = if l.torchOn then POWER_LEVEL_20b111s else POWER_LEVEL_20b001s
  steps : l.torchOn = false → (s.steps = [] ↔ l.staged = false)

/-- Only `steps` and `powerLevels` matter to the agreement, and storing them is all an
operation does to them. -/
theorem Agrees.next {l : Latest} {op : Op} {s : LightState} (h : Agrees l (op.set s)) :
    Agrees l (runOps s [op]) := by
  rw [runOps_cons, runOps_nil]
  exact ⟨by rw [Op.next_powerLevels, h.power], by rw [Op.next_steps]; exact h.steps⟩

theorem agrees_request {l : Latest} {s : LightState} (h : Agrees l s) (r : Request) :
    Agrees (l.next (.request r)) (runOps s ((dbusMethodCall r).actions.map .daemon)) := by
  cases r with
  | setTorch on duration =>
    have hset : Agrees ⟨on, false⟩ ((Op.daemon (.torch on)).set s) := by
      cases on
      · exact ⟨rfl, by simp [Op.set]⟩
      · exact ⟨rfl, by simp⟩
    exact hset.next
  | setLEDBlockStep led colour type value =>
    have hnext : l.next (.request (.setLEDBlockStep led colour type value)) =
        ⟨l.torchOn, l.staged || (verifyLed led && verifyType type && verifyValue type value)⟩ := rfl
    rw [hnext]
    cases hv : verifyLed led && verifyType type && verifyValue type value with
    | true =>
      have hset : Agrees ⟨l.torchOn, true⟩
          ((Op.daemon (.setBlockRGB (castStep led colour type value))).set s) :=
        ⟨h.power, by simp [Op.set]⟩
      rw [dbusMethodCall, if_pos hv, Bool.or_true]
      exact hset.next
    | false =>
      rw [dbusMethodCall, if_neg (Bool.eq_false_iff.mp hv), Bool.or_false]
      exact h
  | clearLEDBlockAnimation =>
    have hset : Agrees ⟨l.torchOn, false⟩ ((Op.daemon .clearBlock).set s) :=
      ⟨h.power, by simp [Op.set]⟩
    exact hset.next
  | setCapsLock state =>
    have hset : Agrees l ((Op.daemon (.capsLock state)).set s) := ⟨h.power, h.steps⟩
    exact hset.next
  | pushLEDBlockAnimation =>
    have hset : Agrees l ((Op.daemon .pushBlock).set s) := h
    exact hset.next
  | setCall earpiece leftUp =>
    have hset : Agrees l ((Op.daemon (.call earpiece leftUp)).set s) := ⟨h.power, h.steps⟩
    exact hset.next
  | unknown method => exact h

/-- What an expiry does to the light state. -/
theorem expire_light {sess sess' : Session} {armedBy : ℕ}
    (h : sess.step (.expire armedBy) = some sess') :
    sess'.light = runOps sess.light [.daemon (.torch false)] := by
  rw [Session.step] at h
  by_cases hmem : armedBy ∈ sess.timers
  · rw [if_pos hmem] at h
    rw [← Option.some.inj h]
  · rw [if_neg hmem] at h
    simp at h

theorem agrees_step {l : Latest} {sess sess' : Session} {e : SessionEvent}
    (h : Agrees l sess.light) (hs : sess.step e = some sess') : Agrees (l.next e) sess'.light := by
  cases e with
  | request r =>
    obtain rfl := Option.some.inj hs
    exact agrees_request h r
  | expire armedBy =>
    have hset : Agrees ⟨false, false⟩ ((Op.daemon (.torch false)).set sess.light) :=
      ⟨rfl, by simp [Op.set]⟩
    rw [expire_light hs]
    exact hset.next

theorem agrees_run {l : Latest} {sess sess' : Session} {events : List SessionEvent}
    (h : Agrees l sess.light) (hs : sess.run events = some sess') :
    Agrees (events.foldl Latest.next l) sess'.light := by
  induction events generalizing l sess with
  | nil =>
    obtain rfl := Option.some.inj hs
    exact h
  | cons e events ih =>
    obtain ⟨sess₁, h₁, h₂⟩ := Option.bind_eq_some_iff.mp hs
    exact ih (agrees_step h h₁) h₂

/-- An expiry leaves the steps and the power levels as they are. -/
def Unchanged (sess sess' : Session) : Prop :=
  sess'.light.steps = sess.light.steps ∧ sess'.light.powerLevels = sess.light.powerLevels

/-- It does so exactly when the torch is off and no step is staged. -/
theorem expiry_unchanged_iff {l : Latest} {sess sess' : Session} {armedBy : ℕ}
    (h : Agrees l sess.light) (hexpire : sess.step (.expire armedBy) = some sess') :
    Unchanged sess sess' ↔ l.torchOn = false ∧ l.staged = false := by
  have hne : POWER_LEVEL_20b001s ≠ POWER_LEVEL_20b111s := by decide
  simp only [Unchanged, expire_light hexpire, runOps_cons, runOps_nil, Op.next_steps,
    Op.next_powerLevels, Op.set, cond_false, h.power]
  cases hon : l.torchOn with
  | true => simp [hne]
  | false =>
    rw [← h.steps hon]
    simp [eq_comm]

/-- In every session, a timer that expires after a later `SetTorch` request leaves the steps
and the power levels alone exactly when the torch was switched off last, by a request or an
expiry, and no step has been accepted since the later of that and the last clear request. -/
theorem stale_expiry_unchanged_iff (pc : UInt32) (events : List SessionEvent)
    (sess sess' : Session) (armedBy : ℕ) (hrun : (Session.start pc).run events = some sess)
    (hexpire : sess.step (.expire armedBy) = some sess') :
    (armedBy < sess.torchRequests → Unchanged sess sess') ↔
      (armedBy < sess.torchRequests →
        (latest events).torchOn = false ∧ (latest events).staged = false) := by
  have hstart : Agrees ⟨false, false⟩ (Session.start pc).light :=
    ⟨rfl, by simp [Session.start, LightState.new]⟩
  rw [expiry_unchanged_iff (agrees_run hstart hrun) hexpire]
  rfl

/-- A timed request, then a request that switches the torch off: the late expiry does nothing. -/
theorem stale_expiry_unchanged_iff_off :
    ∃ sess sess', (Session.start 0).run
        [.request (.setTorch true 1000), .request (.setTorch false 0)] = some sess ∧
      sess.step (.expire 1) = some sess' ∧ Unchanged sess sess' :=
  ⟨_, _, rfl, rfl, (stale_expiry_unchanged_iff 0
    [.request (.setTorch true 1000), .request (.setTorch false 0)] _ _ 1 rfl rfl).mpr
      (fun _ => by decide) (by decide)⟩

/-- A timed request, an off and an on: the first timer switches the second torch off. -/
theorem stale_timer_switches_torch_off :
    ¬ ∀ (pc : UInt32) (events : List SessionEvent) (sess sess' : Session) (armedBy : ℕ),
      (Session.start pc).run events = some sess → sess.step (.expire armedBy) = some sess' →
      armedBy < sess.torchRequests → Unchanged sess sess' := by
  intro hall
  have hunchanged := hall 0
    [.request (.setTorch true 1000), .request (.setTorch false 0), .request (.setTorch true 0)]
    _ _ 1 rfl rfl (by decide)
  exact absurd hunchanged.1 (by decide)

end GemianLeds
