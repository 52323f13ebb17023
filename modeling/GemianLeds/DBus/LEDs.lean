import GemianLeds.LightState.Operations

/-! The D-Bus interface of the daemon: which requests are accepted, and the actions each of
them queues. -/
namespace GemianLeds

def verifyValue (type value : UInt32) : Bool :=
  (type = BlockStepType.delay.toUInt32 && value < 1024) || value < 256

def verifyType (type : UInt32) : Bool := type < BlockStepType.max.toUInt32

def verifyLed (led : UInt32) : Bool := led > 0 && led < 6

/-- The methods of the interface, with the arguments their signatures unpack. -/
inductive Request where
  | setCapsLock (state : Bool)
  | setLEDBlockStep (led colour type value : UInt32)
  | clearLEDBlockAnimation
  | pushLEDBlockAnimation
  | setTorch (on : Bool) (duration : UInt32)
  | setCall (earpiece leftUp : Bool)
  | unknown (method : String)
  deriving DecidableEq

inductive Reply where
  | value
  | error (name message : String)
  deriving DecidableEq

/-- What handling a request does: the handler calls, which the daemon queues in this order,
the timer it arms, in milliseconds, and the reply. -/
structure Handled where
  actions : List DaemonAction
  timer : Option UInt32
  reply : Reply

/-- The step a request stands for after the casts to `int` and to the enumerations. -/
def castStep (led colour type value : UInt32) : BlockAnimStep :=
  ⟨led.toInt32, .ofUInt32 colour, .ofUInt32 type, value⟩

def dbusMethodCall : Request → Handled
  | .setCapsLock state => ⟨[.capsLock state], none, .value⟩
  | .setLEDBlockStep led colour type value =>
      if verifyLed led && verifyType type && verifyValue type value then
        ⟨[.setBlockRGB (castStep led colour type value)], none, .value⟩
      else
        ⟨[], none, .value⟩
  | .clearLEDBlockAnimation => ⟨[.clearBlock], none, .value⟩
  | .pushLEDBlockAnimation => ⟨[.pushBlock], none, .value⟩
  | .setTorch on duration =>
      ⟨[.torch on], if on && duration > 0 then some duration else none, .value⟩
  | .setCall earpiece leftUp => ⟨[.call earpiece leftUp], none, .value⟩
  | .unknown _ => ⟨[], none, .error "G_DBUS_ERROR_NOT_SUPPORTED" ""⟩

/-- A step that an accepted `SetLEDBlockStep` request stores. -/
def Accepted (step : BlockAnimStep) : Prop :=
  ∃ led colour type value, verifyLed led ∧ verifyType type ∧ verifyValue type value ∧
    step = castStep led colour type value

/-- What the three checks leave of a step: one of the five LEDs, any colour, one of the four
types, and a value within the limit of the type. -/
structure Checked (step : BlockAnimStep) : Prop where
  led : step.led = 1 ∨ step.led = 2 ∨ step.led = 3 ∨ step.led = 4 ∨ step.led = 5
  value : step.type = .delay ∧ step.value.toNat < 1024 ∨
    (step.type = .setPWM ∨ step.type = .fadeIn ∨ step.type = .fadeOut) ∧ step.value.toNat < 256

theorem uint32_eq_of_toNat {n : UInt32} {k : ℕ} (h : n.toNat = k) : n = UInt32.ofNat k := by
  rw [← h, UInt32.ofNat_toNat]

theorem verifyLed_cases {led : UInt32} (h : verifyLed led) :
    led = 1 ∨ led = 2 ∨ led = 3 ∨ led = 4 ∨ led = 5 := by
  simp only [verifyLed, gt_iff_lt, Bool.and_eq_true, decide_eq_true_eq,
    UInt32.lt_iff_toNat_lt] at h
  obtain ⟨h0, h6⟩ := h
  change 0 < led.toNat at h0
  change led.toNat < 6 at h6
  have hled : led.toNat = 1 ∨ led.toNat = 2 ∨ led.toNat = 3 ∨ led.toNat = 4 ∨ led.toNat = 5 := by
    omega
  exact hled.imp uint32_eq_of_toNat (.imp uint32_eq_of_toNat (.imp uint32_eq_of_toNat
    (.imp uint32_eq_of_toNat uint32_eq_of_toNat)))

theorem verifyType_cases {type : UInt32} (h : verifyType type) :
    type = 0 ∨ type = 1 ∨ type = 2 ∨ type = 3 := by
  simp only [verifyType, decide_eq_true_eq, UInt32.lt_iff_toNat_lt] at h
  change type.toNat < 4 at h
  have htype : type.toNat = 0 ∨ type.toNat = 1 ∨ type.toNat = 2 ∨ type.toNat = 3 := by omega
  exact htype.imp uint32_eq_of_toNat (.imp uint32_eq_of_toNat
    (.imp uint32_eq_of_toNat uint32_eq_of_toNat))

theorem Accepted.checked {step : BlockAnimStep} (h : Accepted step) : Checked step := by
  obtain ⟨led, colour, type, value, hl, ht, hv, rfl⟩ := h
  constructor
  · rcases verifyLed_cases hl with rfl | rfl | rfl | rfl | rfl <;> simp [castStep]
  · simp only [verifyValue, Bool.or_eq_true, Bool.and_eq_true, decide_eq_true_eq,
      UInt32.lt_iff_toNat_lt] at hv
    change (_ ∧ value.toNat < 1024) ∨ value.toNat < 256 at hv
    rcases verifyType_cases ht with rfl | rfl | rfl | rfl
    · exact .inr ⟨.inl rfl, hv.resolve_left fun h => absurd h.1 (by decide)⟩
    · exact .inr ⟨.inr (.inl rfl), hv.resolve_left fun h => absurd h.1 (by decide)⟩
    · exact .inr ⟨.inr (.inr rfl), hv.resolve_left fun h => absurd h.1 (by decide)⟩
    · refine .inl ⟨rfl, ?_⟩
      change value.toNat < 1024
      omega

/-- The operations the daemon can be made to perform: a step is stored only for an accepted
request. -/
def Op.Accepted : Op → Prop
  | .daemon (.setBlockRGB step) => GemianLeds.Accepted step
  | _ => True

/-- Every action a request queues is one of these. -/
theorem dbusMethodCall_accepted (r : Request) :
    ∀ action ∈ (dbusMethodCall r).actions, (Op.daemon action).Accepted := by
  intro action h
  cases r with
  | setLEDBlockStep led colour type value =>
    simp only [dbusMethodCall] at h
    split at h
    next hv =>
      obtain rfl := List.mem_singleton.mp h
      simp only [Bool.and_eq_true] at hv
      exact ⟨led, colour, type, value, hv.1.1, hv.1.2, hv.2, rfl⟩
    next => simp at h
  | unknown method => simp [dbusMethodCall] at h
  | _ =>
    obtain rfl := List.mem_singleton.mp h
    trivial

/-- A step of a light state of the daemon: an accepted one, or the torch's. -/
def StepOk (step : BlockAnimStep) : Prop := Accepted step ∨ step = torchStep

theorem stepOk_next {op : Op} (hop : op.Accepted) {s : LightState}
    (h : ∀ step ∈ s.steps, StepOk step) : ∀ step ∈ (op.next s).steps, StepOk step := by
  rw [Op.next_steps]
  intro step hstep
  rcases op with (_ | step' | _ | _ | (_ | _) | _) | (_ | _ | _)
  case daemon.setBlockRGB =>
    rcases List.mem_append.mp hstep with hs | hs
    · exact h step hs
    · obtain rfl := List.mem_singleton.mp hs
      exact .inl hop
  case daemon.clearBlock => cases hstep
  case daemon.torch.false => cases hstep
  case daemon.torch.true => exact .inr (List.mem_singleton.mp hstep)
  all_goals exact h step hstep

/-- In every run of the daemon's operations the steps are accepted ones and the torch's. -/
theorem stepOk_runOps {ops : List Op} (hops : ∀ op ∈ ops, op.Accepted) (pc : UInt32) :
    ∀ step ∈ (runOps (.new pc) ops).steps, StepOk step :=
  runOps_invariant (I := fun s => ∀ step ∈ s.steps, StepOk step)
    (fun op hop _ h => stepOk_next (hops op hop) h) (by simp [LightState.new])

end GemianLeds
