import GemianLeds.Registration.HandlerRegistration
import Mathlib.Data.Nat.Find

/-! The handlers of `LEDs`, one for each kind of event, and the registrations that install
them. Whoever releases a registration installs the null handler, whatever is installed. -/
namespace GemianLeds
open Interaction

/-- The events that `LEDs` has a handler for. -/
inductive LEDsEvent where
  | capsLock | clearBlock | pushBlock | block | torch | call
  deriving DecidableEq

/-- What a handler member holds: nothing, as a default `std::function`, or a null handler, or
one that was registered. -/
inductive LEDsHandler (H : Type) where
  | empty
  | null
  | given (handler : H)
  deriving DecidableEq

/-- The objects of class `HandlerRegistration` that exist, each named, with `none` for the
temporary of a register call, and the handler members they act on. -/
abbrev LEDsRegistrations (ι H : Type) : Type :=
  Lifetimes (Option ι) (LEDsEvent × H) (LEDsEvent → LEDsHandler H)

/-- The release of a registration: `[this] { this->leds*Handler = null_arg*_handler; }`. -/
def unregisterHandler {H : Type} (f : LEDsEvent × H) (handlers : LEDsEvent → LEDsHandler H) :
    LEDsEvent → LEDsHandler H :=
  Function.update handlers f.1 .null

namespace LEDsRegistrations
variable {ι H : Type}

/-- The constructor `LEDs::LEDs` sets the handler of caps lock only. -/
def new : LEDsRegistrations ι H :=
  Lifetimes.start fun event => if event = .capsLock then .null else .empty

def handlers (s : LEDsRegistrations ι H) : LEDsEvent → LEDsHandler H := s.objects.world.1

/-- `[this, &handler] { this->leds*Handler = handler; }`. -/
def install (event : LEDsEvent) (handler : H) (s : LEDsRegistrations ι H) :
    LEDsRegistrations ι H :=
  { s with
    objects :=
      { s.objects with
        world := (Function.update s.handlers event (.given handler), s.ran) } }

variable [DecidableEq ι]

/-- An `EventLoopHandlerRegistration` is constructed, which installs the handler; the object
that the call returns is move-constructed from it, and it is destroyed. -/
def registerHandler (event : LEDsEvent) (handler : H) (i : ι) (s : LEDsRegistrations ι H) :
    Option (LEDsRegistrations ι H) :=
  (s.step unregisterHandler (.construct none (event, handler))).bind fun s =>
    ((install event handler s).step unregisterHandler (.moveConstruct (some i) none)).bind
      fun s => s.step unregisterHandler (.destroy none)

def registerLEDsCapsLockHandler (handler : H) (i : ι) (s : LEDsRegistrations ι H) :
    Option (LEDsRegistrations ι H) :=
  s.registerHandler .capsLock handler i

def registerLEDsClearBlockHandler (handler : H) (i : ι) (s : LEDsRegistrations ι H) :
    Option (LEDsRegistrations ι H) :=
  s.registerHandler .clearBlock handler i

def registerLEDsPushBlockHandler (handler : H) (i : ι) (s : LEDsRegistrations ι H) :
    Option (LEDsRegistrations ι H) :=
  s.registerHandler .pushBlock handler i

def registerLEDsBlockHandler (handler : H) (i : ι) (s : LEDsRegistrations ι H) :
    Option (LEDsRegistrations ι H) :=
  s.registerHandler .block handler i

def registerLEDsTorchHandler (handler : H) (i : ι) (s : LEDsRegistrations ι H) :
    Option (LEDsRegistrations ι H) :=
  s.registerHandler .torch handler i

def registerLEDsCallHandler (handler : H) (i : ι) (s : LEDsRegistrations ι H) :
    Option (LEDsRegistrations ι H) :=
  s.registerHandler .call handler i

end LEDsRegistrations

/-- What a client of `LEDs` does: it registers a handler and names the result, or it makes,
moves, assigns or destroys registration objects. -/
inductive LEDsClientOp (ι H : Type) where
  | registerHandler (event : LEDsEvent) (handler : H) (i : ι)
  | constructDefault (i : ι)
  | moveConstruct (i other : ι)
  | moveAssign (i other : ι)
  | destroy (i : ι)

namespace LEDsRegistrations
variable {ι H : Type} [DecidableEq ι]

def clientStep (s : LEDsRegistrations ι H) : LEDsClientOp ι H → Option (LEDsRegistrations ι H)
  | .registerHandler .capsLock handler i => s.registerLEDsCapsLockHandler handler i
  | .registerHandler .clearBlock handler i => s.registerLEDsClearBlockHandler handler i
  | .registerHandler .pushBlock handler i => s.registerLEDsPushBlockHandler handler i
  | .registerHandler .block handler i => s.registerLEDsBlockHandler handler i
  | .registerHandler .torch handler i => s.registerLEDsTorchHandler handler i
  | .registerHandler .call handler i => s.registerLEDsCallHandler handler i
  | .constructDefault i => s.step unregisterHandler (.constructDefault (some i))
  | .moveConstruct i other => s.step unregisterHandler (.moveConstruct (some i) (some other))
  | .moveAssign i other => s.step unregisterHandler (.moveAssign (some i) (some other))
  | .destroy i => s.step unregisterHandler (.destroy (some i))

variable {s s' : LEDsRegistrations ι H}

omit [DecidableEq ι] in
theorem install_linear (event : LEDsEvent) (handler : H) (hs : s.Linear) :
    (install event handler s).Linear :=
  ⟨hs.exclusive, hs.owned_supplied, hs.ran_supplied, hs.once⟩

theorem temporary_gone {φ : Type} {objects : Option ι → Option (Option φ)}
    (htemporary : objects none = none) (i : ι) (f : φ) :
    Function.update
        (Function.update
          (Function.update (Function.update objects none (some (some f))) (some i)
            (some (some f)))
          none (some none))
        none none =
      Function.update objects (some i) (some (some f)) := by
  have hne : some i ≠ none := Option.some_ne_none i
  have hself : Function.update objects none none = objects :=
    Function.update_eq_self_iff.mpr htemporary.symm
  rw [Function.update_idem, Function.update_comm hne, Function.update_idem, hself]

/-- A register call leaves no temporary behind: the object under the new name owns the
registration. -/
theorem registerHandler_spec {event : LEDsEvent} {handler : H} {i : ι}
    (htemporary : s.objects.unregister none = none)
    (h : s.registerHandler event handler i = some s') :
    s.objects.unregister (some i) = none ∧
      s' =
        { objects :=
            { unregister :=
                Function.update s.objects.unregister (some i)
                  (some (some (s.supplied.length, event, handler)))
              world := (Function.update s.handlers event (.given handler), s.ran) }
          supplied := s.supplied ++ [(event, handler)] } := by
  unfold registerHandler at h
  simp only [Lifetimes.step, Registrations.step, RegistrationOp.numbered, htemporary, install,
    Option.map_some, Option.bind_some, Function.update_self,
    Function.update_of_ne (Option.some_ne_none i)] at h
  cases hi : s.objects.unregister (some i) with
  | some own =>
    rw [hi] at h
    cases h
  | none =>
    simp only [hi, Option.map_some, Option.bind_some, Function.update_self,
      RegistrationOp.supplied, Option.toList_none, Option.toList_some, List.append_nil,
      callUnregister, temporary_gone htemporary, Option.some.injEq] at h
    exact ⟨rfl, h.symm⟩

/-- The registration that a client step releases. -/
def released (s : LEDsRegistrations ι H) : LEDsClientOp ι H → Option (ℕ × LEDsEvent × H)
  | .moveAssign i other => s.objects.released (.moveAssign (some i) (some other))
  | .destroy i => s.objects.released (.destroy (some i))
  | _ => none

/-- No release of a registration finds another one of the same event alive. -/
def ReleasesLast (s : LEDsRegistrations ι H) (op : LEDsClientOp ι H) : Prop :=
  ∀ n event handler, s.released op = some (n, event, handler) →
    ∀ n' handler', s.objects.Owned (n', event, handler') → n' = n

/-- The handler of the newest live registration is installed for each event, and the null
handler when there was one and none is left. -/
structure InOrder (s : LEDsRegistrations ι H) : Prop where
  newest : ∀ n event handler, s.objects.Owned (n, event, handler) →
    (∀ n' handler', s.objects.Owned (n', event, handler') → n' ≤ n) →
      s.handlers event = .given handler
  none_live : ∀ event, event ∈ s.supplied.map Prod.fst →
    (∀ n handler, ¬ s.objects.Owned (n, event, handler)) → s.handlers event = .null

/-- Between two steps of a client there is no temporary, and ownership is linear. -/
structure Settled (s : LEDsRegistrations ι H) : Prop where
  linear : s.Linear
  temporary : s.objects.unregister none = none

/-- A client step registers a handler, or does not touch what is alive and installed, or
releases a registration. -/
inductive ClientEffect (s s' : LEDsRegistrations ι H) (released : Option (ℕ × LEDsEvent × H)) :
    Prop where
  | registers (event : LEDsEvent) (handler : H) (hreleased : released = none)
      (hhandlers : s'.handlers = Function.update s.handlers event (.given handler))
      (hsupplied : s'.supplied = s.supplied ++ [(event, handler)])
      (howned : ∀ f, s'.objects.Owned f ↔
        s.objects.Owned f ∨ f = (s.supplied.length, event, handler))
  | moves (hreleased : released = none) (hhandlers : s'.handlers = s.handlers)
      (hsupplied : s'.supplied = s.supplied)
      (howned : ∀ f, s'.objects.Owned f ↔ s.objects.Owned f)
  | releases (n : ℕ) (event : LEDsEvent) (handler : H)
      (hreleased : released = some (n, event, handler))
      (hheld : s.objects.Owned (n, event, handler))
      (hhandlers : s'.handlers = Function.update s.handlers event .null)
      (hsupplied : s'.supplied = s.supplied)
      (howned : ∀ f, s'.objects.Owned f ↔ s.objects.Owned f ∧ f ≠ (n, event, handler))

theorem registerHandler_linear {event : LEDsEvent} {handler : H} {i : ι} (hs : s.Linear)
    (h : s.registerHandler event handler i = some s') : s'.Linear := by
  obtain ⟨s₁, h₁, h⟩ := Option.bind_eq_some_iff.mp h
  obtain ⟨s₂, h₂, h₃⟩ := Option.bind_eq_some_iff.mp h
  have hs₁ := install_linear event handler (Lifetimes.step_linear hs h₁)
  exact Lifetimes.step_linear (Lifetimes.step_linear hs₁ h₂) h₃

theorem registerHandler_effect {event : LEDsEvent} {handler : H} {i : ι} (hs : s.Settled)
    (h : s.registerHandler event handler i = some s') :
    s'.Settled ∧ ClientEffect s s' none := by
  have hlinear := registerHandler_linear hs.linear h
  obtain ⟨hi, rfl⟩ := registerHandler_spec hs.temporary h
  refine ⟨⟨hlinear, ?_⟩, .registers event handler rfl rfl rfl fun f => ?_⟩
  · change Function.update s.objects.unregister (some i)
      (some (some (s.supplied.length, event, handler))) none = none
    rw [Function.update_of_ne (Option.some_ne_none i).symm]
    exact hs.temporary
  · unfold Registrations.Owned Registrations.Owns
    simp only [Registrations.update_owns]
    constructor
    · rintro ⟨j, ⟨-, hf⟩ | ⟨-, hj⟩⟩
      · exact .inr (Option.some.inj (Option.some.inj hf)).symm
      · exact .inl ⟨j, hj⟩
    · rintro (⟨j, hj⟩ | rfl)
      · exact ⟨j, .inr ⟨Registrations.ne_of_owns hi hj, hj⟩⟩
      · exact ⟨some i, .inl ⟨rfl, rfl⟩⟩

/-- An operation on objects that are not temporaries, and that supplies nothing. -/
theorem object_effect {op : RegistrationOp (Option ι) (LEDsEvent × H)}
    (hop : op.supplied = none) (hnames : none ∉ op.names) (hs : s.Settled)
    (h : s.step unregisterHandler op = some s') :
    s'.Settled ∧
      ClientEffect s s' (s.objects.released (op.numbered s.supplied.length)) := by
  obtain ⟨hsupplied, -, howned, -⟩ := Lifetimes.step_spec hs.linear h
  have hlinear := Lifetimes.step_linear hs.linear h
  have hsame : s'.supplied = s.supplied := by
    rw [hsupplied, hop]
    exact List.append_nil _
  obtain ⟨objects, hobjects, rfl⟩ := Option.map_eq_some_iff.mp h
  have hworld := Registrations.step_world hobjects
  simp only [hop, reduceCtorEq, and_false, or_false] at howned
  constructor
  · refine ⟨hlinear, ?_⟩
    rw [← op.names_numbered s.supplied.length] at hnames
    exact (Registrations.step_of_not_named hobjects hnames).trans hs.temporary
  · cases hreleased : s.objects.released (op.numbered s.supplied.length) with
    | none =>
      rw [hreleased] at hworld howned
      refine .moves rfl (congrArg Prod.fst hworld) hsame fun f => ?_
      simpa using howned f.1 f.2
    | some f =>
      rw [hreleased] at hworld howned
      have hheld := Registrations.owned_of_released hreleased
      refine .releases f.1 f.2.1 f.2.2 rfl hheld (congrArg Prod.fst hworld) hsame fun g => ?_
      rw [howned g.1 g.2]
      exact and_congr_right fun _ => not_congr ⟨fun h => (Option.some.inj h).symm, fun h => h ▸ rfl⟩

theorem clientStep_effect {op : LEDsClientOp ι H} (hs : s.Settled)
    (h : s.clientStep op = some s') : s'.Settled ∧ ClientEffect s s' (s.released op) := by
  cases op with
  | registerHandler event handler i => cases event <;> exact registerHandler_effect hs h
  | constructDefault i =>
    exact object_effect rfl (by simp [RegistrationOp.names]) hs h
  | moveConstruct i other =>
    exact object_effect rfl (by simp [RegistrationOp.names]) hs h
  | moveAssign i other =>
    exact object_effect rfl (by simp [RegistrationOp.names]) hs h
  | destroy i =>
    exact object_effect rfl (by simp [RegistrationOp.names]) hs h

omit [DecidableEq ι] in
/-- Among the live registrations of an event there is a newest one. -/
theorem exists_newest (hs : s.Linear) {n : ℕ} {event : LEDsEvent} {handler : H}
    (h : s.objects.Owned (n, event, handler)) :
    ∃ m g, s.objects.Owned (m, event, g) ∧
      ∀ n' handler', s.objects.Owned (n', event, handler') → n' ≤ m := by
  classical
  let live (m : ℕ) : Prop := ∃ g, s.objects.Owned (m, event, g)
  have hle {m : ℕ} {g : H} (hm : s.objects.Owned (m, event, g)) : m ≤ s.supplied.length :=
    Nat.le_of_lt (hs.lt_of_owned hm)
  obtain ⟨g, hg⟩ : live (Nat.findGreatest live s.supplied.length) :=
    Nat.findGreatest_spec (hle h) ⟨handler, h⟩
  exact ⟨_, g, hg, fun n' handler' h' => Nat.le_findGreatest (hle h') ⟨handler', h'⟩⟩

omit [DecidableEq ι] in
/-- A register call makes its handler the newest one of its event. -/
theorem inOrder_of_registers {event : LEDsEvent} {handler : H} (hs : s.Linear)
    (horder : s.InOrder)
    (hhandlers : s'.handlers = Function.update s.handlers event (.given handler))
    (hsupplied : s'.supplied = s.supplied ++ [(event, handler)])
    (howned : ∀ f, s'.objects.Owned f ↔
      s.objects.Owned f ∨ f = (s.supplied.length, event, handler)) : s'.InOrder := by
  have hnew : s'.objects.Owned (s.supplied.length, event, handler) := (howned _).mpr (.inr rfl)
  constructor
  · intro n event' handler' hn hmax
    rw [hhandlers]
    rcases (howned _).mp hn with hold | heq
    · have hlt := hs.lt_of_owned hold
      have hne : event' ≠ event := by
        rintro rfl
        exact absurd (hmax _ _ hnew) (Nat.not_le.mpr hlt)
      rw [Function.update_of_ne hne]
      exact horder.newest n event' handler' hold fun n' g hg =>
        hmax n' g ((howned _).mpr (.inl hg))
    · cases heq
      exact Function.update_self ..
  · intro event' hmem hnone
    have hne : event' ≠ event := by
      rintro rfl
      exact hnone _ _ hnew
    rw [hhandlers, Function.update_of_ne hne]
    rw [hsupplied, List.map_append, List.mem_append] at hmem
    apply horder.none_live event'
    · exact hmem.resolve_right fun h => hne (List.mem_singleton.mp h)
    · exact fun n g hg => hnone n g ((howned _).mpr (.inl hg))

omit [DecidableEq ι] in
theorem inOrder_of_moves (horder : s.InOrder) (hhandlers : s'.handlers = s.handlers)
    (hsupplied : s'.supplied = s.supplied)
    (howned : ∀ f, s'.objects.Owned f ↔ s.objects.Owned f) : s'.InOrder := by
  constructor
  · intro n event handler hn hmax
    rw [hhandlers]
    exact horder.newest n event handler ((howned _).mp hn) fun n' g hg =>
      hmax n' g ((howned _).mpr hg)
  · intro event hmem hnone
    rw [hhandlers]
    rw [hsupplied] at hmem
    exact horder.none_live event hmem fun n g hg => hnone n g ((howned _).mpr hg)

section Release

variable {n : ℕ} {event : LEDsEvent} {handler : H}
  (hhandlers : s'.handlers = Function.update s.handlers event .null)
  (howned : ∀ f, s'.objects.Owned f ↔ s.objects.Owned f ∧ f ≠ (n, event, handler))

include hhandlers howned

omit [DecidableEq ι] in
/-- The release of the last registration of its event leaves the null handler. -/
theorem inOrder_of_releases (hs : s.Linear) (horder : s.InOrder)
    (hheld : s.objects.Owned (n, event, handler)) (hsupplied : s'.supplied = s.supplied)
    (hlast : ∀ n' handler', s.objects.Owned (n', event, handler') → n' = n) : s'.InOrder := by
  have hgone (n' : ℕ) (g : H) : ¬ s'.objects.Owned (n', event, g) := by
    intro hg
    obtain ⟨hold, hne⟩ := (howned _).mp hg
    have hn := hlast n' g hold
    subst hn
    have hsame := (hs.owned_supplied (n', event, g) hold).symm.trans
      (hs.owned_supplied (n', event, handler) hheld)
    exact hne (congrArg (Prod.mk n') (Option.some.inj hsame))
  have hother {n' : ℕ} {event' : LEDsEvent} {g : H} (hne : event' ≠ event)
      (h : s.objects.Owned (n', event', g)) : s'.objects.Owned (n', event', g) := by
    refine (howned _).mpr ⟨h, ?_⟩
    intro heq
    cases heq
    exact hne rfl
  constructor
  · intro n' event' g hn hmax
    have hne : event' ≠ event := by
      rintro rfl
      exact hgone _ _ hn
    rw [hhandlers, Function.update_of_ne hne]
    exact horder.newest n' event' g ((howned _).mp hn).1 fun m k hk => hmax m k (hother hne hk)
  · intro event' hmem hnone
    rw [hhandlers]
    by_cases hne : event' = event
    · subst hne
      exact Function.update_self ..
    · rw [Function.update_of_ne hne]
      rw [hsupplied] at hmem
      exact horder.none_live event' hmem fun m k hk => hnone m k (hother hne hk)

omit [DecidableEq ι] in
/-- Any other release takes the handler of the newest registration that is left away. -/
theorem last_of_inOrder (hs' : s'.Linear) (horder : s'.InOrder) {n' : ℕ} {g : H}
    (hg : s.objects.Owned (n', event, g)) : n' = n := by
  by_contra hne
  have hother : s'.objects.Owned (n', event, g) := by
    refine (howned _).mpr ⟨hg, ?_⟩
    intro heq
    cases heq
    exact hne rfl
  obtain ⟨m, newest, hm, hmax⟩ := exists_newest hs' hother
  have hinstalled := horder.newest m event newest hm hmax
  rw [hhandlers, Function.update_self] at hinstalled
  cases hinstalled

end Release

/-- A step keeps the handlers in order exactly when what it releases was the last of its
event. -/
theorem clientStep_inOrder {op : LEDsClientOp ι H} (hs : s.Settled) (horder : s.InOrder)
    (h : s.clientStep op = some s') : s'.InOrder ↔ s.ReleasesLast op := by
  obtain ⟨hs', heffect⟩ := clientStep_effect hs h
  unfold ReleasesLast
  cases heffect with
  | registers event handler hreleased hhandlers hsupplied howned =>
    rw [hreleased]
    exact ⟨fun _ => nofun,
      fun _ => inOrder_of_registers hs.linear horder hhandlers hsupplied howned⟩
  | moves hreleased hhandlers hsupplied howned =>
    rw [hreleased]
    exact ⟨fun _ => nofun, fun _ => inOrder_of_moves horder hhandlers hsupplied howned⟩
  | releases n event handler hreleased hheld hhandlers hsupplied howned =>
    rw [hreleased]
    constructor
    · intro horder' m event' handler' hr n' g hg
      cases hr
      exact last_of_inOrder hhandlers howned hs'.linear horder' hg
    · intro hlast
      exact inOrder_of_releases hhandlers howned hs.linear horder hheld hsupplied
        (hlast n event handler rfl)

omit [DecidableEq ι] in
theorem new_settled : (new : LEDsRegistrations ι H).Settled :=
  ⟨Lifetimes.start_linear _, rfl⟩

omit [DecidableEq ι] in
theorem new_inOrder : (new : LEDsRegistrations ι H).InOrder where
  newest n event handler hn := by
    obtain ⟨i, hi⟩ := hn
    cases hi
  none_live event hmem := by cases hmem

theorem run_settled {ops : List (LEDsClientOp ι H)} (h : runFrom clientStep new ops = some s) :
    s.Settled :=
  runFrom_invariant h new_settled fun ht hstep => (clientStep_effect ht hstep).1

theorem owned_of_released {op : LEDsClientOp ι H} {f : ℕ × LEDsEvent × H}
    (h : s.released op = some f) : s.objects.Owned f := by
  cases op with
  | registerHandler | constructDefault | moveConstruct => cases h
  | moveAssign i other =>
    have hobjects : s.objects.released (.moveAssign (some i) (some other)) = some f := h
    exact Registrations.owned_of_released hobjects
  | destroy i =>
    have hobjects : s.objects.released (.destroy (some i)) = some f := h
    exact Registrations.owned_of_released hobjects

/-- Before a second handler is registered, a release can only be of the last registration. -/
theorem releasesLast_of_length_le (hs : s.Linear) (hlength : s.supplied.length ≤ 1)
    (op : LEDsClientOp ι H) : s.ReleasesLast op := by
  intro n event handler hreleased n' handler' hn'
  have hlt := hs.lt_of_owned (owned_of_released hreleased)
  have hlt' := hs.lt_of_owned hn'
  omega

end LEDsRegistrations

/-- In every run whose releases are all of the last live registration of their event, the
handler of the newest live registration stays installed and the null handler is there when
none is left. The first release that is not breaks this. -/
theorem handlers_in_order {ι H : Type} [DecidableEq ι] (ops : List (LEDsClientOp ι H))
    (s : LEDsRegistrations ι H)
    (hlast : Throughout LEDsRegistrations.clientStep LEDsRegistrations.ReleasesLast .new ops)
    (h : runFrom LEDsRegistrations.clientStep .new ops = some s) :
    s.InOrder ∧
      ∀ op s', s.clientStep op = some s' → (s'.InOrder ↔ s.ReleasesLast op) := by
  have hs : s.Settled ∧ s.InOrder := by
    refine Throughout.invariant (I := fun s => s.Settled ∧ s.InOrder) hlast h
      ⟨LEDsRegistrations.new_settled, LEDsRegistrations.new_inOrder⟩ ?_
    intro t op t' hop ht hstep
    exact ⟨(LEDsRegistrations.clientStep_effect ht.1 hstep).1,
      (LEDsRegistrations.clientStep_inOrder ht.1 ht.2 hstep).mpr hop⟩
  exact ⟨hs.2, fun op s' hstep => LEDsRegistrations.clientStep_inOrder hs.1 hs.2 hstep⟩

/-- A handler is replaced by releasing it before the next one is registered. -/
theorem handlers_in_order_replaced :
    ∃ s : LEDsRegistrations ℕ Bool,
      runFrom LEDsRegistrations.clientStep .new
          [.registerHandler .capsLock true 0, .destroy 0, .registerHandler .capsLock false 0] =
        some s ∧ s.InOrder := by
  refine ⟨_, rfl, ?_⟩
  refine (handlers_in_order
    [.registerHandler .capsLock true 0, .destroy 0, .registerHandler .capsLock false 0] _ ?_
    rfl).1
  refine ⟨?_, fun s₁ h₁ => ⟨?_, fun s₂ h₂ => ⟨?_, fun _ _ => trivial⟩⟩⟩
  · intro n event handler hnone
    cases hnone
  · have hs := (LEDsRegistrations.clientStep_effect LEDsRegistrations.new_settled h₁).1
    obtain rfl := Option.some.inj h₁
    exact LEDsRegistrations.releasesLast_of_length_le hs.linear (Nat.le_refl 1) _
  · intro n event handler hnone
    cases hnone

/-- `reg = leds.registerLEDsCapsLockHandler(h2)` where `reg` holds the registration of `h1`:
the release of `h1` comes last and leaves the null handler. -/
theorem assigned_registration_disabled :
    ¬ ∀ (ops : List (LEDsClientOp ℕ Bool)) (s : LEDsRegistrations ℕ Bool),
      runFrom LEDsRegistrations.clientStep .new ops = some s → s.InOrder := by
  intro hall
  have hrun :
      ∃ s : LEDsRegistrations ℕ Bool,
        runFrom LEDsRegistrations.clientStep .new
            [.registerHandler .capsLock true 0, .registerHandler .capsLock false 1,
              .moveAssign 0 1, .destroy 1] = some s ∧
          s.objects.Owned (1, .capsLock, false) ∧ s.handlers .capsLock = .null ∧
          s.supplied.length = 2 :=
    ⟨_, rfl, ⟨some 0, rfl⟩, rfl, rfl⟩
  obtain ⟨s, hs, hlive, hnull, hlength⟩ := hrun
  have hgiven := (hall _ s hs).newest 1 .capsLock false hlive fun n handler hn => by
    have hlt := (LEDsRegistrations.run_settled hs).linear.lt_of_owned hn
    omega
  rw [hnull] at hgiven
  cases hgiven

end GemianLeds
