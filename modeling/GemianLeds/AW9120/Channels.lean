import GemianLeds.AW9120.Words

/-! The channels a program leaves alone, the values its prelude gives them, and what is on
them at the waits of its loop. -/
namespace GemianLeds
open Sequencer

/-- Whether an instruction changes a channel. -/
def Instruction.writes (c : Fin 20) : Instruction → Bool
  | .setPWM channel _ => channel = 0x1f || c.val = channel
  | .rampOut channel _ => c.val = channel
  | .rampIn channel _ => c.val = channel
  | _ => false

variable {ramp : Instruction → Channels → ℕ}

theorem Instruction.drive_frame {c : Fin 20} {i : Instruction} (h : i.writes c = false)
    (ch : Channels) : i.drive ramp ch c = ch c := by
  cases i with
  | setPWM channel value =>
    simp only [Instruction.writes, Bool.or_eq_false_iff, decide_eq_false_iff_not] at h
    simp [Instruction.drive, h]
  | rampOut channel value | rampIn channel value =>
    simp only [Instruction.writes, decide_eq_false_iff_not] at h
    simp [Instruction.drive, h]
  | _ => rfl

theorem effect_frame {c : Fin 20} {w : UInt32} (h : (decode w).writes c = false)
    (ch : Channels) : (aw9120 ramp).effect w ch c = ch c :=
  Instruction.drive_frame h ch

/-- Words that do not write a channel leave it as they find it. -/
theorem through_frame {c : Fin 20} {ws : List UInt32}
    (h : ∀ w ∈ ws, (decode w).writes c = false) (ch : Channels) :
    (aw9120 ramp).through ws ch c = ch c :=
  ((aw9120 ramp).scan_invariant (I := fun d => d c = ch c)
    (fun w hw d hd => (effect_frame (h w hw) d).trans hd) rfl).2

/-- The PWM value an instruction puts on a channel. -/
def Instruction.pwm (c : Fin 20) : Instruction → Option ℕ
  | .setPWM channel value => if channel = 0x1f ∨ c.val = channel then some value else none
  | _ => none

/-- The PWM value the last of a list of words puts on a channel. -/
def lastPWM (c : Fin 20) : List UInt32 → Option ℕ
  | [] => none
  | w :: ws => (lastPWM c ws).or ((decode w).pwm c)

theorem lastPWM_append (c : Fin 20) (xs ys : List UInt32) :
    lastPWM c (xs ++ ys) = (lastPWM c ys).or (lastPWM c xs) := by
  induction xs with
  | nil => simp [lastPWM]
  | cons w xs ih => simp only [List.cons_append, lastPWM, ih, Option.or_assoc]

theorem lastPWM_bif (c : Fin 20) (b : Bool) (xs ys : List UInt32) :
    lastPWM c (bif b then xs else ys) = bif b then lastPWM c xs else lastPWM c ys := by
  cases b <;> rfl

def Instruction.ramps : Instruction → Bool
  | .rampOut _ _ => true
  | .rampIn _ _ => true
  | _ => false

theorem Instruction.drive_apply {i : Instruction} (h : i.ramps = false) (c : Fin 20)
    (ch : Channels) : i.drive ramp ch c = (i.pwm c).getD (ch c) := by
  cases i with
  | setPWM channel value =>
    simp only [Instruction.drive, Instruction.pwm]
    split_ifs <;> rfl
  | rampOut | rampIn => cases h
  | _ => rfl

theorem through_apply {ws : List UInt32} (h : ∀ w ∈ ws, (decode w).ramps = false) (c : Fin 20)
    (ch : Channels) :
    (aw9120 ramp).through ws ch c = (lastPWM c ws).getD (ch c) := by
  induction ws generalizing ch with
  | nil => rfl
  | cons w ws ih =>
    rw [Machine.through_cons, ih fun x hx => h x (by simp [hx]), lastPWM]
    have hw : (aw9120 ramp).effect w ch c = ((decode w).pwm c).getD (ch c) :=
      Instruction.drive_apply (h w (by simp)) c ch
    rw [hw]
    cases lastPWM c ws <;> rfl

/-- The instructions of the words of the prelude. -/
theorem decode_preludeVocabulary : preludeVocabulary.map decode =
    [.setStepTimer 0x1f 3, .setPWM 0x1f 0, .setPWM 15 0xa0, .setPWM 15 0, .setPWM 16 0x50,
      .setPWM 16 0, .setPWM 17 0xc0, .setPWM 17 0xff, .setPWM 18 0xa0, .setPWM 19 0xff] := by
  decide

/-- Whether a word is a wait. -/
def waits (w : UInt32) : Bool := (decode w).isWait

theorem preludeWords_waits (s : LightState) : ∀ w ∈ preludeWords s, waits w = false := by
  have hall : ∀ w ∈ preludeVocabulary, waits w = false := forall_mem_of_all (by decide)
  exact fun w hw => hall w (preludeWords_mem s w hw)

theorem loopStartPC_waits (s : LightState) : waits (loopStartPC s) = false := by
  rw [waits, decode_loopStartPC]
  rfl

theorem loopStartPC_writes (c : Fin 20) (s : LightState) :
    (decode (loopStartPC s)).writes c = false := by
  rw [decode_loopStartPC]
  rfl

theorem statusTailWords_writes {c : Fin 20} (hc : c.val < 15 ∨ 17 < c.val) (s : LightState) :
    ∀ w ∈ statusTailWords s, (decode w).writes c = false := by
  have hall : ∀ c : Fin 20, (c.val < 15 ∨ 17 < c.val) →
      (statusTailVocabulary.all fun w => decide ((decode w).writes c = false)) = true := by decide
  exact fun w hw => forall_mem_of_all (hall c hc) w (statusTailWords_mem s w hw)

/-- The PWM values a light state stands for before any animation: the status LEDs. -/
def statusPWM (s : LightState) (c : Fin 20) : ℕ :=
  if c.val = 15 then
    bif s.callEarpiece then bif s.callLeftUp then 0xa0 else 0
    else bif s.connectivityCellular then 0xa0 else 0
  else if c.val = 16 then
    bif s.callEarpiece then bif s.callLeftUp then 0 else 0x50
    else bif s.connectivityWifi then 0x50 else 0
  else if c.val = 17 then
    bif s.callEarpiece then 0
    else bif s.connectivityBluetooth then bif s.connectivityWifi then 0xc0 else 0xff else 0
  else if c.val = 18 then bif s.capsLock then 0xa0 else 0
  else if c.val = 19 then if s.powerState = 0 then 0 else 0xff
  else 0

theorem lastPWM_prelude (s : LightState) (c : Fin 20) :
    lastPWM c (preludeWords s) = some (statusPWM s c) := by
  have hd := decode_preludeVocabulary
  simp only [preludeVocabulary, List.map_cons, List.map_nil, List.cons.injEq, and_true] at hd
  obtain ⟨hstep, hoff, hreda, hred0, hgreen5, hgreen0, hbluec, hbluef, hcaps, hpower⟩ := hd
  rw [preludeWords_eq]
  simp only [lastPWM_append, lastPWM_bif, lastPWM, hstep, hoff, hreda, hred0, hgreen5, hgreen0,
    hbluec, hbluef, hcaps, hpower, Instruction.pwm, Option.none_or]
  unfold statusPWM
  have hc : c.val < 15 ∨ c.val = 15 ∨ c.val = 16 ∨ c.val = 17 ∨ c.val = 18 ∨ c.val = 19 := by
    omega
  rcases hc with hc | hc | hc | hc | hc | hc
  · simp [hc.ne, (hc.trans (by decide : 15 < 16)).ne, (hc.trans (by decide : 15 < 17)).ne,
      (hc.trans (by decide : 15 < 18)).ne, (hc.trans (by decide : 15 < 19)).ne]
  · cases s.callEarpiece <;> cases s.callLeftUp <;> cases s.connectivityCellular <;> simp [hc]
  · cases s.callEarpiece <;> cases s.callLeftUp <;> cases s.connectivityWifi <;> simp [hc]
  · cases s.callEarpiece <;> cases s.connectivityBluetooth <;> cases s.connectivityWifi <;>
      simp [hc]
  · cases s.capsLock <;> simp [hc]
  · by_cases hp : s.powerState = 0 <;> simp [hc, hp]

/-- The prelude sets every channel, whatever it finds. -/
theorem prelude_channels (s : LightState) (ch : Channels) :
    (aw9120 ramp).through (preludeWords s) ch = statusPWM s := by
  have hall : ∀ w ∈ preludeVocabulary, (decode w).ramps = false :=
    forall_mem_of_all (by decide)
  funext c
  rw [through_apply fun w hw => hall w (preludeWords_mem s w hw), lastPWM_prelude]
  rfl

end GemianLeds
