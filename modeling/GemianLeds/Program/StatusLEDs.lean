import GemianLeds.Program.Closed
import GemianLeds.AW9120.Channels

/-! The status LEDs while the loaded program runs: the prelude sets them, no animation
reaches their channels, and an animation without a delay shows the connected technologies in
turn. -/
namespace GemianLeds
open Sequencer

/-- The channels of an accepted step are those of the five LEDs. -/
theorem accepted_writes {step : BlockAnimStep} (h : Accepted step) {c : Fin 20}
    (hc : 15 ≤ c.val) : (stepInstruction step).writes c = false := by
  have hlt := ledChannel_lt step.led step.colour
  rw [← h.checked.channel] at hlt
  have hne : c.val ≠ stepChannel step := by omega
  have hall : stepChannel step ≠ 0x1f := by omega
  unfold stepInstruction
  split <;> simp [Instruction.writes, hne, hall]

theorem animationWords_writes {steps : List BlockAnimStep} (h : ∀ step ∈ steps, Accepted step)
    {c : Fin 20} (hc : 15 ≤ c.val) :
    ∀ w ∈ animationWords steps, (decode w).writes c = false :=
  forall_animationWords (P := fun i => i.writes c = false) (fun step hs => .inl (h step hs))
    fun step hs => accepted_writes (h step hs) hc

/-- The loop leaves a status channel alone, the three connectivity channels only when a call
or a delay keeps them out of it. -/
theorem bodyWords_writes {s : LightState} (h : ∀ step ∈ s.steps, Accepted step) {c : Fin 20}
    (hc : 15 ≤ c.val) (hs : 17 < c.val ∨ s.callEarpiece ∨ hasDelay s.steps) :
    ∀ w ∈ bodyWords s, (decode w).writes c = false := by
  unfold bodyWords
  rw [List.forall_mem_append]
  refine ⟨animationWords_writes h hc, ?_⟩
  rcases hs with hs | hs | hs
  · exact forall_mem_bif (by simp) (statusTailWords_writes (.inr hs) s)
  · have hwait : (decode (WAITI + WAIT_PRE_16MS + MAX_WAIT)).writes c = false := rfl
    rw [statusTailWords, hs]
    exact forall_mem_bif (by simp) (by simpa using hwait)
  · simp [hs]

/-- A channel the loop leaves alone has at every wait the value the prelude gave it. -/
theorem wait_frame (ramp : Instruction → Channels → ℕ) (b : Board) {s : LightState}
    (h : ∀ step ∈ s.steps, StepOk step) (hfit : (program s).length ≤ 256) {c : Fin 20}
    (hc : ∀ w ∈ bodyWords s, (decode w).writes c = false) {n : ℕ}
    (hn : waits ((b.writes (updateWrites s)).visit ramp n).1) :
    ((b.writes (updateWrites s)).visit ramp n).2 c = statusPWM s c := by
  have hclosed := b.update_closed ramp h hfit
  have hpass : ∀ w ∈ bodyWords s ++ [loopStartPC s], (decode w).writes c = false := by
    rw [List.forall_mem_append]
    exact ⟨hc, by simpa using loopStartPC_writes c s⟩
  rw [Board.visit, b.update_cpu] at hn ⊢
  obtain ⟨k, hk⟩ := hclosed.visit_seen (preludeWords_waits s) b.cpu.data hn
  have hentry : (aw9120 ramp).passEntry (preludeWords s) (bodyWords s) (loopStartPC s)
      b.cpu.data k c = statusPWM s c :=
    Machine.passEntry_invariant (I := fun ch => ch c = statusPWM s c)
      (by rw [prelude_channels]) (fun ch hch => (through_frame hpass ch).trans hch) k
  exact (aw9120 ramp).seen_invariant (I := fun ch => ch c = statusPWM s c)
    (fun w hw ch hch => (effect_frame (hpass w hw) ch).trans hch) hentry _ hk

section Connectivity

/-- The three connectivity channels. -/
def connectivity (ch : Channels) : ℕ × ℕ × ℕ := (ch 15, ch 16, ch 17)

variable {ramp : Instruction → Channels → ℕ}

theorem connectivity_red (v : ℕ) (ch : Channels) :
    connectivity ((Instruction.setPWM 15 v).drive ramp ch) = (v, (connectivity ch).2) := rfl

theorem connectivity_green (v : ℕ) (ch : Channels) :
    connectivity ((Instruction.setPWM 16 v).drive ramp ch) =
      ((connectivity ch).1, v, (connectivity ch).2.2) := rfl

theorem connectivity_blue (v : ℕ) (ch : Channels) :
    connectivity ((Instruction.setPWM 17 v).drive ramp ch) =
      ((connectivity ch).1, (connectivity ch).2.1, v) := rfl

variable (ramp) in
/-- Begun with the connectivity channels off, `ws` waits once for each entry of `shown`, with
these values on them, and leaves them off. -/
def Shows (ws : List UInt32) (shown : List (ℕ × ℕ × ℕ)) : Prop :=
  ∀ ch, connectivity ch = (0, 0, 0) →
    ((aw9120 ramp).seen waits ws ch).map connectivity = shown ∧
      connectivity ((aw9120 ramp).through ws ch) = (0, 0, 0)

theorem Shows.nil : Shows ramp [] [] := fun _ h => ⟨rfl, h⟩

theorem Shows.append {xs ys : List UInt32} {shown shown' : List (ℕ × ℕ × ℕ)}
    (h : Shows ramp xs shown) (h' : Shows ramp ys shown') :
    Shows ramp (xs ++ ys) (shown ++ shown') := by
  intro ch hch
  obtain ⟨hx, hoff⟩ := h ch hch
  obtain ⟨hy, hoff'⟩ := h' _ hoff
  rw [Machine.seen_append, Machine.through_append, List.map_append, hx, hy]
  exact ⟨rfl, hoff'⟩

theorem Shows.when {ws : List UInt32} {shown : List (ℕ × ℕ × ℕ)} (h : Shows ramp ws shown)
    (flag : Bool) : Shows ramp (bif flag then ws else []) (bif flag then shown else []) := by
  cases flag
  · exact Shows.nil
  · exact h

/-- One connectivity channel lit during a wait. -/
theorem shows_blink {on wait off : UInt32} {c v : ℕ} {lit : ℕ × ℕ × ℕ}
    (hon : decode on = .setPWM c v) (hwait : (decode wait).isWait)
    (hoff : decode off = .setPWM c 0)
    (hc : c = 15 ∧ lit = (v, 0, 0) ∨ c = 16 ∧ lit = (0, v, 0) ∨ c = 17 ∧ lit = (0, 0, v)) :
    Shows ramp [on, wait, off] [lit] := by
  intro ch hch
  have heffect (w : UInt32) (ch : Channels) :
      (aw9120 ramp).effect w ch = (decode w).drive ramp ch := rfl
  have hstay (ch : Channels) : (decode wait).drive ramp ch = ch := by
    cases hw : decode wait <;> simp_all [Instruction.isWait, Instruction.drive]
  have hseen : (aw9120 ramp).seen waits [on, wait, off] ch = [(decode on).drive ramp ch] := by
    have hno {w : UInt32} {v : ℕ} (h : decode w = .setPWM c v) : waits w = false := by
      rw [waits, h]
      rfl
    rw [Machine.seen_cons, Machine.seen_cons, Machine.seen_cons, hno hon, hno hoff, waits, hwait]
    rfl
  have hthrough : (aw9120 ramp).through [on, wait, off] ch =
      (decode off).drive ramp ((decode on).drive ramp ch) := by
    simp [heffect, hstay]
  rw [hseen, hthrough, hon, hoff]
  rcases hc with ⟨rfl, rfl⟩ | ⟨rfl, rfl⟩ | ⟨rfl, rfl⟩
  · simp [connectivity_red, hch]
  · simp [connectivity_green, hch]
  · simp [connectivity_blue, hch]

/-- What an animation without a delay shows outside a call, in one pass. -/
def connectivityLEDs (s : LightState) : List (ℕ × ℕ × ℕ) :=
  (bif s.connectivityCellular then [(0xa0, 0, 0)] else []) ++
    (bif s.connectivityWifi then [(0, 0x50, 0)] else []) ++
    (bif s.connectivityBluetooth then [(0, 0, 0xff)] else []) ++
    (bif !s.connectivityCellular && !s.connectivityWifi && !s.connectivityBluetooth then
      [(0, 0, 0)]
    else [])

variable (ramp) in
theorem statusTail_shows {s : LightState} (hcall : s.callEarpiece = false) (ch : Channels) :
    ((aw9120 ramp).seen waits (statusTailWords s) ch).map connectivity = connectivityLEDs s := by
  have hcellular : Shows ramp [SETPWMI + CH_6_RED + 0xa0, WAITI + WAIT_PRE_16MS + 0x80,
      SETPWMI + CH_6_RED + 0x00] [(0xa0, 0, 0)] :=
    shows_blink (by decide) (by decide) (by decide) (.inl ⟨rfl, rfl⟩)
  have hwifi : Shows ramp [SETPWMI + CH_6_GREEN + 0x50, WAITI + WAIT_PRE_16MS + 0x80,
      SETPWMI + CH_6_GREEN + 0x00] [(0, 0x50, 0)] :=
    shows_blink (by decide) (by decide) (by decide) (.inr (.inl ⟨rfl, rfl⟩))
  have hbluetooth : Shows ramp [SETPWMI + CH_6_BLUE + 0xff, WAITI + WAIT_PRE_16MS + 0x80,
      SETPWMI + CH_6_BLUE + 0x00] [(0, 0, 0xff)] :=
    shows_blink (by decide) (by decide) (by decide) (.inr (.inr ⟨rfl, rfl⟩))
  have hnone : Shows ramp [WAITI + WAIT_PRE_16MS + MAX_WAIT] [(0, 0, 0)] := by
    intro ch hch
    have hwait : waits (WAITI + WAIT_PRE_16MS + MAX_WAIT) = true := by decide
    rw [Machine.seen_cons, hwait]
    exact ⟨congrArg (fun x => [x]) hch, hch⟩
  have hoff : (aw9120 ramp).seen waits [SETPWMI + CH_6_RED + 0x00, SETPWMI + CH_6_GREEN + 0x00,
      SETPWMI + CH_6_BLUE + 0x00] ch = [] :=
    (aw9120 ramp).seen_of_none (forall_mem_of_all (by decide)) ch
  have hgroups := (((hcellular.when s.connectivityCellular).append
    (hwifi.when s.connectivityWifi)).append (hbluetooth.when s.connectivityBluetooth)).append
    (hnone.when (!s.connectivityCellular && !s.connectivityWifi && !s.connectivityBluetooth))
  rw [statusTailWords, hcall, cond_false, List.append_assoc, List.append_assoc, List.append_assoc,
    Machine.seen_append, hoff, List.nil_append]
  simp only [List.append_assoc] at hgroups
  rw [connectivityLEDs]
  simp only [List.append_assoc]
  exact (hgroups _ rfl).1

/-- Without a delay no word of an animation waits. -/
theorem animationWords_waits {steps : List BlockAnimStep} (h : ∀ step ∈ steps, StepOk step)
    (hd : hasDelay steps = false) : ∀ w ∈ animationWords steps, waits w = false := by
  apply forall_animationWords (P := fun i => i.isWait = false) h
  intro step hstep
  have hne : step.type ≠ .delay := by
    intro ht
    have htrue : hasDelay steps = true := List.any_eq_true.mpr ⟨step, hstep, by simp [ht]⟩
    rw [hd] at htrue
    cases htrue
  unfold stepInstruction
  split <;> simp_all [Instruction.isWait]

variable (ramp) in
/-- A pass of an animation without a delay waits in its status words only. -/
theorem pass_shows {s : LightState} (h : ∀ step ∈ s.steps, StepOk step)
    (hd : hasDelay s.steps = false) (ch : Channels) :
    (aw9120 ramp).seen waits (bodyWords s ++ [loopStartPC s]) ch =
      (aw9120 ramp).seen waits (statusTailWords s)
        ((aw9120 ramp).through (animationWords s.steps) ch) := by
  have hback (ch : Channels) : (aw9120 ramp).seen waits [loopStartPC s] ch = [] :=
    (aw9120 ramp).seen_of_none (by simpa using loopStartPC_waits s) ch
  rw [bodyWords, hd, cond_false, Machine.seen_append, Machine.seen_append, hback,
    (aw9120 ramp).seen_of_none (animationWords_waits h hd), List.nil_append, List.append_nil]

end Connectivity

/-- The words executed before pass `k` of the loop. -/
def passStart (s : LightState) (k : ℕ) : ℕ :=
  (preludeWords s).length + k * ((bodyWords s).length + 1)

/-- The PWM values at the waits of pass `k`. -/
def passWaits (ramp : Instruction → Channels → ℕ) (b : Board) (s : LightState) (k : ℕ) :
    List Channels :=
  (((List.range ((bodyWords s).length + 1)).map fun j => b.visit ramp (passStart s k + j)).filter
    fun x => waits x.1).map Prod.snd

theorem passWaits_eq (ramp : Instruction → Channels → ℕ) (b : Board) {s : LightState}
    (h : ∀ step ∈ s.steps, StepOk step) (hfit : (program s).length ≤ 256) (k : ℕ) :
    passWaits ramp (b.writes (updateWrites s)) s k =
      (aw9120 ramp).seen waits (bodyWords s ++ [loopStartPC s])
        ((aw9120 ramp).passEntry (preludeWords s) (bodyWords s) (loopStartPC s) b.cpu.data k) := by
  have hclosed := b.update_closed ramp h hfit
  rw [Machine.seen, ← hclosed.pass_visits b.cpu.data k]
  simp only [passWaits, passStart, Board.visit, b.update_cpu]

/-- What the status LEDs show during a wait. -/
structure StatusLEDs (s : LightState) (ch : Channels) : Prop where
  capsLock : ch 18 = if s.capsLock then 0xa0 else 0
  power : s.powerState = 0 → ch 19 = 0
  call : s.callEarpiece → connectivity ch = if s.callLeftUp then (0xa0, 0, 0) else (0, 0x50, 0)
  delay : s.callEarpiece = false → hasDelay s.steps → connectivity ch =
    (if s.connectivityCellular then 0xa0 else 0, if s.connectivityWifi then 0x50 else 0,
      if s.connectivityBluetooth then if s.connectivityWifi then 0xc0 else 0xff else 0)

theorem connectivity_statusPWM (s : LightState) : connectivity (statusPWM s) =
    (bif s.callEarpiece then bif s.callLeftUp then 0xa0 else 0
      else bif s.connectivityCellular then 0xa0 else 0,
    bif s.callEarpiece then bif s.callLeftUp then 0 else 0x50
      else bif s.connectivityWifi then 0x50 else 0,
    bif s.callEarpiece then 0
      else bif s.connectivityBluetooth then bif s.connectivityWifi then 0xc0 else 0xff else 0) :=
  rfl

/-- Where the loop leaves the connectivity channels alone they are at every wait as the
prelude set them. -/
theorem connectivity_frame (ramp : Instruction → Channels → ℕ) (b : Board) {s : LightState}
    (h : ∀ step ∈ s.steps, Accepted step) (hfit : (program s).length ≤ 256)
    (hs : s.callEarpiece ∨ hasDelay s.steps) {n : ℕ}
    (hn : waits ((b.writes (updateWrites s)).visit ramp n).1) :
    connectivity ((b.writes (updateWrites s)).visit ramp n).2 = connectivity (statusPWM s) := by
  have hframe {c : Fin 20} (hc : 15 ≤ c.val) :=
    wait_frame ramp b (fun step hs => .inl (h step hs)) hfit (bodyWords_writes h hc (.inr hs)) hn
  rw [connectivity, hframe (by decide), hframe (by decide), hframe (by decide), connectivity]

/-- Under every accepted animation the status LEDs are right at every wait; in an animation
without a delay every pass waits once for each connected technology, with only it lit. -/
theorem status_leds_under_animation (ramp : Instruction → Channels → ℕ) (b : Board)
    (s : LightState) (h : ∀ step ∈ s.steps, Accepted step) (hfit : (program s).length ≤ 256) :
    (∀ n, waits ((b.writes (update.run s).output).visit ramp n).1 →
      StatusLEDs s ((b.writes (update.run s).output).visit ramp n).2) ∧
    (s.callEarpiece = false → hasDelay s.steps = false →
      (∀ n < passStart s 0, waits ((b.writes (update.run s).output).visit ramp n).1 = false) ∧
      ∀ k, ((aw9120 ramp).after (b.writes (update.run s).output).sram (passStart s k)
          (b.writes (update.run s).output).cpu).pc = (loopStartPC s).toNat ∧
        (passWaits ramp (b.writes (update.run s).output) s k).map connectivity =
          connectivityLEDs s) := by
  simp only [update_run]
  have hok : ∀ step ∈ s.steps, StepOk step := fun step hs => .inl (h step hs)
  have hclosed := b.update_closed ramp hok hfit
  constructor
  · intro n hn
    have hframe {c : Fin 20} (hc : 17 < c.val) :=
      wait_frame ramp b hok hfit (bodyWords_writes h (by omega) (.inl hc)) hn
    constructor
    · rw [hframe (by decide)]
      change (bif s.capsLock then 0xa0 else 0) = _
      cases s.capsLock <;> rfl
    · intro hp
      rw [hframe (by decide)]
      exact if_pos hp
    · intro hcall
      rw [connectivity_frame ramp b h hfit (.inl hcall) hn, connectivity_statusPWM, hcall]
      cases s.callLeftUp <;> rfl
    · intro hcall hdelay
      rw [connectivity_frame ramp b h hfit (.inr hdelay) hn, connectivity_statusPWM, hcall]
      simp only [Bool.cond_eq_ite, if_false, Bool.false_eq_true]
  · intro hcall hdelay
    refine ⟨?_, fun k => ⟨?_, ?_⟩⟩
    · intro n hn
      have hlt : n < (preludeWords s).length := by simpa [passStart] using hn
      rw [Board.visit, Machine.visit, b.update_cpu, hclosed.word_at_prelude _ hlt]
      exact preludeWords_waits s _ (List.getElem_mem hlt)
    · rw [b.update_cpu, passStart, hclosed.passes, loopStartPC_toNat]
    · rw [passWaits_eq ramp b hok hfit, pass_shows ramp hok hdelay, statusTail_shows ramp hcall]

/-- A ramp with a colour that has no name, while cellular and wifi are connected. -/
theorem status_leds_under_animation_ramp :
    (passWaits (fun _ _ => 7)
      (Board.blank.writes (update.run
        { LightState.new 0 with
          connectivityCellular := true
          connectivityWifi := true
          steps := [castStep 3 7 1 200] }).output)
      { LightState.new 0 with
        connectivityCellular := true
        connectivityWifi := true
        steps := [castStep 3 7 1 200] } 5).map connectivity = [(0xa0, 0, 0), (0, 0x50, 0)] := by
  have haccepted : Accepted (castStep 3 7 1 200) :=
    ⟨3, 7, 1, 200, by decide, by decide, by decide, rfl⟩
  exact (((status_leds_under_animation (fun _ _ => 7) .blank _ (by simpa using haccepted)
    (by decide)).2 rfl (by decide)).2 5).2

end GemianLeds
