import GemianLeds.LightState.Update

/-! What `update` emits, in closed form: the words of the program it composes, those of them
that reach the chip, and the complete sequence of its device writes. -/
namespace GemianLeds
open Interaction

/-- A word handed to `writeSramProgAW9120`, or a class LED write between two of them. -/
inductive Emission where
  | word (w : UInt32)
  | classLED (led : ClassLED) (on : Bool)

def words : List Emission → List UInt32
  | [] => []
  | .word w :: es => w :: words es
  | .classLED _ _ :: es => words es

/-- The device writes of a list of emissions, from a value of `programCounter` on. -/
def render : UInt32 → List Emission → List Write
  | _, [] => []
  | pc, .word w :: es => (if pc < 256 then [.reg WDATA w] else []) ++ render (pc + 1) es
  | pc, .classLED led on :: es => .classLED led on :: render pc es

/-- Those of a list of words that pass the test of `programCounter`. -/
def stored : UInt32 → List UInt32 → List UInt32
  | _, [] => []
  | pc, w :: ws => (if pc < 256 then [w] else []) ++ stored (pc + 1) ws

def wordCount (es : List Emission) : UInt32 := UInt32.ofNat (words es).length

theorem ofNat_succ_add (pc : UInt32) (n : ℕ) :
    pc + UInt32.ofNat (n + 1) = pc + 1 + UInt32.ofNat n := by
  rw [Nat.add_comm, UInt32.ofNat_add, UInt32.add_assoc]
  rfl

@[simp] theorem words_append (es es' : List Emission) :
    words (es ++ es') = words es ++ words es' := by
  induction es with
  | nil => rfl
  | cons e es ih => cases e <;> simp [words, ih]

@[simp] theorem words_map_word (ws : List UInt32) : words (ws.map .word) = ws := by
  induction ws with
  | nil => rfl
  | cons w ws ih => simp [words, ih]

theorem wordCount_append (es es' : List Emission) :
    wordCount (es ++ es') = wordCount es + wordCount es' := by
  simp [wordCount, UInt32.ofNat_add]

theorem render_append (pc : UInt32) (es es' : List Emission) :
    render pc (es ++ es') = render pc es ++ render (pc + wordCount es) es' := by
  induction es generalizing pc with
  | nil => simp [render, wordCount, words]
  | cons e es ih =>
    cases e with
    | word w =>
      simp only [List.cons_append, render, ih, List.append_assoc, wordCount, words,
        List.length_cons, ofNat_succ_add]
    | classLED led on => simp only [List.cons_append, render, ih, wordCount, words]

/-- As long as the counter stays within the SRAM, nothing is dropped. -/
theorem stored_of_fits {pc : UInt32} {ws : List UInt32} (h : pc.toNat + ws.length ≤ 256) :
    stored pc ws = ws := by
  induction ws generalizing pc with
  | nil => rfl
  | cons w ws ih =>
    simp only [List.length_cons] at h
    have hpc : pc < 256 := by
      rw [UInt32.lt_iff_toNat_lt]
      change pc.toNat < 256
      omega
    have hnext : (pc + 1).toNat = pc.toNat + 1 := by
      rw [UInt32.toNat_add]
      exact Nat.mod_eq_of_lt (by change pc.toNat + 1 < _; omega)
    have hrest : stored (pc + 1) ws = ws := ih (by omega)
    simp only [stored, hpc, if_true, hrest, List.singleton_append]

/-- Every program begins with the words that fit, in order. -/
theorem stored_begins {pc : UInt32} {ws : List UInt32} :
    ws.take (256 - pc.toNat) <+: stored pc ws := by
  induction ws generalizing pc with
  | nil => simp [stored]
  | cons w ws ih =>
    by_cases hpc : pc.toNat < 256
    · have hlt : pc < 256 := UInt32.lt_iff_toNat_lt.mpr hpc
      have hnext : (pc + 1).toNat = pc.toNat + 1 := by
        rw [UInt32.toNat_add]
        exact Nat.mod_eq_of_lt (by change pc.toNat + 1 < _; omega)
      have hi := @ih (pc + 1)
      rw [hnext] at hi
      rw [show 256 - pc.toNat = 256 - (pc.toNat + 1) + 1 by omega]
      simpa [stored, hlt] using hi
    · rw [Nat.sub_eq_zero_of_le (by omega)]
      exact List.nil_prefix

/-- Loaded from address 0, an SRAM of 256 words keeps the first 256 of them. -/
theorem take_stored (ws : List UInt32) : (stored 0 ws).take 256 = ws.take 256 := by
  by_cases hfit : ws.length ≤ 256
  · rw [stored_of_fits (by change 0 + ws.length ≤ 256; omega)]
  · have hbegins : ws.take 256 <+: stored 0 ws := @stored_begins 0 ws
    have hlength : (ws.take 256).length = 256 := by
      rw [List.length_take]
      omega
    rw [List.prefix_iff_eq_take.mp hbegins, hlength]

section Loading

/-- The light state with another value of the counter. -/
def LightState.at (s : LightState) (pc : UInt32) : LightState := { s with programCounter := pc }

@[simp] theorem LightState.at_programCounter (s : LightState) (pc : UInt32) :
    (s.at pc).programCounter = pc := rfl

@[simp] theorem LightState.at_steps (s : LightState) (pc : UInt32) :
    (s.at pc).steps = s.steps := rfl

@[simp] theorem LightState.at_at (s : LightState) (pc pc' : UInt32) :
    (s.at pc).at pc' = s.at pc' := rfl

/-- In the light state `s`, whatever the counter, `p` returns `a`, emits `es` and changes
nothing but the counter. -/
def Loads {α : Type} (s : LightState) (p : LightM α) (a : α) (es : List Emission) : Prop :=
  ∀ pc, p.run (s.at pc) = ⟨a, s.at (pc + wordCount es), render pc es⟩

variable {s : LightState} {α β : Type}

theorem Loads.pure (a : α) : Loads s (Pure.pure a) a [] := by
  intro pc
  simp [render, wordCount, words]

theorem Loads.bind {p : LightM α} {k : α → LightM β} {a : α} {b : β} {es es' : List Emission}
    (h : Loads s p a es) (h' : Loads s (k a) b es') : Loads s (p >>= k) b (es ++ es') := by
  intro pc
  rw [Program.run_bind_of (h pc), h' (pc + wordCount es), render_append, wordCount_append,
    UInt32.add_assoc]

theorem Loads.congr {p : LightM α} {a : α} {es es' : List Emission} (h : Loads s p a es)
    (he : es = es') : Loads s p a es' := he ▸ h

theorem Loads.seq {p : LightM Unit} {q : LightM β} {b : β} {es es' : List Emission}
    (h : Loads s p () es) (h' : Loads s q b es') : Loads s (p >>= fun _ => q) b (es ++ es') :=
  h.bind h'

theorem Loads.word (w : UInt32) : Loads s (writeSramProgAW9120 w) () [.word w] := by
  intro pc
  by_cases hpc : pc < 256 <;>
    simp [writeSramProgAW9120, writeAW9120, Program.run_bind, hpc, render, wordCount, words] <;> rfl

theorem Loads.classLEDRed (on : Bool) :
    Loads s (writeClassLEDRed on) () [.classLED .red on] := by
  intro pc
  simp [writeClassLEDRed, render, wordCount, words]

theorem Loads.classLEDGreen (on : Bool) :
    Loads s (writeClassLEDGreen on) () [.classLED .green on] := by
  intro pc
  simp [writeClassLEDGreen, render, wordCount, words]

theorem Loads.cond {c : LightState → Bool} {p q : LightM α} {a : α} {es es' : List Emission}
    (hc : ∀ pc, c (s.at pc) = c s) (h : Loads s p a es) (h' : Loads s q a es') :
    Loads s (Program.cond c p q) a (bif c s then es else es') := by
  intro pc
  rw [Program.run_cond, hc]
  cases c s
  · exact h' pc
  · exact h pc

theorem Loads.when {c : LightState → Bool} {p : LightM Unit} {es : List Emission}
    (hc : ∀ pc, c (s.at pc) = c s) (h : Loads s p () es) :
    Loads s (Program.when c p) () (bif c s then es else []) :=
  h.cond hc (Loads.pure ())

end Loading

/-- The emissions of `writeStatus`. -/
def statusEmission (s : LightState) : List Emission :=
  (bif s.callEarpiece then
    bif s.callLeftUp then
      [.word (SETPWMI + CH_6_RED + 0xa0), .word (SETPWMI + CH_6_GREEN + 0x00),
        .classLED .red false, .classLED .green true]
    else
      [.word (SETPWMI + CH_6_RED + 0x00), .word (SETPWMI + CH_6_GREEN + 0x50),
        .classLED .red true, .classLED .green false]
  else
    [.classLED .red false, .classLED .green false] ++
    (bif s.connectivityCellular then [.word (SETPWMI + CH_6_RED + 0xa0)] else []) ++
    (bif s.connectivityWifi then [.word (SETPWMI + CH_6_GREEN + 0x50)] else []) ++
    (bif s.connectivityBluetooth then
      bif s.connectivityWifi then [.word (SETPWMI + CH_6_BLUE + 0xc0)]
      else [.word (SETPWMI + CH_6_BLUE + 0xff)]
    else [])) ++
  (bif s.capsLock then [.word (SETPWMI + CH_7_RED + 0xa0)] else []) ++
  (bif decide (s.powerState ≠ 0) then [.word (SETPWMI + CH_7_BLUE + 0xff)] else [])

/-- The emissions before the loop of the program. -/
def preludeEmission (s : LightState) : List Emission :=
  .word (SET_STEP_TMRI + CH_ALL_LEDS + SET_STEP_PRE_05MS + 0x3) ::
    .word (SETPWMI + CH_ALL_LEDS + 0x00) :: statusEmission s

/-- The word of one step; a step of an unknown type has none. -/
def stepWords (step : BlockAnimStep) : List UInt32 :=
  match step.type with
  | .delay => [WAITI + WAIT_PRE_16MS + step.value]
  | .setPWM => [SETPWMI + (awLEDCodeForStep step).toUInt32 + step.value]
  | .fadeIn => [RAMPI_IN + (awLEDCodeForStep step).toUInt32 + step.value]
  | .fadeOut => [RAMPI_OUT + (awLEDCodeForStep step).toUInt32 + step.value]
  | _ => []

def animationWords (steps : List BlockAnimStep) : List UInt32 := steps.flatMap stepWords

def hasDelay (steps : List BlockAnimStep) : Bool := steps.any fun step => step.type = .delay

/-- The words of `writeStatusTail`. -/
def statusTailWords (s : LightState) : List UInt32 :=
  bif s.callEarpiece then [WAITI + WAIT_PRE_16MS + MAX_WAIT]
  else
    [SETPWMI + CH_6_RED + 0x00, SETPWMI + CH_6_GREEN + 0x00, SETPWMI + CH_6_BLUE + 0x00] ++
    (bif s.connectivityCellular then
      [SETPWMI + CH_6_RED + 0xa0, WAITI + WAIT_PRE_16MS + 0x80, SETPWMI + CH_6_RED + 0x00]
    else []) ++
    (bif s.connectivityWifi then
      [SETPWMI + CH_6_GREEN + 0x50, WAITI + WAIT_PRE_16MS + 0x80, SETPWMI + CH_6_GREEN + 0x00]
    else []) ++
    (bif s.connectivityBluetooth then
      [SETPWMI + CH_6_BLUE + 0xff, WAITI + WAIT_PRE_16MS + 0x80, SETPWMI + CH_6_BLUE + 0x00]
    else []) ++
    (bif !s.connectivityCellular && !s.connectivityWifi && !s.connectivityBluetooth then
      [WAITI + WAIT_PRE_16MS + MAX_WAIT]
    else [])

def preludeWords (s : LightState) : List UInt32 := words (preludeEmission s)

/-- The loop of the program without its closing branch. -/
def bodyWords (s : LightState) : List UInt32 :=
  animationWords s.steps ++ bif hasDelay s.steps then [] else statusTailWords s

/-- The address the loop begins at, and the word that branches back to it. -/
def loopStartPC (s : LightState) : UInt32 := UInt32.ofNat (preludeWords s).length

/-- All words `update` hands to `writeSramProgAW9120`. -/
def program (s : LightState) : List UInt32 := preludeWords s ++ (bodyWords s ++ [loopStartPC s])

theorem writeStatus_loads (s : LightState) : Loads s writeStatus () (statusEmission s) := by
  have four (w₁ w₂ : UInt32) (red green : Bool) : Loads s
      (do
        writeSramProgAW9120 w₁
        writeSramProgAW9120 w₂
        writeClassLEDRed red
        writeClassLEDGreen green) ()
      [.word w₁, .word w₂, .classLED .red red, .classLED .green green] :=
    (Loads.seq (.word w₁) (.seq (.word w₂) (.seq (.classLEDRed red) (.classLEDGreen green)))).congr
      rfl
  have hflags := Loads.seq (s := s) (.classLEDRed false) (.seq (.classLEDGreen false)
    (.seq (.when (c := (·.connectivityCellular)) (fun _ => rfl) (.word (SETPWMI + CH_6_RED + 0xa0)))
      (.seq (.when (c := (·.connectivityWifi)) (fun _ => rfl)
          (.word (SETPWMI + CH_6_GREEN + 0x50)))
        (.when (c := (·.connectivityBluetooth)) (fun _ => rfl)
          (.cond (c := (·.connectivityWifi)) (fun _ => rfl)
            (.word (SETPWMI + CH_6_BLUE + 0xc0)) (.word (SETPWMI + CH_6_BLUE + 0xff)))))))
  refine (Loads.seq (.cond (fun _ => rfl) (.cond (fun _ => rfl) (four _ _ _ _) (four _ _ _ _))
    hflags) (.seq (.when (fun _ => rfl) (.word _)) (.when (fun _ => rfl) (.word _)))).congr ?_
  simp only [statusEmission, List.append_assoc, List.cons_append, List.nil_append]

theorem writeStatusTail_loads (s : LightState) :
    Loads s writeStatusTail () ((statusTailWords s).map .word) := by
  have three (w₁ w₂ w₃ : UInt32) : Loads s
      (do
        writeSramProgAW9120 w₁
        writeSramProgAW9120 w₂
        writeSramProgAW9120 w₃) ()
      ([w₁, w₂, w₃].map .word) :=
    (Loads.seq (.word w₁) (.seq (.word w₂) (.word w₃))).congr rfl
  have map_bif (b : Bool) (ws ws' : List UInt32) :
      (bif b then ws else ws').map Emission.word =
        bif b then ws.map .word else ws'.map .word := by cases b <;> rfl
  refine (Loads.cond (fun _ => rfl) (.word _) (.seq (.word _) (.seq (.word _) (.seq (.word _)
    (.seq (.when (fun _ => rfl) (three _ _ _)) (.seq (.when (fun _ => rfl) (three _ _ _))
      (.seq (.when (fun _ => rfl) (three _ _ _)) (.when (fun _ => rfl) (.word _))))))))).congr ?_
  simp only [statusTailWords, map_bif, List.map_append, List.map_cons, List.map_nil,
    List.append_assoc, List.cons_append, List.nil_append]

theorem writeSteps_loads (s : LightState) (steps : List BlockAnimStep) (delaySet : Bool) :
    Loads s (writeSteps steps delaySet) (delaySet || hasDelay steps)
      ((animationWords steps).map .word) := by
  induction steps generalizing delaySet with
  | nil => simpa [writeSteps, hasDelay, animationWords] using Loads.pure (s := s) delaySet
  | cons step rest ih =>
    have hwords : (animationWords (step :: rest)).map Emission.word =
        (stepWords step).map .word ++ (animationWords rest).map .word := by
      simp [animationWords]
    rw [hwords]
    cases ht : step.type with
    | delay =>
      have hd : (delaySet || hasDelay (step :: rest)) = (true || hasDelay rest) := by
        simp [hasDelay, ht]
      rw [hd]
      simp only [writeSteps, stepWords, ht]
      exact Loads.seq (.word _) (ih true)
    | setPWM | fadeIn | fadeOut =>
      have hd : (delaySet || hasDelay (step :: rest)) = (delaySet || hasDelay rest) := by
        simp [hasDelay, ht]
      rw [hd]
      simp only [writeSteps, stepWords, ht]
      exact Loads.seq (.word _) (ih delaySet)
    | max | unnamed =>
      have hd : (delaySet || hasDelay (step :: rest)) = (delaySet || hasDelay rest) := by
        simp [hasDelay, ht]
      rw [hd]
      simp only [writeSteps, stepWords, ht]
      exact ih delaySet

/-- The value written to the current register of LEDs `4 * group + 1` to `4 * group + 4`. -/
def imax (powerLevels : UInt64) (group : ℕ) : UInt32 :=
  maxLEDOf powerLevels (4 * group + 4) + maxLEDOf powerLevels (4 * group + 3) +
    maxLEDOf powerLevels (4 * group + 2) + maxLEDOf powerLevels (4 * group + 1)

/-- The register writes before the first word of the program. -/
def setupWrites (s : LightState) : List Write :=
  [.reg GCR 0, .reg IMAX1 (imax s.powerLevels 0), .reg IMAX2 (imax s.powerLevels 1),
    .reg IMAX3 (imax s.powerLevels 2), .reg IMAX4 (imax s.powerLevels 3),
    .reg IMAX5 (imax s.powerLevels 4), .reg LER1 0x0FFF, .reg LER2 0x00FF, .reg CTRS1 0x0000,
    .reg CTRS2 0x0000, .reg GCR 0x1, .reg PMR 0x0000, .reg RMR 0x0000, .reg WADDR 0x0000]

/-- The register writes after its last word. -/
def runWrites : List Write := [.reg SADDR 0x0000, .reg PMR 0x0001, .reg RMR 0x0002]

def programEmission (s : LightState) : List Emission :=
  preludeEmission s ++ (bodyWords s ++ [loopStartPC s]).map .word

@[simp] theorem words_programEmission (s : LightState) :
    words (programEmission s) = program s := by
  simp only [programEmission, program, preludeWords, words_append, words_map_word]

def updateWrites (s : LightState) : List Write :=
  setupWrites s ++ (render 0 (programEmission s) ++ runWrites)

theorem prelude_loads (s : LightState) :
    Loads s
      (do
        writeSramProgAW9120 (SET_STEP_TMRI + CH_ALL_LEDS + SET_STEP_PRE_05MS + 0x3)
        writeSramProgAW9120 (SETPWMI + CH_ALL_LEDS + 0x00)
        writeStatus) ()
      (preludeEmission s) :=
  (Loads.seq (.word _) (.seq (.word _) (writeStatus_loads s))).congr rfl

theorem loop_loads (s : LightState) :
    Loads s
      (do
        let delaySet ← writeSteps s.steps false
        Program.when (fun _ => !delaySet) writeStatusTail
        writeSramProgAW9120 (loopStartPC s)) ()
      ((bodyWords s ++ [loopStartPC s]).map .word) := by
  refine ((writeSteps_loads s s.steps false).bind
    (.seq (.when (fun _ => rfl) (writeStatusTail_loads s)) (.word _))).congr ?_
  rw [Bool.false_or]
  cases hd : hasDelay s.steps <;> simp [bodyWords, hd]

/-- The register writes up to the reset of the load address. -/
theorem setup_run (s : LightState) :
    (do
      disableAW9120
      setupAW9120
      enableAW9120
      holdSramAW9120
      resetSramLoadAddrAW9120 : LightM Unit).run s = ⟨(), s.at 0, setupWrites s⟩ := by
  simp [disableAW9120, setupAW9120, maxLED, enableAW9120, holdSramAW9120,
    resetSramLoadAddrAW9120, writeAW9120, Program.run_bind, setupWrites, imax, LightState.at]

theorem runSram_run (s : LightState) : runSramAW9120.run s = ⟨(), s, runWrites⟩ := by
  simp [runSramAW9120, writeAW9120, Program.run_bind, runWrites]

theorem update_eq : update = (do
    (do
      disableAW9120
      setupAW9120
      enableAW9120
      holdSramAW9120
      resetSramLoadAddrAW9120)
    (do
      writeSramProgAW9120 (SET_STEP_TMRI + CH_ALL_LEDS + SET_STEP_PRE_05MS + 0x3)
      writeSramProgAW9120 (SETPWMI + CH_ALL_LEDS + 0x00)
      writeStatus)
    let s ← Program.get
    let s' ← Program.get
    (do
      let delaySet ← writeSteps s'.steps false
      Program.when (fun _ => !delaySet) writeStatusTail
      writeSramProgAW9120 s.programCounter)
    runSramAW9120 : LightM Unit) := by
  simp only [update, Program.bind_assoc]

/-- The light state after `update`: only the counter changes, to the length of the program. -/
def LightState.updated (s : LightState) : LightState :=
  s.at (UInt32.ofNat (program s).length)

@[simp] theorem program_updated (s : LightState) : program s.updated = program s := rfl

@[simp] theorem updateWrites_updated (s : LightState) :
    updateWrites s.updated = updateWrites s := rfl

@[simp] theorem updated_updated (s : LightState) : s.updated.updated = s.updated := rfl

/-- All of `update`: its writes are a function of the light state. -/
theorem update_run (s : LightState) : update.run s = ⟨(), s.updated, updateWrites s⟩ := by
  have hpre := (prelude_loads s) 0
  have hloop := (loop_loads s) (loopStartPC s)
  have hstart : (0 : UInt32) + wordCount (preludeEmission s) = loopStartPC s := UInt32.zero_add _
  have hlen : loopStartPC s + wordCount ((bodyWords s ++ [loopStartPC s]).map .word) =
      UInt32.ofNat (program s).length := by
    rw [← words_programEmission]
    exact (wordCount_append _ _).symm
  rw [update_eq, Program.run_bind_of (setup_run s), Program.run_bind_of hpre, hstart,
    Program.run_bind_of (Program.run_get _), Program.run_bind_of (Program.run_get _)]
  simp only [LightState.at_steps, LightState.at_programCounter]
  rw [Program.run_bind_of hloop, hlen, runSram_run]
  simp only [updateWrites, programEmission, render_append, UInt32.zero_add, List.append_assoc,
    List.nil_append]
  rfl

example : (program (.new 0)).map UInt32.toNat =
    [0x9f03, 0xbf00, 0xaf00, 0xb000, 0xb100, 0x3fff, 2] := by decide

end GemianLeds
