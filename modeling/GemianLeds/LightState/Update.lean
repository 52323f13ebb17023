import GemianLeds.LightState.Data

/-! `LightState::Update` and the handlers, as programs whose atomic actions are the reads and
writes of the light state and the single writes to the devices. -/
namespace GemianLeds
open Interaction

def writeAW9120 (addr regData : UInt32) : LightM Unit := Program.emit (.reg addr regData)

def writeClassLEDGreen (on : Bool) : LightM Unit := Program.emit (.classLED .green on)

def writeClassLEDRed (on : Bool) : LightM Unit := Program.emit (.classLED .red on)

def disableAW9120 : LightM Unit := writeAW9120 GCR 0

def enableAW9120 : LightM Unit := writeAW9120 GCR 0x1

/-- The current of one LED, as its nibble of the register of its group of four. -/
def maxLEDOf (powerLevels : UInt64) (led : ℕ) : UInt32 :=
  (((powerLevels >>> UInt64.ofNat ((led - 1) * 3)) &&& 0x7) <<< UInt64.ofNat (led % 4 * 4)).toUInt32

def maxLED (led : ℕ) : LightM UInt32 := do
  return maxLEDOf (← Program.get).powerLevels led

def setupAW9120 : LightM Unit := do
  writeAW9120 IMAX1 ((← maxLED 4) + (← maxLED 3) + (← maxLED 2) + (← maxLED 1))
  writeAW9120 IMAX2 ((← maxLED 8) + (← maxLED 7) + (← maxLED 6) + (← maxLED 5))
  writeAW9120 IMAX3 ((← maxLED 12) + (← maxLED 11) + (← maxLED 10) + (← maxLED 9))
  writeAW9120 IMAX4 ((← maxLED 16) + (← maxLED 15) + (← maxLED 14) + (← maxLED 13))
  writeAW9120 IMAX5 ((← maxLED 20) + (← maxLED 19) + (← maxLED 18) + (← maxLED 17))
  writeAW9120 LER1 0x0FFF
  writeAW9120 LER2 0x00FF
  writeAW9120 CTRS1 0x0000
  writeAW9120 CTRS2 0x0000

def holdSramAW9120 : LightM Unit := do
  writeAW9120 PMR 0x0000
  writeAW9120 RMR 0x0000

def runSramAW9120 : LightM Unit := do
  writeAW9120 SADDR 0x0000
  writeAW9120 PMR 0x0001
  writeAW9120 RMR 0x0002

def resetSramLoadAddrAW9120 : LightM Unit := do
  writeAW9120 WADDR 0x0000
  Program.modify fun s => { s with programCounter := 0 }

def writeSramProgAW9120 (regData : UInt32) : LightM Unit := do
  Program.when (fun s => s.programCounter < 256) (writeAW9120 WDATA regData)
  Program.modify fun s => { s with programCounter := s.programCounter + 1 }

def awLEDCodeForStep (step : BlockAnimStep) : Int32 :=
  let awLed : Int32 :=
    if step.led = 2 then 0xc00
    else if 2 < step.led ∧ step.led < 6 then ((step.led - 2) * 3) <<< 8
    else if step.led = 0x1f ∧ step.colour = .red then CH_ALL_LEDS.toInt32
    else 0
  match step.colour with
  | .blue => awLed + 0x200
  | .green => awLed + 0x100
  | _ => awLed

/-- The status LEDs, set once before the loop of the program. -/
def writeStatus : LightM Unit := do
  Program.cond (·.callEarpiece)
    (Program.cond (·.callLeftUp)
      (do
        writeSramProgAW9120 (SETPWMI + CH_6_RED + 0xa0)
        writeSramProgAW9120 (SETPWMI + CH_6_GREEN + 0x00)
        writeClassLEDRed false
        writeClassLEDGreen true)
      (do
        writeSramProgAW9120 (SETPWMI + CH_6_RED + 0x00)
        writeSramProgAW9120 (SETPWMI + CH_6_GREEN + 0x50)
        writeClassLEDRed true
        writeClassLEDGreen false))
    (do
      writeClassLEDRed false
      writeClassLEDGreen false
      Program.when (·.connectivityCellular)
        (writeSramProgAW9120 (SETPWMI + CH_6_RED + 0xa0))
      Program.when (·.connectivityWifi)
        (writeSramProgAW9120 (SETPWMI + CH_6_GREEN + 0x50))
      Program.when (·.connectivityBluetooth)
        (Program.cond (·.connectivityWifi)
          (writeSramProgAW9120 (SETPWMI + CH_6_BLUE + 0xc0))
          (writeSramProgAW9120 (SETPWMI + CH_6_BLUE + 0xff))))
  Program.when (·.capsLock)
    (writeSramProgAW9120 (SETPWMI + CH_7_RED + 0xa0))
  Program.when (·.powerState ≠ 0)
    (writeSramProgAW9120 (SETPWMI + CH_7_BLUE + 0xff))

/-- The loop over the steps; it returns `delaySet`. -/
def writeSteps : List BlockAnimStep → Bool → LightM Bool
  | [], delaySet => return delaySet
  | step :: rest, delaySet =>
    match step.type with
    | .delay => do
        writeSramProgAW9120 (WAITI + WAIT_PRE_16MS + step.value)
        writeSteps rest true
    | .setPWM => do
        writeSramProgAW9120 (SETPWMI + (awLEDCodeForStep step).toUInt32 + step.value)
        writeSteps rest delaySet
    | .fadeIn => do
        writeSramProgAW9120 (RAMPI_IN + (awLEDCodeForStep step).toUInt32 + step.value)
        writeSteps rest delaySet
    | .fadeOut => do
        writeSramProgAW9120 (RAMPI_OUT + (awLEDCodeForStep step).toUInt32 + step.value)
        writeSteps rest delaySet
    | _ => writeSteps rest delaySet

/-- The status LEDs inside the loop, for an animation without a delay. -/
def writeStatusTail : LightM Unit :=
  Program.cond (·.callEarpiece)
    (writeSramProgAW9120 (WAITI + WAIT_PRE_16MS + MAX_WAIT))
    (do
      writeSramProgAW9120 (SETPWMI + CH_6_RED + 0x00)
      writeSramProgAW9120 (SETPWMI + CH_6_GREEN + 0x00)
      writeSramProgAW9120 (SETPWMI + CH_6_BLUE + 0x00)
      Program.when (·.connectivityCellular) (do
        writeSramProgAW9120 (SETPWMI + CH_6_RED + 0xa0)
        writeSramProgAW9120 (WAITI + WAIT_PRE_16MS + 0x80)
        writeSramProgAW9120 (SETPWMI + CH_6_RED + 0x00))
      Program.when (·.connectivityWifi) (do
        writeSramProgAW9120 (SETPWMI + CH_6_GREEN + 0x50)
        writeSramProgAW9120 (WAITI + WAIT_PRE_16MS + 0x80)
        writeSramProgAW9120 (SETPWMI + CH_6_GREEN + 0x00))
      Program.when (·.connectivityBluetooth) (do
        writeSramProgAW9120 (SETPWMI + CH_6_BLUE + 0xff)
        writeSramProgAW9120 (WAITI + WAIT_PRE_16MS + 0x80)
        writeSramProgAW9120 (SETPWMI + CH_6_BLUE + 0x00))
      Program.when
        (fun s => !s.connectivityCellular && !s.connectivityWifi && !s.connectivityBluetooth)
        (writeSramProgAW9120 (WAITI + WAIT_PRE_16MS + MAX_WAIT)))

def update : LightM Unit := do
  disableAW9120
  setupAW9120
  enableAW9120
  holdSramAW9120
  resetSramLoadAddrAW9120
  writeSramProgAW9120 (SET_STEP_TMRI + CH_ALL_LEDS + SET_STEP_PRE_05MS + 0x3)
  writeSramProgAW9120 (SETPWMI + CH_ALL_LEDS + 0x00)
  writeStatus
  let loopStartPC := (← Program.get).programCounter
  let delaySet ← writeSteps (← Program.get).steps false
  Program.when (fun _ => !delaySet) writeStatusTail
  writeSramProgAW9120 loopStartPC
  runSramAW9120

/-- The handlers that store one flag and reprogram the chip. -/
def setAndUpdate (set : LightState → LightState) : LightM Unit := do
  Program.modify set
  update

def handleCapsLock (state : Bool) : LightM Unit :=
  setAndUpdate fun s => { s with capsLock := state }

def handleConnectivityWifi (state : Bool) : LightM Unit :=
  setAndUpdate fun s => { s with connectivityWifi := state }

def handleConnectivityBluetooth (state : Bool) : LightM Unit :=
  setAndUpdate fun s => { s with connectivityBluetooth := state }

def handleConnectivityCellular (state : Bool) : LightM Unit :=
  setAndUpdate fun s => { s with connectivityCellular := state }

def handleClearBlock : LightM Unit :=
  Program.modify fun s => { s with steps := [] }

def handlePushBlock : LightM Unit := update

def emplaceBack (led : Int32) (colour : BlockColour) (type : BlockStepType) (value : UInt32) :
    LightM Unit :=
  Program.modify fun s => { s with steps := s.steps ++ [⟨led, colour, type, value⟩] }

def handleSetBlockRGB (led : Int32) (colour : BlockColour) (type : BlockStepType)
    (value : UInt32) : LightM Unit :=
  emplaceBack led colour type value

def handleTorch (on : Bool) : LightM Unit := do
  Program.modify fun s =>
    { s with powerLevels := if on then POWER_LEVEL_20b111s else POWER_LEVEL_20b001s }
  handleClearBlock
  Program.when (fun _ => on) (emplaceBack 0x1f .red .setPWM 0xff)
  handlePushBlock
  update

def handleCall (earpiece leftUp : Bool) : LightM Unit := do
  Program.modify fun s => { s with callEarpiece := earpiece }
  Program.modify fun s => { s with callLeftUp := leftUp }
  update

end GemianLeds
