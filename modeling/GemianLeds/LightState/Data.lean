import GemianLeds.Interaction.Program
import Mathlib.Data.Nat.Notation

/-! The light state of the daemon, the animation steps it holds, and the register and
instruction constants of the AW9120 it programs. -/
namespace GemianLeds

/-- A colour component. `SetLEDBlockStep` casts any 32-bit number to this type, so numbers
without a name occur. -/
inductive BlockColour where
  | red
  | green
  | blue
  | unnamed (n : UInt32) (h : 2 < n)
  deriving DecidableEq

/-- `static_cast<BlockColour>`. -/
def BlockColour.ofUInt32 (n : UInt32) : BlockColour :=
  if h : 2 < n then .unnamed n h
  else if n = 2 then .blue
  else if n = 1 then .green
  else .red

inductive BlockStepType where
  | setPWM
  | fadeIn
  | fadeOut
  | delay
  | max
  | unnamed (n : UInt32) (h : 4 < n)
  deriving DecidableEq

def BlockStepType.toUInt32 : BlockStepType → UInt32
  | .setPWM => 0
  | .fadeIn => 1
  | .fadeOut => 2
  | .delay => 3
  | .max => 4
  | .unnamed n _ => n

/-- `static_cast<BlockStepType>`. -/
def BlockStepType.ofUInt32 (n : UInt32) : BlockStepType :=
  if h : 4 < n then .unnamed n h
  else if n = 4 then .max
  else if n = 3 then .delay
  else if n = 2 then .fadeOut
  else if n = 1 then .fadeIn
  else .setPWM

structure BlockAnimStep where
  led : Int32
  colour : BlockColour
  type : BlockStepType
  value : UInt32
  deriving DecidableEq

def POWER_LEVEL_20b001s : UInt64 := 0x249249249249249
def POWER_LEVEL_20b111s : UInt64 := 0xfffffffffffffff

/-- The fields of a `LightState` other than its log, which nothing reads. -/
structure LightState where
  capsLock : Bool
  powerState : Int32
  connectivityWifi : Bool
  connectivityBluetooth : Bool
  connectivityCellular : Bool
  callEarpiece : Bool
  callLeftUp : Bool
  steps : List BlockAnimStep
  programCounter : UInt32
  powerLevels : UInt64

/-- The constructor. It leaves `programCounter` as it finds it. -/
def LightState.new (programCounter : UInt32) : LightState where
  capsLock := false
  powerState := 0
  connectivityWifi := false
  connectivityBluetooth := false
  connectivityCellular := false
  callEarpiece := false
  callLeftUp := false
  steps := []
  programCounter := programCounter
  powerLevels := POWER_LEVEL_20b001s

/-- The number of connected technologies. -/
def connected (s : LightState) : ℕ :=
  s.connectivityCellular.toNat + s.connectivityWifi.toNat + s.connectivityBluetooth.toNat

theorem connected_le (s : LightState) : connected s ≤ 3 := by
  have hcellular := s.connectivityCellular.toNat_le
  have hwifi := s.connectivityWifi.toNat_le
  have hbluetooth := s.connectivityBluetooth.toNat_le
  unfold connected
  omega

def GCR : UInt32 := 0x01
def LER1 : UInt32 := 0x50
def LER2 : UInt32 := 0x51
def PMR : UInt32 := 0x53
def RMR : UInt32 := 0x54
def CTRS1 : UInt32 := 0x55
def CTRS2 : UInt32 := 0x56
def IMAX1 : UInt32 := 0x57
def IMAX2 : UInt32 := 0x58
def IMAX3 : UInt32 := 0x59
def IMAX4 : UInt32 := 0x5a
def IMAX5 : UInt32 := 0x5b
def SADDR : UInt32 := 0x5f
def WADDR : UInt32 := 0x7e
def WDATA : UInt32 := 0x7f

def SETPWMI : UInt32 := 0xA000
def WAITI : UInt32 := 0x3800
def WAIT_PRE_16MS : UInt32 := 0x400
def MAX_WAIT : UInt32 := 0x3ff
def SET_STEP_TMRI : UInt32 := 0x8000
def SET_STEP_PRE_05MS : UInt32 := 0x00
def RAMPI_IN : UInt32 := 0xE000
def RAMPI_OUT : UInt32 := 0xC000
def CH_ALL_LEDS : UInt32 := 0x1f00
def CH_6_RED : UInt32 := 0x0f00
def CH_6_GREEN : UInt32 := 0x1000
def CH_6_BLUE : UInt32 := 0x1100
def CH_7_RED : UInt32 := 0x1200
def CH_7_BLUE : UInt32 := 0x1300

inductive ClassLED where
  | red
  | green
  deriving DecidableEq

/-- What leaves the process: a line to `/proc/aw9120_reg`, or a class LED's brightness. -/
inductive Write where
  | reg (addr data : UInt32)
  | classLED (led : ClassLED) (on : Bool)
  deriving DecidableEq

/-- Code that reads and changes the light state and writes to the devices. -/
abbrev LightM := Interaction.Program LightState Write

end GemianLeds
