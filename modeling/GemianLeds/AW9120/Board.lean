import GemianLeds.LightState.Data
import GemianLeds.Sequencer.Machine
import Mathlib.Logic.Function.Basic

/-! The devices behind the daemon, as far as its writes and the words it loads concern them:
the AW9120 with its registers, its SRAM and its twenty PWM channels, and the two class LEDs.
The chip stores a word written to `WDATA` at the load address and counts the address up, as
long as the address is one of the 256 of its SRAM; it runs its SRAM from `SADDR` on, where a word
below 0x0100 is a branch. -/
namespace GemianLeds
open Sequencer

/-- PWM values of the channels 0 to 19. -/
abbrev Channels := Fin 20 → ℕ

inductive Instruction where
  | branch (addr : ℕ)
  | wait (prescale16ms : Bool) (time : ℕ)
  | setStepTimer (channel time : ℕ)
  | setPWM (channel value : ℕ)
  | rampOut (channel value : ℕ)
  | rampIn (channel value : ℕ)
  | other
  deriving DecidableEq

def decode (w : UInt32) : Instruction :=
  let n := w.toNat
  if n < 0x100 then .branch n
  else if n / 2048 = 7 then .wait (n / 1024 % 2 = 1) (n % 1024)
  else if n / 8192 = 4 then .setStepTimer (n / 256 % 32) (n % 256)
  else if n / 8192 = 5 then .setPWM (n / 256 % 32) (n % 256)
  else if n / 8192 = 6 then .rampOut (n / 256 % 32) (n % 256)
  else if n / 8192 = 7 then .rampIn (n / 256 % 32) (n % 256)
  else .other

def Instruction.target : Instruction → Option ℕ
  | .branch addr => some addr
  | _ => none

def Instruction.isWait : Instruction → Bool
  | .wait _ _ => true
  | _ => false

/-- A set-PWM word writes its channel, or all channels for channel 0x1f. A ramp word changes
its own channel, to a value that `ramp` gives. -/
def Instruction.drive (ramp : Instruction → Channels → ℕ) (i : Instruction) (ch : Channels) :
    Channels :=
  match i with
  | .setPWM c v => fun k => if c = 0x1f ∨ k.val = c then v else ch k
  | .rampOut c _ => fun k => if k.val = c then ramp i ch else ch k
  | .rampIn c _ => fun k => if k.val = c then ramp i ch else ch k
  | _ => ch

/-- The program sequencer of the chip. -/
def aw9120 (ramp : Instruction → Channels → ℕ) : Machine UInt32 Channels where
  branch w := (decode w).target
  effect w := (decode w).drive ramp

@[ext] structure Board where
  reg : UInt32 → UInt32
  sram : ℕ → UInt32
  loadAddr : ℕ
  cpu : Cpu Channels
  classLED : ClassLED → Bool

/-- A board before its first write. -/
def Board.blank : Board where
  reg _ := 0
  sram _ := 0
  loadAddr := 0
  cpu := ⟨0, fun _ => 0⟩
  classLED _ := false

def Board.write (b : Board) : Write → Board
  | .classLED led on => { b with classLED := Function.update b.classLED led on }
  | .reg addr data =>
      if addr = WDATA then
        -- there is no room behind the last of the 256 words
        if b.loadAddr < 256 then
          { b with sram := Function.update b.sram b.loadAddr data, loadAddr := b.loadAddr + 1 }
        else b
      else if addr = WADDR then { b with loadAddr := data.toNat }
      else if addr = PMR ∧ data = 1 then
        -- reload: the sequencer starts over at `SADDR`
        { b with
          reg := Function.update b.reg addr data
          cpu := ⟨(b.reg SADDR).toNat, b.cpu.data⟩ }
      else { b with reg := Function.update b.reg addr data }

def Board.writes (b : Board) (ws : List Write) : Board := ws.foldl Board.write b

@[simp] theorem Board.writes_nil (b : Board) : b.writes [] = b := rfl

@[simp] theorem Board.writes_cons (b : Board) (w : Write) (ws : List Write) :
    b.writes (w :: ws) = (b.write w).writes ws := rfl

theorem Board.writes_append (b : Board) (ws ws' : List Write) :
    b.writes (ws ++ ws') = (b.writes ws).writes ws' := List.foldl_append ..

/-- Enabled and in run mode. -/
def Board.Running (b : Board) : Prop := b.reg GCR = 1 ∧ b.reg PMR = 1 ∧ b.reg RMR = 2

instance (b : Board) : Decidable b.Running := by
  unfold Board.Running
  infer_instance

/-- The chip executes one word of its program, if it runs. -/
def Board.tick (ramp : Instruction → Channels → ℕ) (b : Board) : Board :=
  if b.Running then { b with cpu := (aw9120 ramp).step b.sram b.cpu } else b

theorem Board.tick_sram (ramp : Instruction → Channels → ℕ) (b : Board) :
    (b.tick ramp).sram = b.sram := by
  unfold Board.tick
  split <;> rfl

/-- The word a running chip executes after `n` words, with the PWM values at that moment. -/
def Board.visit (ramp : Instruction → Channels → ℕ) (b : Board) (n : ℕ) : UInt32 × Channels :=
  (aw9120 ramp).visit b.sram n b.cpu

/-- `mem` with `ws` written over it from address `a` on. -/
def overwrite (mem : ℕ → UInt32) (a : ℕ) (ws : List UInt32) (i : ℕ) : UInt32 :=
  if a ≤ i then ws[i - a]?.getD (mem i) else mem i

theorem overwrite_nil (mem : ℕ → UInt32) (a : ℕ) : overwrite mem a [] = mem := by
  funext i
  simp [overwrite]

theorem overwrite_cons (mem : ℕ → UInt32) (a : ℕ) (w : UInt32) (ws : List UInt32) :
    overwrite (Function.update mem a w) (a + 1) ws = overwrite mem a (w :: ws) := by
  funext i
  unfold overwrite
  rcases lt_trichotomy i a with hlt | rfl | hgt
  · simp [show ¬ a + 1 ≤ i by omega, show ¬ a ≤ i by omega, hlt.ne]
  · simp
  · simp [show a + 1 ≤ i by omega, show a ≤ i by omega, hgt.ne',
      show i - a = i - (a + 1) + 1 by omega]

theorem loaded_overwrite (mem : ℕ → UInt32) (a : ℕ) (ws : List UInt32) :
    Loaded (overwrite mem a ws) a ws := by
  intro i w h
  simp [overwrite, h]

/-- A word whose value the fields of its instruction make up. -/
theorem decode_setPWM {w : UInt32} {c v : ℕ} (hc : c < 32) (hv : v < 256)
    (h : w.toNat = 0xA000 + 256 * c + v) : decode w = .setPWM c v := by
  have hm : w.toNat / 256 % 32 = c ∧ w.toNat % 256 = v := by omega
  simp only [decode, hm.1, hm.2]
  rw [if_neg (by omega), if_neg (by omega), if_neg (by omega), if_pos (by omega)]

theorem decode_rampIn {w : UInt32} {c v : ℕ} (hc : c < 32) (hv : v < 256)
    (h : w.toNat = 0xE000 + 256 * c + v) : decode w = .rampIn c v := by
  have hm : w.toNat / 256 % 32 = c ∧ w.toNat % 256 = v := by omega
  simp only [decode, hm.1, hm.2]
  rw [if_neg (by omega), if_neg (by omega), if_neg (by omega), if_neg (by omega),
    if_neg (by omega), if_pos (by omega)]

theorem decode_rampOut {w : UInt32} {c v : ℕ} (hc : c < 32) (hv : v < 256)
    (h : w.toNat = 0xC000 + 256 * c + v) : decode w = .rampOut c v := by
  have hm : w.toNat / 256 % 32 = c ∧ w.toNat % 256 = v := by omega
  simp only [decode, hm.1, hm.2]
  rw [if_neg (by omega), if_neg (by omega), if_neg (by omega), if_neg (by omega),
    if_pos (by omega)]

theorem decode_wait {w : UInt32} {t : ℕ} (ht : t < 1024)
    (h : w.toNat = 0x3C00 + t) : decode w = .wait true t := by
  have hm : w.toNat / 1024 % 2 = 1 ∧ w.toNat % 1024 = t := by omega
  simp only [decode, hm.1, hm.2, decide_true]
  rw [if_neg (by omega), if_pos (by omega)]

theorem decode_branch {w : UInt32} {a : ℕ} (ha : a < 256) (h : w.toNat = a) :
    decode w = .branch a := by
  simp only [decode, h]
  rw [if_pos (by omega)]

end GemianLeds
