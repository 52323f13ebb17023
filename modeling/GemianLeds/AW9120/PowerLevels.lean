import GemianLeds.AW9120.Loading
import Mathlib.Tactic.Ring

/-! The three-bit current levels of the twenty LEDs, packed into one 64-bit number, and the
five registers they are written to: each register holds the levels of four LEDs, and the level
of LED `n` stands in its nibble `n % 4`. -/
namespace GemianLeds
open Interaction

/-- The level of an LED, counted from 1. -/
def level (powerLevels : UInt64) (led : ℕ) : ℕ := powerLevels.toNat / 2 ^ (3 * (led - 1)) % 8

theorem level_lt (powerLevels : UInt64) (led : ℕ) : level powerLevels led < 8 :=
  Nat.mod_lt _ (by omega)

/-- The shift counts of `maxLED` are those of a 64-bit shift. -/
theorem maxLED_shifts {led : ℕ} (h : led ≤ 20) : (led - 1) * 3 < 64 ∧ led % 4 * 4 < 64 := by
  omega

theorem maxLEDOf_toNat (powerLevels : UInt64) {led : ℕ} (h : led ≤ 20) :
    (maxLEDOf powerLevels led).toNat = level powerLevels led * 16 ^ (led % 4) := by
  obtain ⟨hright, hleft⟩ := maxLED_shifts h
  have hlevel := level_lt powerLevels led
  have hr : (UInt64.ofNat ((led - 1) * 3)).toNat % 64 = 3 * (led - 1) := by
    rw [UInt64.toNat_ofNat']
    omega
  have hl : (UInt64.ofNat (led % 4 * 4)).toNat % 64 = 4 * (led % 4) := by
    rw [UInt64.toNat_ofNat']
    omega
  have hfield : ((powerLevels >>> UInt64.ofNat ((led - 1) * 3)) &&& 0x7).toNat =
      level powerLevels led := by
    rw [UInt64.toNat_and, UInt64.toNat_shiftRight, hr, Nat.shiftRight_eq_div_pow]
    exact Nat.and_two_pow_sub_one_eq_mod _ 3
  -- the nibble stays within sixteen bits, so neither the shift nor the cast drops any
  have hpow : 2 ^ (4 * (led % 4)) = 16 ^ (led % 4) := by
    rw [pow_mul]
    norm_num
  have hbound : level powerLevels led * 16 ^ (led % 4) < 2 ^ 15 := by
    calc level powerLevels led * 16 ^ (led % 4)
        ≤ 7 * 16 ^ 3 := Nat.mul_le_mul (by omega) (Nat.pow_le_pow_right (by omega) (by omega))
      _ < 2 ^ 15 := by omega
  unfold maxLEDOf
  rw [UInt64.toNat_toUInt32, UInt64.toNat_shiftLeft, hfield, hl, Nat.shiftLeft_eq, hpow]
  rw [Nat.mod_eq_of_lt (by omega), Nat.mod_eq_of_lt (by omega)]

/-- The four summands of a register do not carry into each other. -/
theorem imax_toNat (powerLevels : UInt64) {group : ℕ} (h : group < 5) :
    (imax powerLevels group).toNat =
      level powerLevels (4 * group + 4) + 16 * level powerLevels (4 * group + 1) +
        16 ^ 2 * level powerLevels (4 * group + 2) +
        16 ^ 3 * level powerLevels (4 * group + 3) := by
  have hmax (k : ℕ) (hk : k ≤ 4) := @maxLEDOf_toNat powerLevels (4 * group + k) (by omega)
  have h1 := hmax 1 (by omega)
  have h2 := hmax 2 (by omega)
  have h3 := hmax 3 (by omega)
  have h4 := hmax 4 (by omega)
  rw [show (4 * group + 1) % 4 = 1 by omega] at h1
  rw [show (4 * group + 2) % 4 = 2 by omega] at h2
  rw [show (4 * group + 3) % 4 = 3 by omega] at h3
  rw [show (4 * group + 4) % 4 = 0 by omega] at h4
  have hl1 := level_lt powerLevels (4 * group + 1)
  have hl2 := level_lt powerLevels (4 * group + 2)
  have hl3 := level_lt powerLevels (4 * group + 3)
  have hl4 := level_lt powerLevels (4 * group + 4)
  unfold imax
  simp only [UInt32.toNat_add, h1, h2, h3, h4]
  omega

theorem imax_lt (powerLevels : UInt64) {group : ℕ} (h : group < 5) :
    (imax powerLevels group).toNat < 2 ^ 16 := by
  have hl (k : ℕ) := level_lt powerLevels (4 * group + k)
  have h1 := hl 1
  have h2 := hl 2
  have h3 := hl 3
  have h4 := hl 4
  rw [imax_toNat powerLevels h]
  omega

/-- Nibble `n % 4` of the register of LED `n` is its level. -/
theorem imax_nibble (powerLevels : UInt64) {led : ℕ} (h1 : 1 ≤ led) (h20 : led ≤ 20) :
    (imax powerLevels ((led - 1) / 4)).toNat / 16 ^ (led % 4) % 16 = level powerLevels led := by
  have hl (k : ℕ) := level_lt powerLevels (4 * ((led - 1) / 4) + k)
  have hl1 := hl 1
  have hl2 := hl 2
  have hl3 := hl 3
  have hl4 := hl 4
  rw [imax_toNat powerLevels (by omega)]
  have hled : led = 4 * ((led - 1) / 4) + 1 ∧ led % 4 = 1 ∨
      led = 4 * ((led - 1) / 4) + 2 ∧ led % 4 = 2 ∨
      led = 4 * ((led - 1) / 4) + 3 ∧ led % 4 = 3 ∨
      led = 4 * ((led - 1) / 4) + 4 ∧ led % 4 = 0 := by
    omega
  generalize (led - 1) / 4 = group at *
  rcases hled with ⟨rfl, hm⟩ | ⟨rfl, hm⟩ | ⟨rfl, hm⟩ | ⟨rfl, hm⟩
  all_goals
    rw [hm]
    norm_num
    omega

/-- The low digits of a number are determined one by one. -/
theorem mod_pow_eq_of_digits {base m n k : ℕ}
    (h : ∀ i < k, m / base ^ i % base = n / base ^ i % base) : m % base ^ k = n % base ^ k := by
  induction k with
  | zero => simp [Nat.mod_one]
  | succ k ih =>
    rw [Nat.mod_pow_succ, Nat.mod_pow_succ, ih fun i hi => h i (by omega), h k (by omega)]

theorem low_bits_eq_of_levels {powerLevels powerLevels' : UInt64}
    (h : ∀ led, 1 ≤ led → led ≤ 20 → level powerLevels led = level powerLevels' led) :
    powerLevels.toNat % 2 ^ 60 = powerLevels'.toNat % 2 ^ 60 := by
  have hdigits : ∀ i < 20, powerLevels.toNat / 8 ^ i % 8 = powerLevels'.toNat / 8 ^ i % 8 := by
    intro i hi
    have hled := h (i + 1) (by omega) (by omega)
    unfold level at hled
    rwa [Nat.add_sub_cancel, pow_mul] at hled
  exact @mod_pow_eq_of_digits 8 _ _ 20 hdigits

/-- What a list of writes puts into a register, in order. -/
def valuesWritten (addr : UInt32) (ws : List Write) : List UInt32 :=
  ws.filterMap fun
    | .reg a data => if a = addr then some data else none
    | .classLED _ _ => none

/-- The five current registers. -/
def imaxRegisters : List UInt32 := [IMAX1, IMAX2, IMAX3, IMAX4, IMAX5]

/-- What `setupAW9120` writes to them. -/
def imaxValues (s : LightState) : List (List UInt32) :=
  imaxRegisters.map fun addr => valuesWritten addr (setupAW9120.run s).output

theorem setupAW9120_output (s : LightState) :
    (setupAW9120.run s).output =
      [.reg IMAX1 (imax s.powerLevels 0), .reg IMAX2 (imax s.powerLevels 1),
        .reg IMAX3 (imax s.powerLevels 2), .reg IMAX4 (imax s.powerLevels 3),
        .reg IMAX5 (imax s.powerLevels 4), .reg LER1 0x0FFF, .reg LER2 0x00FF,
        .reg CTRS1 0x0000, .reg CTRS2 0x0000] := by
  simp [setupAW9120, maxLED, writeAW9120, Program.run_bind, imax]

/-- Each of them is written once. -/
theorem imaxValues_eq (s : LightState) :
    imaxValues s = (List.range 5).map fun group => [imax s.powerLevels group] := by
  unfold imaxValues
  rw [setupAW9120_output]
  rfl

/-- The registers hold sixteen bits, the nibbles of a register are the levels of its LEDs, so
the registers determine the low sixty bits, and no shift count reaches 64. -/
theorem power_levels_packed (s : LightState) :
    imaxValues s = (List.range 5).map (fun group => [imax s.powerLevels group]) ∧
      (∀ group < 5, (imax s.powerLevels group).toNat < 2 ^ 16 ∧
        (imax s.powerLevels group).toNat = (maxLEDOf s.powerLevels (4 * group + 4)).toNat +
          (maxLEDOf s.powerLevels (4 * group + 3)).toNat +
          (maxLEDOf s.powerLevels (4 * group + 2)).toNat +
          (maxLEDOf s.powerLevels (4 * group + 1)).toNat) ∧
      (∀ led, 1 ≤ led → led ≤ 20 →
        (imax s.powerLevels ((led - 1) / 4)).toNat / 16 ^ (led % 4) % 16 =
            s.powerLevels.toNat / 2 ^ (3 * (led - 1)) % 2 ^ 3 ∧
          (led - 1) * 3 < 64 ∧ led % 4 * 4 < 64) ∧
      ∀ s' : LightState, s.powerLevels.toNat % 2 ^ 60 ≠ s'.powerLevels.toNat % 2 ^ 60 →
        imaxValues s ≠ imaxValues s' := by
  refine ⟨imaxValues_eq s, ?_, ?_, ?_⟩
  · intro group hgroup
    refine ⟨imax_lt s.powerLevels hgroup, ?_⟩
    have hmax (k : ℕ) (hk : k ≤ 4) := @maxLEDOf_toNat s.powerLevels (4 * group + k) (by omega)
    rw [imax_toNat s.powerLevels hgroup, hmax 4 (by omega), hmax 3 (by omega), hmax 2 (by omega),
      hmax 1 (by omega)]
    rw [show (4 * group + 1) % 4 = 1 by omega, show (4 * group + 2) % 4 = 2 by omega,
      show (4 * group + 3) % 4 = 3 by omega, show (4 * group + 4) % 4 = 0 by omega]
    ring
  · intro led h1 h20
    exact ⟨imax_nibble s.powerLevels h1 h20, maxLED_shifts h20⟩
  · intro s' hne heq
    apply hne
    apply low_bits_eq_of_levels
    intro led h1 h20
    rw [imaxValues_eq, imaxValues_eq, List.map_inj_left] at heq
    have hreg := List.singleton_inj.mp (heq ((led - 1) / 4) (List.mem_range.mpr (by omega)))
    rw [← imax_nibble s.powerLevels h1 h20, ← imax_nibble s'.powerLevels h1 h20, hreg]

end GemianLeds
