import GemianLeds.Sequencer.Simulation
import Mathlib.Logic.Function.Basic
import Mathlib.Data.Nat.Notation

/-! Animations as their documentation describes them: cues for the colour components of five
LEDs, and frames that are shown for a time. -/
namespace GemianLeds
open Sequencer

inductive Component where
  | red
  | green
  | blue
  deriving DecidableEq

/-- A colour component of one of the five LEDs. -/
structure Lamp where
  led : Fin 5
  component : Component
  deriving DecidableEq

/-- What the five LEDs show. -/
abbrev Panel := Lamp → ℕ

inductive Fade where
  | into
  | out

/-- A step of an animation. The time of a frame is in units of 16 ms. -/
inductive Cue where
  | set (lamp : Lamp) (value : ℕ)
  | setAll (value : ℕ)
  | fade (kind : Fade) (lamp : Lamp) (time : ℕ)
  | frame (time : ℕ)

namespace Cue

/-- `fade` gives the value that a fade leaves on a lamp, from the one it finds there. -/
def perform (fade : Fade → ℕ → ℕ → ℕ) : Cue → Panel → Panel
  | .set lamp value, p => Function.update p lamp value
  | .setAll value, _ => fun _ => value
  | .fade kind lamp time, p => Function.update p lamp (fade kind time (p lamp))
  | .frame _, p => p

/-- How long a frame is shown, in units of 0.5 ms. -/
def halfMs : Cue → Option ℕ
  | .frame time => some (32 * time)
  | _ => none

/-- A cue that may depend on what it finds on a lamp. -/
def fades (lamp : Lamp) : Cue → Prop
  | .fade _ lamp' _ => lamp' = lamp
  | _ => False

/-- A cue for one lamp. -/
inductive For (lamp : Lamp) : Cue → Prop where
  | set (value : ℕ) : For lamp (.set lamp value)
  | fade (kind : Fade) (time : ℕ) : For lamp (.fade kind lamp time)

end Cue

/-- An animation is performed cue by cue, and frames are what is seen of it. -/
def animation (fade : Fade → ℕ → ℕ → ℕ) : Machine Cue Panel where
  branch _ := none
  effect := Cue.perform fade

variable {fade : Fade → ℕ → ℕ → ℕ} {lamp : Lamp}

/-- Panels that differ on one lamp at most. -/
def EqOff (lamp : Lamp) (p q : Panel) : Prop := ∀ lamp', lamp' ≠ lamp → p lamp' = q lamp'

theorem Cue.For.eqOff {cue : Cue} (h : cue.For lamp) (p : Panel) :
    EqOff lamp (cue.perform fade p) p := by
  intro lamp' hne
  cases h with
  | set value => exact Function.update_of_ne hne ..
  | fade kind time => exact Function.update_of_ne hne ..

theorem Cue.For.halfMs {cue : Cue} (h : cue.For lamp) : cue.halfMs = none := by
  cases h <;> rfl

theorem EqOff.update {p q : Panel} (h : EqOff lamp p q) (lamp₀ : Lamp) (value : ℕ) :
    EqOff lamp (Function.update p lamp₀ value) (Function.update q lamp₀ value) := by
  intro lamp' hne
  by_cases heq : lamp' = lamp₀
  · subst heq
    rw [Function.update_self, Function.update_self]
  · rw [Function.update_of_ne heq, Function.update_of_ne heq]
    exact h lamp' hne

/-- Setting the lamp makes them equal. -/
theorem EqOff.update_eq {p q : Panel} (h : EqOff lamp p q) (value : ℕ) :
    Function.update p lamp value = Function.update q lamp value := by
  funext lamp'
  by_cases heq : lamp' = lamp
  · subst heq
    rw [Function.update_self, Function.update_self]
  · rw [Function.update_of_ne heq, Function.update_of_ne heq]
    exact h lamp' heq

/-- A cue that does not look at the lamp keeps the rest equal. -/
theorem EqOff.perform {cue : Cue} (hcue : ¬ cue.fades lamp) {p q : Panel} (h : EqOff lamp p q) :
    EqOff lamp (cue.perform fade p) (cue.perform fade q) := by
  cases cue with
  | set lamp₀ value => exact h.update lamp₀ value
  | setAll value => exact fun _ _ => rfl
  | fade kind lamp₀ time =>
    have hsame := h lamp₀ hcue
    change EqOff lamp (Function.update p lamp₀ _) (Function.update q lamp₀ _)
    rw [hsame]
    exact h.update lamp₀ _
  | frame time => exact h

theorem EqOff.through {cues : List Cue} (hcues : ∀ cue ∈ cues, ¬ cue.fades lamp) {p q : Panel}
    (h : EqOff lamp p q) :
    EqOff lamp ((animation fade).through cues p) ((animation fade).through cues q) := by
  induction cues generalizing p q with
  | nil => exact h
  | cons cue cues ih =>
    have hcue := hcues cue List.mem_cons_self
    exact ih (fun cue' hcue' => hcues cue' (.tail cue hcue')) (h.perform hcue)

variable (fade) in
/-- A cue for a lamp that is set again before a frame or a fade of the lamp has no part in what
an animation shows. -/
theorem animation_drop {cue : Cue} {cues : List Cue} (hcue : cue.For lamp)
    (hcues : ∀ cue' ∈ cues, cue'.halfMs = none ∧ ¬ cue'.fades lamp) (value : ℕ)
    (before after : List Cue) (p : Panel) :
    (animation fade).shown Cue.halfMs (before ++ cue :: (cues ++ .set lamp value :: after)) p =
        (animation fade).shown Cue.halfMs (before ++ (cues ++ .set lamp value :: after)) p ∧
      (animation fade).through (before ++ cue :: (cues ++ .set lamp value :: after)) p =
        (animation fade).through (before ++ (cues ++ .set lamp value :: after)) p := by
  have hquiet : ∀ cue' ∈ cues ++ [.set lamp value], cue'.halfMs = none := by
    rw [List.forall_mem_append]
    refine ⟨fun cue' hmem => (hcues cue' hmem).1, ?_⟩
    rintro cue' hmem
    rw [List.mem_singleton.mp hmem]
    rfl
  have habsorb (q : Panel) :
      (animation fade).through (cues ++ [.set lamp value]) (cue.perform fade q) =
        (animation fade).through (cues ++ [.set lamp value]) q := by
    rw [Machine.through_append, Machine.through_append]
    exact ((hcue.eqOff q).through fun cue' hmem => (hcues cue' hmem).2).update_eq value
  have hdrop := Machine.shown_drop hcue.halfMs hquiet habsorb before after p
  rwa [List.append_assoc] at hdrop

end GemianLeds
