import GemianLeds.DBus.Liveness
import GemianLeds.Daemon.Wakeups
import GemianLeds.System.Process
import GemianLeds.System.Rest

/-! What the main thread and the event loop wait for is on its way. -/
namespace GemianLeds
open Interaction

namespace Process
variable {ramp : Instruction → Channels → ℕ} {s s' : Process} {e : ProcessEvent}

/-- What lets the threads go on. -/
structure Lively (s : Process) : Prop where
  live : s.queue.Live
  alive : s.leds.Alive
  replying : s.watcher.Replying
  called : ∀ n c, s.awaited = some (n, c) →
    s.leds.loop.promises[n]? = some .pending ∨ s.leds.loop.promises[n]? = some .value
  adding : s.queue.locked.owner = some (.adding .dbus) → s.leds.asked ≠ [] ∧ s.handed = false

theorem Lively.finish (hs : s.Lively) (hsound : s.Sound)
    (hdone : s.leds.asked = [] ∨ s.handed = true ∧ s.queue.locked.heldByDBus = false)
    {leds : LEDsLoop} (h : s.leds.step .finish = some leds) :
    Lively { s with leds, handed := false } := by
  refine ⟨hs.live, LEDsLoop.step_alive hsound.hosted hs.alive h, hs.replying, ?_, ?_⟩
  · intro n c hawaited
    have hjob := hsound.awaited n c hawaited
    have hfinish := h
    rw [LEDsLoop.step_finish] at hfinish
    obtain ⟨j, hj, -⟩ := Option.bind_eq_some_iff.mp hfinish
    obtain ⟨source, batch, hpoint, -⟩ := LEDsLoop.current_eq_some hj
    by_cases hn : n = source.number
    · subst hn
      exact .inr (LEDsLoop.finish_promise_call hsound.hosted hpoint hjob h)
    · exact (hs.called n c hawaited).imp (LEDsLoop.finish_promise_other hpoint h hn)
        (LEDsLoop.finish_promise_other hpoint h hn)
  · intro howner
    obtain ⟨hasked, hhanded⟩ := hs.adding howner
    rcases hdone with hnone | ⟨hnot, -⟩
    · exact absurd hnone hasked
    · exact absurd (hhanded.symm.trans hnot) nofun

end Process
end GemianLeds
