import GemianLeds.Interaction.Runs
import Mathlib.Data.Nat.Notation
import Mathlib.Algebra.Order.Group.Nat

/-! How many steps of one kind a run can have. A rank that these steps lower, and no other step
raises, bounds their number; a rank that they raise, until something is done, says when it is
done at the latest. -/
namespace Interaction

universe u v

variable {σ : Type u} {ℓ : Type v} {step : σ → ℓ → Option σ} {P : σ → ℓ → Prop}
  {I : σ → Prop} {s s' : σ} {ls : List ℓ}

/-- Two conditions on the same run. -/
theorem Throughout.and {Q : σ → ℓ → Prop} (hP : Throughout step P s ls)
    (hQ : Throughout step Q s ls) : Throughout step (fun s l => P s l ∧ Q s l) s ls := by
  induction ls generalizing s with
  | nil => trivial
  | cons l ls ih => exact ⟨⟨hP.1, hQ.1⟩, fun t ht => ih (hP.2 t ht) (hQ.2 t ht)⟩

/-- On a given run a decidable condition can be tested. -/
instance decidableThroughout [∀ s l, Decidable (P s l)] :
    (s : σ) → (ls : List ℓ) → Decidable (Throughout step P s ls)
  | _, [] => .isTrue trivial
  | s, l :: ls =>
    match h : step s l with
    | none =>
      decidable_of_iff (P s l)
        ⟨fun hP => ⟨hP, fun _ ht => absurd (h.symm.trans ht) nofun⟩, And.left⟩
    | some t =>
      have := decidableThroughout t ls
      decidable_of_iff (P s l ∧ Throughout step P t ls)
        ⟨fun hP => ⟨hP.1, fun _ ht => Option.some.inj (h.symm.trans ht) ▸ hP.2⟩,
          fun hP => ⟨hP.1, hP.2 t h⟩⟩

theorem countP_cons_toNat (counted : ℓ → Bool) (l : ℓ) (ls : List ℓ) :
    (l :: ls).countP counted = ls.countP counted + (counted l).toNat := by
  rw [List.countP_cons]
  cases counted l <;> rfl

/-- Steps that lower a rank, until something is done that stays done, are as few as it says,
when every step that raises it does so by no more than `gain`. -/
theorem done_or_count_add_rank_le (Done : σ → Prop) (rank : σ → ℕ) (counted raises : ℓ → Bool)
    (gain : ℕ) (hP : Throughout step P s ls) (h : runFrom step s ls = some s') (h₀ : I s)
    (hstep : ∀ {t l t'}, P t l → I t → step t l = some t' →
      I t' ∧ (Done t → Done t') ∧
        (Done t' ∨ (counted l).toNat + rank t' ≤ rank t + gain * (raises l).toNat)) :
    Done s' ∨ ls.countP counted + rank s' ≤ rank s + gain * ls.countP raises := by
  induction ls generalizing s with
  | nil =>
    obtain rfl := Option.some.inj h
    exact .inr (by simp)
  | cons l ls ih =>
    obtain ⟨t, ht, h⟩ := Option.bind_eq_some_iff.mp h
    obtain ⟨hI, -, hrank⟩ := hstep hP.1 h₀ ht
    rcases hrank with hnow | hrank
    · left
      exact ((hP.2 t ht).invariant (I := fun t => I t ∧ Done t) h ⟨hI, hnow⟩
        fun hl ht hstep' => ⟨(hstep hl ht.1 hstep').1, (hstep hl ht.1 hstep').2.1 ht.2⟩).2
    · refine (ih (hP.2 t ht) h hI).imp id fun hrest => ?_
      rw [countP_cons_toNat, countP_cons_toNat, Nat.mul_add]
      omega

/-- Steps that lower a rank are as few as it says. -/
theorem count_add_rank_le (rank : σ → ℕ) (counted : ℓ → Bool)
    (hP : Throughout step P s ls) (h : runFrom step s ls = some s') (h₀ : I s)
    (hstep : ∀ {t l t'}, P t l → I t → step t l = some t' →
      I t' ∧ (counted l).toNat + rank t' ≤ rank t) :
    ls.countP counted + rank s' ≤ rank s := by
  have hle := done_or_count_add_rank_le (fun _ => False) rank counted (fun _ => false) 0 hP h h₀
    fun hl ht hstep' => ⟨(hstep hl ht hstep').1, id, .inr ((hstep hl ht hstep').2.trans (by simp))⟩
  rw [Nat.zero_mul, Nat.add_zero] at hle
  exact hle.resolve_left id

/-- Steps that raise a rank, until something is done that stays done. -/
theorem done_or_count_le (Done : σ → Prop) (rank : σ → ℕ) (counted : ℓ → Bool)
    (hP : Throughout step P s ls) (h : runFrom step s ls = some s') (h₀ : I s)
    (hstep : ∀ {t l t'}, P t l → I t → step t l = some t' →
      I t' ∧ (Done t → Done t') ∧ (Done t' ∨ rank t + (counted l).toNat ≤ rank t')) :
    Done s' ∨ rank s + ls.countP counted ≤ rank s' := by
  induction ls generalizing s with
  | nil =>
    obtain rfl := Option.some.inj h
    exact .inr (Nat.add_zero _).le
  | cons l ls ih =>
    obtain ⟨t, ht, h⟩ := Option.bind_eq_some_iff.mp h
    obtain ⟨hI, -, hrank⟩ := hstep hP.1 h₀ ht
    rcases hrank with hnow | hrank
    · left
      exact ((hP.2 t ht).invariant (I := fun t => I t ∧ Done t) h ⟨hI, hnow⟩
        fun hl ht hstep' => ⟨(hstep hl ht.1 hstep').1, (hstep hl ht.1 hstep').2.1 ht.2⟩).2
    · refine (ih (hP.2 t ht) h hI).imp id fun hrest => ?_
      rw [countP_cons_toNat]
      omega

end Interaction
