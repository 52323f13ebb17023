import Mathlib.Data.List.Basic
import Mathlib.Data.Option.Basic
import Mathlib.Tactic.TypeStar

/-! Runs of a system with labelled steps. The labels say what happens, so that a list of them
is a history; a step that cannot happen has no result. Invariants may speak about the history
as well as about the state. -/
namespace Interaction

universe u v

variable {σ : Type u} {ℓ : Type v} (step : σ → ℓ → Option σ)

/-- The state after the labels of a list have happened in order. -/
def runFrom (s : σ) : List ℓ → Option σ
  | [] => some s
  | l :: ls => (step s l).bind fun s' => runFrom s' ls

/-- Every label of a run finds a state that satisfies `P`. -/
def Throughout (P : σ → ℓ → Prop) (s : σ) : List ℓ → Prop
  | [] => True
  | l :: ls => P s l ∧ ∀ s', step s l = some s' → Throughout P s' ls

@[simp] theorem runFrom_nil (s : σ) : runFrom step s [] = some s := rfl

@[simp] theorem runFrom_cons (s : σ) (l : ℓ) (ls : List ℓ) :
    runFrom step s (l :: ls) = (step s l).bind fun s' => runFrom step s' ls := rfl

theorem runFrom_singleton (s : σ) (l : ℓ) : runFrom step s [l] = step s l :=
  Option.bind_fun_some _

theorem runFrom_append (s : σ) (ls ls' : List ℓ) :
    runFrom step s (ls ++ ls') = (runFrom step s ls).bind fun s' => runFrom step s' ls' := by
  induction ls generalizing s with
  | nil => rfl
  | cons l ls ih =>
    rw [List.cons_append, runFrom_cons, runFrom_cons, Option.bind_assoc]
    simp only [ih]

variable {step}

/-- The last step of a run. -/
theorem runFrom_concat {s s' : σ} {ls : List ℓ} {l : ℓ} :
    runFrom step s (ls ++ [l]) = some s' ↔
      ∃ t, runFrom step s ls = some t ∧ step t l = some s' := by
  rw [runFrom_append, Option.bind_eq_some_iff]
  simp

/-- A run cut at one of its labels. -/
theorem runFrom_split {s s' : σ} {pre post : List ℓ} {l : ℓ}
    (h : runFrom step s (pre ++ l :: post) = some s') :
    ∃ t t', runFrom step s pre = some t ∧ step t l = some t' ∧
      runFrom step t' post = some s' := by
  rw [runFrom_append] at h
  obtain ⟨t, ht, h⟩ := Option.bind_eq_some_iff.mp h
  obtain ⟨t', ht', h⟩ := Option.bind_eq_some_iff.mp h
  exact ⟨t, t', ht, ht', h⟩

/-- What holds at the start and is preserved by every step that meets its condition holds at
the end of every run whose steps all do. -/
theorem Throughout.history {P : σ → ℓ → Prop} {I : σ → List ℓ → Prop} {s s' : σ} {ls : List ℓ}
    (hP : Throughout step P s ls) (h : runFrom step s ls = some s') {hist : List ℓ}
    (h₀ : I s hist)
    (hstep : ∀ {t hist l t'}, P t l → I t hist → step t l = some t' → I t' (hist ++ [l])) :
    I s' (hist ++ ls) := by
  induction ls generalizing s hist with
  | nil =>
    obtain rfl := Option.some.inj h
    rwa [List.append_nil]
  | cons l ls ih =>
    obtain ⟨t, ht, h⟩ := Option.bind_eq_some_iff.mp h
    have hrest := ih (hP.2 t ht) h (hstep hP.1 h₀ ht)
    rwa [List.append_assoc] at hrest

/-- An invariant of states that every step meeting its condition preserves. -/
theorem Throughout.invariant {P : σ → ℓ → Prop} {I : σ → Prop} {s s' : σ} {ls : List ℓ}
    (hP : Throughout step P s ls) (h : runFrom step s ls = some s') (h₀ : I s)
    (hstep : ∀ {t l t'}, P t l → I t → step t l = some t' → I t') : I s' :=
  @Throughout.history σ ℓ step P (fun t _ => I t) s s' ls hP h [] h₀ hstep

/-- Labels that meet the condition in every state. -/
theorem throughout_of_forall {P : σ → ℓ → Prop} (s : σ) {ls : List ℓ}
    (h : ∀ l ∈ ls, ∀ t, P t l) : Throughout step P s ls := by
  induction ls generalizing s with
  | nil => trivial
  | cons l ls ih =>
    exact ⟨h l List.mem_cons_self s, fun s' _ => ih s' fun l' hl' => h l' (.tail l hl')⟩

/-- An invariant of states and histories that every step preserves. -/
theorem runFrom_history {I : σ → List ℓ → Prop} {s s' : σ} {ls : List ℓ}
    (h : runFrom step s ls = some s') (h₀ : I s [])
    (hstep : ∀ {t hist l t'}, I t hist → step t l = some t' → I t' (hist ++ [l])) : I s' ls :=
  (throughout_of_forall (P := fun _ _ => True) s fun _ _ _ => trivial).history h h₀ fun _ => hstep

/-- An invariant of states that every step preserves. -/
theorem runFrom_invariant {I : σ → Prop} {s s' : σ} {ls : List ℓ}
    (h : runFrom step s ls = some s') (h₀ : I s)
    (hstep : ∀ {t l t'}, I t → step t l = some t' → I t') : I s' :=
  runFrom_history (I := fun t _ => I t) h h₀ hstep

theorem throughout_append {P : σ → ℓ → Prop} {s : σ} {ls ls' : List ℓ} :
    Throughout step P s (ls ++ ls') ↔
      Throughout step P s ls ∧ ∀ t, runFrom step s ls = some t → Throughout step P t ls' := by
  induction ls generalizing s with
  | nil => simp [Throughout]
  | cons l ls ih =>
    simp only [List.cons_append, Throughout, ih, runFrom_cons, Option.bind_eq_some_iff]
    constructor
    · rintro ⟨hP, hrest⟩
      refine ⟨⟨hP, fun s' hs' => (hrest s' hs').1⟩, ?_⟩
      rintro t ⟨s', hs', ht⟩
      exact (hrest s' hs').2 t ht
    · rintro ⟨⟨hP, hrest⟩, hlast⟩
      exact ⟨hP, fun s' hs' => ⟨hrest s' hs', fun t ht => hlast t ⟨s', hs', ht⟩⟩⟩

/-- A system whose every step is a run of another one, seen through `abs`, has runs of that
one only. -/
theorem runFrom_refines {σ' : Type*} {ℓ' : Type*} {step' : σ' → ℓ' → Option σ'}
    (abs : σ → σ') {labels : ℓ → List ℓ'} {s s' : σ} {ls : List ℓ} (h : runFrom step s ls = some s')
    (hstep : ∀ {t l t'}, step t l = some t' → runFrom step' (abs t) (labels l) = some (abs t')) :
    runFrom step' (abs s) (ls.flatMap labels) = some (abs s') := by
  induction ls generalizing s with
  | nil =>
    obtain rfl := Option.some.inj h
    rfl
  | cons l ls ih =>
    obtain ⟨t, ht, h⟩ := Option.bind_eq_some_iff.mp h
    rw [List.flatMap_cons, runFrom_append, hstep ht]
    exact ih h

/-- A system whose every step, in the states that an invariant holds of, is a run of another one
that looks the same, has runs that look like runs of that one. -/
theorem runFrom_simulates {σ' : Type*} {ℓ' : Type*} {ν : Type*} {step' : σ' → ℓ' → Option σ'}
    (abs : σ → σ') {I : σ → Prop} {seen : ℓ → List ν} {seen' : ℓ' → List ν} {s s' : σ} {ls : List ℓ}
    (h : runFrom step s ls = some s') (h₀ : I s)
    (hI : ∀ {t l t'}, I t → step t l = some t' → I t')
    (hstep : ∀ {t l t'}, I t → step t l = some t' →
      ∃ ls', runFrom step' (abs t) ls' = some (abs t') ∧ ls'.flatMap seen' = seen l) :
    ∃ ls', runFrom step' (abs s) ls' = some (abs s') ∧ ls'.flatMap seen' = ls.flatMap seen := by
  induction ls generalizing s with
  | nil =>
    obtain rfl := Option.some.inj h
    exact ⟨[], rfl, rfl⟩
  | cons l ls ih =>
    obtain ⟨t, ht, h⟩ := Option.bind_eq_some_iff.mp h
    obtain ⟨first, hfirst, hseen⟩ := hstep h₀ ht
    obtain ⟨rest, hrest, hseen'⟩ := ih h (hI h₀ ht)
    refine ⟨first ++ rest, ?_, ?_⟩
    · rw [runFrom_append, hfirst]
      exact hrest
    · rw [List.flatMap_append, List.flatMap_cons, hseen, hseen']

end Interaction
