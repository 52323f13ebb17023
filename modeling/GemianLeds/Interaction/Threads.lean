import GemianLeds.Interaction.Program
import Mathlib.Data.List.Infix

/-! Threads that take turns, one atomic action at a time, on a shared state. A run is serial
when no thread begins an operation while another thread is inside one; what each operation
preserves when it runs alone then holds in every serial run. -/
namespace Interaction

universe u v

/-- `current` is what is left of the operation a thread is inside, `pending` what it will
begin later. -/
structure Thread (σ : Type u) (ω : Type v) (τ : Type) where
  current : Option (Program σ ω Unit)
  pending : List τ

/-- `log` collects the outputs of all threads and `visited` the shared states, oldest first. -/
structure Config (ι : Type) (σ : Type u) (ω : Type v) (τ : Type) where
  shared : σ
  log : List ω
  visited : List σ
  threads : ι → Thread σ ω τ

variable {ι τ : Type} {σ : Type u} {ω : Type v}

def Config.start (s : σ) (work : ι → List τ) : Config ι σ ω τ :=
  ⟨s, [], [s], fun i => ⟨none, work i⟩⟩

/-- Every thread is between two operations. -/
def Config.Between (c : Config ι σ ω τ) : Prop := ∀ i, (c.threads i).current = none

/-- Every thread is between two operations and has none left. -/
def Config.Idle (c : Config ι σ ω τ) : Prop := ∀ i, c.threads i = ⟨none, []⟩

theorem Config.Idle.between {c : Config ι σ ω τ} (h : c.Idle) : c.Between := by
  intro i
  rw [h i]

section Steps
variable [DecidableEq ι] (code : τ → Program σ ω Unit)

def Config.setThread (c : Config ι σ ω τ) (i : ι) (t : Thread σ ω τ) : Config ι σ ω τ :=
  { c with threads := Function.update c.threads i t }

@[simp] theorem Config.setThread_self (c : Config ι σ ω τ) (i : ι) (t : Thread σ ω τ) :
    (c.setThread i t).threads i = t := Function.update_self ..

theorem Config.setThread_other (c : Config ι σ ω τ) {i j : ι} (h : j ≠ i) (t : Thread σ ω τ) :
    (c.setThread i t).threads j = c.threads j := Function.update_of_ne h ..

/-- Thread `i` begins its next operation, performs one action of it, or leaves it. -/
def Config.step (c : Config ι σ ω τ) (i : ι) : Option (Config ι σ ω τ) :=
  match (c.threads i).current, (c.threads i).pending with
  | none, [] => none
  | none, op :: rest => some (c.setThread i ⟨some (code op), rest⟩)
  | some (.ret _), rest => some (c.setThread i ⟨none, rest⟩)
  | some (.act effect next), rest =>
      some (Config.setThread
        { c with
          shared := (effect c.shared).1
          log := c.log ++ (effect c.shared).2
          visited := c.visited ++ [(effect c.shared).1] }
        i ⟨some (next c.shared), rest⟩)

/-- Let the threads move in the order the schedule names them. -/
def Config.follow (c : Config ι σ ω τ) : List ι → Option (Config ι σ ω τ)
  | [] => some c
  | i :: schedule => (c.step code i).bind fun c' => c'.follow schedule

inductive Reachable (c₀ : Config ι σ ω τ) : Config ι σ ω τ → Prop where
  | refl : Reachable c₀ c₀
  | step {c c' : Config ι σ ω τ} {i : ι} :
      Reachable c₀ c → c.step code i = some c' → Reachable c₀ c'

/-- Thread `i` may move without overlapping another thread's operation. -/
def Config.Alone (c : Config ι σ ω τ) (i : ι) : Prop :=
  (c.threads i).current = none → ∀ j, j ≠ i → (c.threads j).current = none

inductive SerialReachable (c₀ : Config ι σ ω τ) : Config ι σ ω τ → Prop where
  | refl : SerialReachable c₀ c₀
  | step {c c' : Config ι σ ω τ} {i : ι} :
      SerialReachable c₀ c → c.Alone i → c.step code i = some c' → SerialReachable c₀ c'

theorem Reachable.follow {c₀ c c' : Config ι σ ω τ} {schedule : List ι}
    (h : Reachable code c₀ c) (hs : c.follow code schedule = some c') : Reachable code c₀ c' := by
  induction schedule generalizing c with
  | nil =>
    obtain rfl := Option.some.inj hs
    exact h
  | cons i schedule ih =>
    obtain ⟨c₁, h₁, h₂⟩ := Option.bind_eq_some_iff.mp hs
    exact ih (h.step h₁) h₂

/-- Everything one move can do. -/
theorem Config.step_cases {c c' : Config ι σ ω τ} {i : ι} (h : c.step code i = some c') :
    (∃ op rest, c.threads i = ⟨none, op :: rest⟩ ∧ c' = c.setThread i ⟨some (code op), rest⟩) ∨
    (∃ a rest, c.threads i = ⟨some (.ret a), rest⟩ ∧ c' = c.setThread i ⟨none, rest⟩) ∨
    (∃ effect next rest, c.threads i = ⟨some (.act effect next), rest⟩ ∧
      c' = Config.setThread
        { c with
          shared := (effect c.shared).1
          log := c.log ++ (effect c.shared).2
          visited := c.visited ++ [(effect c.shared).1] }
        i ⟨some (next c.shared), rest⟩) := by
  unfold Config.step at h
  cases ht : c.threads i with
  | mk current pending =>
    rw [ht] at h
    cases current with
    | none =>
      cases pending with
      | nil => cases h
      | cons op rest => exact .inl ⟨op, rest, rfl, (Option.some.inj h).symm⟩
    | some p =>
      cases p with
      | ret a => exact .inr (.inl ⟨a, pending, rfl, (Option.some.inj h).symm⟩)
      | act effect next =>
        exact .inr (.inr ⟨effect, next, pending, rfl, (Option.some.inj h).symm⟩)

theorem Config.step_other {c c' : Config ι σ ω τ} {i j : ι} (h : c.step code i = some c')
    (hj : j ≠ i) : c'.threads j = c.threads j := by
  obtain ⟨op, rest, -, rfl⟩ | ⟨a, rest, -, rfl⟩ | ⟨effect, next, rest, -, rfl⟩ :=
    Config.step_cases code h
  all_goals exact Config.setThread_other _ hj _

/-- One thread that moves while all others are between operations stays serial. -/
theorem SerialReachable.solo {c₀ c c' : Config ι σ ω τ} {i : ι} {n : ℕ}
    (h : SerialReachable code c₀ c) (others : ∀ j, j ≠ i → (c.threads j).current = none)
    (hs : c.follow code (List.replicate n i) = some c') :
    SerialReachable code c₀ c' ∧ ∀ j, j ≠ i → (c'.threads j).current = none := by
  induction n generalizing c with
  | zero =>
    obtain rfl := Option.some.inj hs
    exact ⟨h, others⟩
  | succ n ih =>
    obtain ⟨c₁, h₁, h₂⟩ := Option.bind_eq_some_iff.mp hs
    refine ih (h.step (fun _ => others) h₁) ?_ h₂
    intro j hj
    rw [Config.step_other code h₁ hj]
    exact others j hj

/-- A property of the shared state, the log, the states visited and the operations not yet begun
that every operation preserves when nothing runs in between. -/
structure OperationInvariant (J : σ → List ω → List σ → (ι → List τ) → Prop) : Prop where
  mono : ∀ {s log vis vis' pending}, vis ⊆ vis' → J s log vis pending → J s log vis' pending
  operation : ∀ {s log vis pending i op rest}, J s log vis pending → pending i = op :: rest →
    ((code op).run s).state ∈ vis →
    J ((code op).run s).state (log ++ ((code op).run s).output) vis
      (Function.update pending i rest)

/-- The operations that each thread has not begun. -/
def Config.pending (c : Config ι σ ω τ) (i : ι) : List τ := (c.threads i).pending

theorem Config.pending_setThread (c : Config ι σ ω τ) (i : ι) (t : Thread σ ω τ) :
    (c.setThread i t).pending = Function.update c.pending i t.pending := by
  funext j
  by_cases hj : j = i
  · subst hj
    simp [Config.pending]
  · simp [Config.pending, c.setThread_other hj, hj]

/-- Where a serial run can be: between operations, or inside exactly one, with the part
already performed and the part left making up that operation run alone. -/
inductive SerialPhase (J : σ → List ω → List σ → (ι → List τ) → Prop) (c : Config ι σ ω τ) :
    Prop where
  | between (hc : c.Between) (hJ : J c.shared c.log c.visited c.pending)
  | inside (i : ι) (p : Program σ ω Unit) (op : τ) (s : σ) (log out : List ω)
      (hi : (c.threads i).current = some p)
      (others : ∀ j, j ≠ i → (c.threads j).current = none)
      (hJ : J s log c.visited (Function.update c.pending i (op :: c.pending i)))
      (hlog : c.log = log ++ out)
      (hrun : (code op).run s =
        ⟨(p.run c.shared).value, (p.run c.shared).state, out ++ (p.run c.shared).output⟩)

variable {code}

/-- Only one thread is inside an operation. -/
theorem eq_of_inside {c : Config ι σ ω τ} {i k : ι} {p q : Program σ ω Unit}
    (hk : (c.threads k).current = some p)
    (others : ∀ j, j ≠ k → (c.threads j).current = none)
    (hi : (c.threads i).current = some q) : k = i ∧ p = q := by
  have hki : k = i := by
    by_contra hne
    rw [others i (Ne.symm hne)] at hi
    cases hi
  subst hki
  rw [hk] at hi
  exact ⟨rfl, Option.some.inj hi⟩

variable {J : σ → List ω → List σ → (ι → List τ) → Prop}

theorem SerialPhase.begin {c : Config ι σ ω τ} {i : ι} {op : τ} {rest : List τ}
    (h : SerialPhase code J c) (halone : c.Alone i) (ht : c.threads i = ⟨none, op :: rest⟩) :
    SerialPhase code J (c.setThread i ⟨some (code op), rest⟩) := by
  have hnone : (c.threads i).current = none := by rw [ht]
  have hpending : c.pending i = op :: rest := by rw [Config.pending, ht]
  cases h with
  | between hc hJ =>
    refine .inside i (code op) op c.shared c.log [] (by simp) ?_ ?_ (List.append_nil _).symm rfl
    · intro j hj
      rw [c.setThread_other hj]
      exact hc j
    · rw [c.pending_setThread, Function.update_self, Function.update_idem, ← hpending,
        Function.update_eq_self]
      exact hJ
  | inside k p op' s log out hk others hJ hlog hrun =>
    by_cases hki : k = i
    · rw [← hki, hk] at hnone
      cases hnone
    · rw [halone hnone k hki] at hk
      cases hk

theorem SerialPhase.leave (hinv : OperationInvariant code J)
    {c : Config ι σ ω τ} {i : ι} {a : Unit} {rest : List τ} (h : SerialPhase code J c)
    (hmem : c.shared ∈ c.visited) (ht : c.threads i = ⟨some (.ret a), rest⟩) :
    SerialPhase code J (c.setThread i ⟨none, rest⟩) := by
  have hsome : (c.threads i).current = some (.ret a) := by rw [ht]
  have hpending : c.pending i = rest := by rw [Config.pending, ht]
  cases h with
  | between hc hJ =>
    rw [hc i] at hsome
    cases hsome
  | inside k p op s log out hk others hJ hlog hrun =>
    obtain ⟨rfl, rfl⟩ := eq_of_inside hk others hsome
    simp only [Program.run_ret, List.append_nil] at hrun
    refine .between ?_ ?_
    · intro j
      by_cases hj : j = k
      · rw [hj, c.setThread_self]
      · rw [c.setThread_other hj]
        exact others j hj
    · have hop := hinv.operation hJ (Function.update_self ..) (by rw [hrun]; exact hmem)
      rw [hrun, ← hlog, Function.update_idem, hpending] at hop
      rw [c.pending_setThread]
      exact hop

theorem SerialPhase.act (hinv : OperationInvariant code J)
    {c : Config ι σ ω τ} {i : ι} {effect : σ → σ × List ω} {next : σ → Program σ ω Unit}
    {rest : List τ} (h : SerialPhase code J c)
    (ht : c.threads i = ⟨some (.act effect next), rest⟩) :
    SerialPhase code J (Config.setThread
      { c with
        shared := (effect c.shared).1
        log := c.log ++ (effect c.shared).2
        visited := c.visited ++ [(effect c.shared).1] }
      i ⟨some (next c.shared), rest⟩) := by
  have hsome : (c.threads i).current = some (.act effect next) := by rw [ht]
  have hpending : c.pending i = rest := by rw [Config.pending, ht]
  cases h with
  | between hc hJ =>
    rw [hc i] at hsome
    cases hsome
  | inside k p op s log out hk others hJ hlog hrun =>
    obtain ⟨rfl, rfl⟩ := eq_of_inside hk others hsome
    refine .inside k (next c.shared) op s log (out ++ (effect c.shared).2) (by simp) ?_ ?_ ?_ ?_
    · intro j hj
      rw [Config.setThread_other _ hj]
      exact others j hj
    · rw [Config.pending_setThread, ← hpending]
      have hsame : Function.update c.pending k (c.pending k) = c.pending :=
        Function.update_eq_self k c.pending
      refine hinv.mono (List.subset_append_left _ _) ?_
      change J s log c.visited (Function.update (Function.update c.pending k (c.pending k)) k
        (op :: Function.update c.pending k (c.pending k) k))
      rw [hsame]
      exact hJ
    · simp [Config.setThread, hlog]
    · rw [hrun]
      simp [Program.run, Config.setThread]

theorem SerialPhase.step (hinv : OperationInvariant code J)
    {c c' : Config ι σ ω τ} {i : ι} (h : SerialPhase code J c) (hmem : c.shared ∈ c.visited)
    (halone : c.Alone i) (hs : c.step code i = some c') : SerialPhase code J c' := by
  obtain ⟨op, rest, ht, rfl⟩ | ⟨a, rest, ht, rfl⟩ | ⟨effect, next, rest, ht, rfl⟩ :=
    Config.step_cases code hs
  · exact h.begin halone ht
  · exact h.leave hinv hmem ht
  · exact h.act hinv ht

theorem shared_mem_visited_step {c c' : Config ι σ ω τ} {i : ι}
    (hmem : c.shared ∈ c.visited) (hs : c.step code i = some c') : c'.shared ∈ c'.visited := by
  obtain ⟨op, rest, ht, rfl⟩ | ⟨a, rest, ht, rfl⟩ | ⟨effect, next, rest, ht, rfl⟩ :=
    Config.step_cases code hs
  · exact hmem
  · exact hmem
  · simp [Config.setThread]

theorem SerialReachable.phase (hinv : OperationInvariant code J) {s : σ} {work : ι → List τ}
    {c : Config ι σ ω τ} (h : SerialReachable code (Config.start s work) c)
    (h₀ : J s [] [s] work) : SerialPhase code J c ∧ c.shared ∈ c.visited := by
  induction h with
  | refl => exact ⟨.between (fun _ => rfl) h₀, by simp [Config.start]⟩
  | step _ halone hs ih =>
    exact ⟨ih.1.step hinv ih.2 halone hs, shared_mem_visited_step ih.2 hs⟩

/-- Between operations, a serial run satisfies every invariant of single operations. -/
theorem SerialReachable.between (hinv : OperationInvariant code J) {s : σ} {work : ι → List τ}
    {c : Config ι σ ω τ} (h : SerialReachable code (Config.start s work) c)
    (h₀ : J s [] [s] work) (hc : c.Between) : J c.shared c.log c.visited c.pending := by
  cases (h.phase hinv h₀).1 with
  | between _ hJ => exact hJ
  | inside i p op s log out hi others hJ hlog hrun =>
    rw [hc i] at hi
    cases hi

/-- At any moment the log of a serial run is one that satisfies the invariant, followed by
a first part of one operation's outputs. -/
theorem SerialReachable.log_eq (hinv : OperationInvariant code J) {s : σ} {work : ι → List τ}
    {c : Config ι σ ω τ} (h : SerialReachable code (Config.start s work) c)
    (h₀ : J s [] [s] work) :
    ∃ s' log out pending, J s' log c.visited pending ∧ c.log = log ++ out ∧
      (out = [] ∨ ∃ op, out <+: ((code op).run s').output) := by
  cases (h.phase hinv h₀).1 with
  | between _ hJ => exact ⟨c.shared, c.log, [], c.pending, hJ, by simp, .inl rfl⟩
  | inside i p op s log out hi others hJ hlog hrun =>
    exact ⟨s, log, out, _, hJ, hlog, .inr ⟨op, by rw [hrun]; exact List.prefix_append _ _⟩⟩

end Steps
end Interaction
