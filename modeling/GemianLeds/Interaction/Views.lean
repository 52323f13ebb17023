import GemianLeds.Interaction.Threads

/-! Parts of a shared state that one thread owns. When all other threads leave a part alone,
the operations of its owner act on it as if they ran one after the other, however the threads
take turns. -/
namespace Interaction

universe u v w x

variable {σ : Type u} {ω : Type v} {ν : Type x} (view : σ → ν)

namespace Program
variable {α β : Type w}

/-- No action changes the part. -/
def Keeps : Program σ ω α → Prop
  | ret _ => True
  | act effect next => ∀ s, view (effect s).1 = view s ∧ (next s).Keeps

/-- In any company that keeps the part, the program takes it from its first value to its
last. -/
def Brings : Program σ ω α → ν → ν → Prop
  | ret _, before, after => before = after
  | act effect next, before, after =>
      ∀ s, view s = before → (next s).Brings (view (effect s).1) after

variable {view}

theorem Keeps.brings {p : Program σ ω α} (h : p.Keeps view) (part : ν) :
    p.Brings view part part := by
  induction p with
  | ret a => rfl
  | act effect next ih =>
    intro s hs
    rw [(h s).1, hs]
    exact ih s (h s).2

theorem Keeps.bind {p : Program σ ω α} {k : α → Program σ ω β} (hp : p.Keeps view)
    (hk : ∀ a, (k a).Keeps view) : (p >>= k).Keeps view := by
  change (p.bind k).Keeps view
  induction p with
  | ret a => exact hk a
  | act effect next ih => exact fun s => ⟨(hp s).1, ih s (hp s).2⟩

theorem Brings.bind {p : Program σ ω α} {k : α → Program σ ω β} {before mid after : ν}
    (hp : p.Brings view before mid) (hk : ∀ a, (k a).Brings view mid after) :
    (p >>= k).Brings view before after := by
  change (p.bind k).Brings view before after
  induction p generalizing before with
  | ret a =>
    obtain rfl : before = mid := hp
    exact hk a
  | act effect next ih => exact fun s hs => ih s (hp s hs)

theorem keeps_get : (get : Program σ ω σ).Keeps view := fun _ => ⟨rfl, trivial⟩

theorem keeps_emit (o : ω) : (emit o : Program σ ω PUnit.{w + 1}).Keeps view :=
  fun _ => ⟨rfl, trivial⟩

theorem keeps_modify {f : σ → σ} (h : ∀ s, view (f s) = view s) :
    (modify f : Program σ ω PUnit.{w + 1}).Keeps view := fun s => ⟨h s, trivial⟩

theorem brings_modify {f : σ → σ} (g : ν → ν) (h : ∀ s, view (f s) = g (view s)) (part : ν) :
    (modify f : Program σ ω PUnit.{w + 1}).Brings view part (g part) := by
  intro s hs
  change view (f s) = g part
  rw [h, hs]

theorem Keeps.cond (c : σ → Bool) {p q : Program σ ω α} (hp : p.Keeps view)
    (hq : q.Keeps view) : (cond c p q).Keeps view := by
  refine fun s => ⟨rfl, ?_⟩
  change Keeps view (bif c s then p else q)
  cases c s with
  | true => exact hp
  | false => exact hq

theorem Keeps.when (c : σ → Bool) {p : Program σ ω PUnit.{w + 1}} (hp : p.Keeps view) :
    (when c p).Keeps view := hp.cond c trivial

theorem Brings.when (on : Bool) {p : Program σ ω PUnit.{w + 1}} {before after : ν}
    (hp : on = true → p.Brings view before after) (hskip : on = false → before = after) :
    (when (fun _ => on) p).Brings view before after := by
  rintro s rfl
  cases on with
  | true => exact hp rfl
  | false => exact hskip rfl

end Program

variable {ι τ : Type} {view} {code : τ → Program σ ω Unit} {f : ν → τ → ν}

/-- A thread that leaves the part alone, now and later. -/
structure Foreign (code : τ → Program σ ω Unit) (view : σ → ν) (t : Thread σ ω τ) : Prop where
  current : ∀ p ∈ t.current, p.Keeps view
  pending : ∀ op ∈ t.pending, (code op).Keeps view

/-- The owner: its operations take the part where `f` says, and the one that it is inside, if
any, is about to bring the part to where all those begun take it. -/
structure Owner (code : τ → Program σ ω Unit) (view : σ → ν) (f : ν → τ → ν) (work : List τ)
    (first now : ν) (t : Thread σ ω τ) : Prop where
  pending : ∀ op ∈ t.pending, ∀ part, (code op).Brings view part (f part op)
  current : ∃ begun, begun ++ t.pending = work ∧
    (t.current.getD (.ret ())).Brings view now (begun.foldl f first)

structure Owned (code : τ → Program σ ω Unit) (view : σ → ν) (f : ν → τ → ν) (work : List τ)
    (i : ι) (first : ν) (c : Config ι σ ω τ) : Prop where
  owner : Owner code view f work first (view c.shared) (c.threads i)
  others : ∀ j, j ≠ i → Foreign code view (c.threads j)

theorem Foreign.begin {op : τ} {rest : List τ} (h : Foreign code view ⟨none, op :: rest⟩) :
    Foreign code view ⟨some (code op), rest⟩ where
  current p hp := by
    obtain rfl := Option.some.inj hp
    exact h.pending op List.mem_cons_self
  pending op' hop' := h.pending op' (.tail op hop')

theorem Foreign.leave {p : Option (Program σ ω Unit)} {rest : List τ}
    (h : Foreign code view ⟨p, rest⟩) : Foreign code view ⟨none, rest⟩ where
  current p hp := by cases hp
  pending := h.pending

theorem Foreign.act {effect : σ → σ × List ω} {next : σ → Program σ ω Unit} {rest : List τ}
    (h : Foreign code view ⟨some (.act effect next), rest⟩) (s : σ) :
    view (effect s).1 = view s ∧ Foreign code view ⟨some (next s), rest⟩ := by
  obtain ⟨hview, hnext⟩ := h.current _ rfl s
  refine ⟨hview, fun p hp => ?_, h.pending⟩
  obtain rfl := Option.some.inj hp
  exact hnext

section Owner
variable {work : List τ} {first now : ν}

theorem Owner.begin {op : τ} {rest : List τ}
    (h : Owner code view f work first now ⟨none, op :: rest⟩) :
    Owner code view f work first now ⟨some (code op), rest⟩ where
  pending op' hop' := h.pending op' (.tail op hop')
  current := by
    obtain ⟨begun, hbegun, hnow⟩ := h.current
    refine ⟨begun ++ [op], ?_, ?_⟩
    · rw [List.append_assoc]
      exact hbegun
    · rw [List.foldl_concat]
      obtain rfl : now = begun.foldl f first := hnow
      exact h.pending op List.mem_cons_self _

theorem Owner.leave {a : Unit} {rest : List τ}
    (h : Owner code view f work first now ⟨some (.ret a), rest⟩) :
    Owner code view f work first now ⟨none, rest⟩ where
  pending := h.pending
  current := h.current

theorem Owner.act {effect : σ → σ × List ω} {next : σ → Program σ ω Unit} {rest : List τ}
    {s : σ} (h : Owner code view f work first (view s) ⟨some (.act effect next), rest⟩) :
    Owner code view f work first (view (effect s).1) ⟨some (next s), rest⟩ where
  pending := h.pending
  current := by
    obtain ⟨begun, hbegun, hnow⟩ := h.current
    exact ⟨begun, hbegun, hnow s rfl⟩

end Owner

variable [DecidableEq ι] {work : List τ} {i : ι} {first : ν} {c c' : Config ι σ ω τ}

/-- The owner moves. -/
theorem Owned.move_owner (h : Owned code view f work i first c) (hs : c.step code i = some c') :
    Owned code view f work i first c' := by
  have howner := h.owner
  refine ⟨?_, fun j hj => by rw [Config.step_other code hs hj]; exact h.others j hj⟩
  obtain ⟨op, rest, ht, rfl⟩ | ⟨a, rest, ht, rfl⟩ | ⟨effect, next, rest, ht, rfl⟩ :=
    Config.step_cases code hs
  all_goals
    rw [ht] at howner
    rw [Config.setThread_self]
  · exact howner.begin
  · exact howner.leave
  · exact howner.act

/-- Another thread moves. -/
theorem Owned.move_other {j : ι} (hj : j ≠ i) (h : Owned code view f work i first c)
    (hs : c.step code j = some c') : Owned code view f work i first c' := by
  have hother := h.others j hj
  have hkept : view c'.shared = view c.shared ∧ Foreign code view (c'.threads j) := by
    obtain ⟨op, rest, ht, rfl⟩ | ⟨a, rest, ht, rfl⟩ | ⟨effect, next, rest, ht, rfl⟩ :=
      Config.step_cases code hs
    all_goals
      rw [ht] at hother
      rw [Config.setThread_self]
    · exact ⟨rfl, hother.begin⟩
    · exact ⟨rfl, hother.leave⟩
    · exact hother.act c.shared
  refine ⟨?_, fun k hk => ?_⟩
  · rw [hkept.1, Config.step_other code hs hj.symm]
    exact h.owner
  · by_cases hkj : k = j
    · rw [hkj]
      exact hkept.2
    · rw [Config.step_other code hs hkj]
      exact h.others k hk

theorem Reachable.owned {c₀ : Config ι σ ω τ} (h : Reachable code c₀ c)
    (h₀ : Owned code view f work i first c₀) : Owned code view f work i first c := by
  induction h with
  | refl => exact h₀
  | @step c c' j _ hs ih =>
    by_cases hj : j = i
    · rw [hj] at hs
      exact ih.move_owner hs
    · exact ih.move_other hj hs

variable (view f) in
/-- However the threads take turns, between two operations of its owner a part is where the
operations that the owner has begun take it, one after the other. -/
theorem Reachable.part {s : σ} {work : ι → List τ}
    (h : Reachable code (Config.start s work) c)
    (hbrings : ∀ op ∈ work i, ∀ part, (code op).Brings view part (f part op))
    (hkeeps : ∀ j, j ≠ i → ∀ op ∈ work j, (code op).Keeps view)
    (hi : (c.threads i).current = none) :
    ∃ begun, begun ++ (c.threads i).pending = work i ∧
      view c.shared = begun.foldl f (view s) := by
  have hstart : Owned code view f (work i) i (view s) (Config.start s work) :=
    ⟨⟨hbrings, [], rfl, rfl⟩, fun j hj => ⟨nofun, hkeeps j hj⟩⟩
  obtain ⟨begun, hbegun, hnow⟩ := (h.owned hstart).owner.current
  rw [hi] at hnow
  exact ⟨begun, hbegun, hnow⟩

end Interaction
