import Mathlib.Logic.Function.Basic

/-! Programs over a shared state, as trees of atomic actions. The same tree has a whole
meaning (`Program.run`) and a step-wise one, used when several threads interleave. -/
namespace Interaction

universe u v w

/-- What a program that ran alone returns, leaves behind and has emitted. -/
@[ext] structure Outcome (σ : Type u) (ω : Type v) (α : Type w) where
  value : α
  state : σ
  output : List ω

/-- An action reads and replaces the shared state in one step and may emit outputs;
the rest of the program depends on the state that was read. -/
inductive Program (σ : Type u) (ω : Type v) (α : Type w) where
  | ret (a : α)
  | act (effect : σ → σ × List ω) (next : σ → Program σ ω α)

namespace Program
variable {σ : Type u} {ω : Type v} {α β : Type w}

def bind : Program σ ω α → (α → Program σ ω β) → Program σ ω β
  | ret a, k => k a
  | act effect next, k => act effect fun s => (next s).bind k

instance : Monad (Program σ ω) where
  pure := ret
  bind := bind

def get : Program σ ω σ := act (fun s => (s, [])) ret

def modify (f : σ → σ) : Program σ ω PUnit.{w + 1} := act (fun s => (f s, [])) fun _ => ret ⟨⟩

def emit (o : ω) : Program σ ω PUnit.{w + 1} := act (fun s => (s, [o])) fun _ => ret ⟨⟩

/-- Read the state and go on with one of two programs. -/
def cond (c : σ → Bool) (p q : Program σ ω α) : Program σ ω α :=
  act (fun s => (s, [])) fun s => bif c s then p else q

/-- Read the state and run `p` if the condition holds. -/
def when (c : σ → Bool) (p : Program σ ω PUnit.{w + 1}) : Program σ ω PUnit.{w + 1} :=
  cond c p (ret ⟨⟩)

/-- The whole program, with no other thread in between. -/
def run : Program σ ω α → σ → Outcome σ ω α
  | ret a, s => ⟨a, s, []⟩
  | act effect next, s =>
      let rest := (next s).run (effect s).1
      ⟨rest.value, rest.state, (effect s).2 ++ rest.output⟩

@[simp] theorem run_ret (a : α) (s : σ) : (ret a : Program σ ω α).run s = ⟨a, s, []⟩ := rfl

@[simp] theorem run_pure (a : α) (s : σ) : (pure a : Program σ ω α).run s = ⟨a, s, []⟩ := rfl

@[simp] theorem run_get (s : σ) : (get : Program σ ω σ).run s = ⟨s, s, []⟩ := rfl

@[simp] theorem run_modify (f : σ → σ) (s : σ) :
    (modify f : Program σ ω PUnit.{w + 1}).run s = ⟨⟨⟩, f s, []⟩ := rfl

@[simp] theorem run_emit (o : ω) (s : σ) :
    (emit o : Program σ ω PUnit.{w + 1}).run s = ⟨⟨⟩, s, [o]⟩ := rfl

@[simp] theorem run_cond (c : σ → Bool) (p q : Program σ ω α) (s : σ) :
    (cond c p q).run s = (bif c s then p else q).run s := rfl

@[simp] theorem run_when (c : σ → Bool) (p : Program σ ω PUnit.{w + 1}) (s : σ) :
    (when c p).run s = (bif c s then p else ret ⟨⟩).run s := rfl

/-- Outputs of a sequential composition are those of its parts, in order. -/
theorem run_bind (p : Program σ ω α) (k : α → Program σ ω β) (s : σ) :
    (p >>= k).run s =
      ⟨((k (p.run s).value).run (p.run s).state).value,
        ((k (p.run s).value).run (p.run s).state).state,
        (p.run s).output ++ ((k (p.run s).value).run (p.run s).state).output⟩ := by
  change (p.bind k).run s = _
  induction p generalizing s with
  | ret a => simp [bind]
  | act effect next ih => simp only [bind, run, ih, List.append_assoc]

theorem run_bind_of {p : Program σ ω α} {k : α → Program σ ω β} {s s' : σ} {a : α}
    {out : List ω} (h : p.run s = ⟨a, s', out⟩) :
    (p >>= k).run s =
      ⟨((k a).run s').value, ((k a).run s').state, out ++ ((k a).run s').output⟩ := by
  rw [run_bind, h]

theorem bind_assoc {γ : Type w} (p : Program σ ω α) (f : α → Program σ ω β)
    (g : β → Program σ ω γ) : p >>= f >>= g = p >>= fun a => f a >>= g := by
  change (p.bind f).bind g = p.bind fun a => (f a).bind g
  induction p with
  | ret a => rfl
  | act effect next ih => simp only [bind, ih]

end Program
end Interaction
