import GemianLeds.Interaction.Runs
import Mathlib.Data.Nat.Notation
import Mathlib.Data.List.Count
import Mathlib.Logic.Function.Basic
import Mathlib.Logic.ExistsUnique

/-! Objects of the class `HandlerRegistration`. Each holds a function that it calls when it
is destroyed or assigned over, and that moves with it: what was supplied is owned by one
object until it is called, and is called once. -/
namespace GemianLeds
open Interaction

/-- The live objects by their names, each with the function it holds or `null_unregister`,
and what the functions act on. -/
structure Registrations (ι φ ω : Type) where
  unregister : ι → Option (Option φ)
  world : ω

/-- What happens to the objects: the constructors, the move assignment of `other` to `i`, and
the destructor. -/
inductive RegistrationOp (ι φ : Type) where
  | constructDefault (i : ι)
  | construct (i : ι) (unregister : φ)
  | moveConstruct (i other : ι)
  | moveAssign (i other : ι)
  | destroy (i : ι)

/-- The function that an operation hands over to an object. -/
def RegistrationOp.supplied {ι φ : Type} : RegistrationOp ι φ → Option φ
  | .construct _ f => some f
  | _ => none

/-- The objects that an operation is about. -/
def RegistrationOp.names {ι φ : Type} : RegistrationOp ι φ → List ι
  | .constructDefault i | .construct i _ | .destroy i => [i]
  | .moveConstruct i other | .moveAssign i other => [i, other]

/-- `null_unregister` does nothing. -/
def callUnregister {φ ω : Type} (run : φ → ω → ω) : Option φ → ω → ω
  | none, w => w
  | some f, w => run f w

namespace Registrations
variable {ι φ ω : Type} [DecidableEq ι] (run : φ → ω → ω)

/-- An object is constructed under a name that is free; it is moved from, assigned to and
destroyed while it is alive. -/
def step (r : Registrations ι φ ω) : RegistrationOp ι φ → Option (Registrations ι φ ω)
  | .constructDefault i =>
      match r.unregister i with
      | none => some { r with unregister := Function.update r.unregister i (some none) }
      | some _ => none
  | .construct i f =>
      match r.unregister i with
      | none => some { r with unregister := Function.update r.unregister i (some (some f)) }
      | some _ => none
  | .moveConstruct i other =>
      match r.unregister i, r.unregister other with
      | none, some held =>
          some
            { r with
              unregister :=
                Function.update (Function.update r.unregister i (some held)) other (some none) }
      | _, _ => none
  | .moveAssign i other =>
      match r.unregister i, r.unregister other with
      | some own, some held =>
          if other ≠ i then
            some
              { unregister :=
                  Function.update (Function.update r.unregister i (some held)) other (some none)
                world := callUnregister run own r.world }
          else some r
      | _, _ => none
  | .destroy i =>
      match r.unregister i with
      | some own =>
          some
            { unregister := Function.update r.unregister i none
              world := callUnregister run own r.world }
      | none => none

/-- No object is alive. -/
def start (w : ω) : Registrations ι φ ω := ⟨fun _ => none, w⟩

variable (r r' : Registrations ι φ ω)

/-- Object `i` is alive and holds `f`. -/
def Owns (i : ι) (f : φ) : Prop := r.unregister i = some (some f)

def Owned (f : φ) : Prop := ∃ i, r.Owns i f

/-- No function is held by two objects. -/
def Exclusive : Prop := ∀ i j f, r.Owns i f → r.Owns j f → i = j

/-- The function that an operation calls. -/
def released : RegistrationOp ι φ → Option φ
  | .moveAssign i other => if other ≠ i then (r.unregister i).join else none
  | .destroy i => (r.unregister i).join
  | _ => none

/-- Everything one operation does: it makes an object, moves a function from one object to
another, or releases what an object holds. -/
inductive Effect (r r' : Registrations ι φ ω) : RegistrationOp ι φ → Prop where
  | constructDefault (i : ι) (hi : r.unregister i = none)
      (hr : r' = { r with unregister := Function.update r.unregister i (some none) }) :
      Effect r r' (.constructDefault i)
  | construct (i : ι) (f : φ) (hi : r.unregister i = none)
      (hr : r' = { r with unregister := Function.update r.unregister i (some (some f)) }) :
      Effect r r' (.construct i f)
  | moveConstruct (i other : ι) (held : Option φ) (hi : r.unregister i = none)
      (hother : r.unregister other = some held)
      (hr : r' =
        { r with
          unregister :=
            Function.update (Function.update r.unregister i (some held)) other (some none) }) :
      Effect r r' (.moveConstruct i other)
  | moveAssign (i other : ι) (own held : Option φ) (hne : other ≠ i)
      (hi : r.unregister i = some own) (hother : r.unregister other = some held)
      (hr : r' =
        { unregister :=
            Function.update (Function.update r.unregister i (some held)) other (some none)
          world := callUnregister run own r.world }) :
      Effect r r' (.moveAssign i other)
  | selfAssign (i : ι) (own : Option φ) (hi : r.unregister i = some own) (hr : r' = r) :
      Effect r r' (.moveAssign i i)
  | destroy (i : ι) (own : Option φ) (hi : r.unregister i = some own)
      (hr : r' =
        { unregister := Function.update r.unregister i none
          world := callUnregister run own r.world }) :
      Effect r r' (.destroy i)

variable {run r r'}

theorem step_effect {op : RegistrationOp ι φ} (h : r.step run op = some r') :
    Effect run r r' op := by
  unfold step at h
  cases op with
  | constructDefault i =>
    simp only at h
    split at h
    next hi => exact .constructDefault i hi (Option.some.inj h).symm
    next => cases h
  | construct i f =>
    simp only at h
    split at h
    next hi => exact .construct i f hi (Option.some.inj h).symm
    next => cases h
  | moveConstruct i other =>
    simp only at h
    split at h
    next held hi hother => exact .moveConstruct i other held hi hother (Option.some.inj h).symm
    next => cases h
  | moveAssign i other =>
    simp only at h
    split at h
    next own held hi hother =>
      split at h
      next hne => exact .moveAssign i other own held hne hi hother (Option.some.inj h).symm
      next hself =>
        obtain rfl := not_not.mp hself
        exact .selfAssign other own hi (Option.some.inj h).symm
    next => cases h
  | destroy i =>
    simp only at h
    split at h
    next own hi => exact .destroy i own hi (Option.some.inj h).symm
    next => cases h

/-- Only a held function is called. -/
theorem owned_of_released {op : RegistrationOp ι φ} {f : φ} (h : r.released op = some f) :
    r.Owned f := by
  unfold released at h
  split at h
  next i other =>
    split at h
    next => exact ⟨i, Option.join_eq_some_iff.mp h⟩
    next => cases h
  next i => exact ⟨i, Option.join_eq_some_iff.mp h⟩
  next => cases h

/-- An operation acts on the world through the function it calls. -/
theorem step_world {op : RegistrationOp ι φ} (h : r.step run op = some r') :
    r'.world = callUnregister run (r.released op) r.world := by
  cases step_effect h with
  | constructDefault i hi hr => rw [hr]; rfl
  | construct i f hi hr => rw [hr]; rfl
  | moveConstruct i other held hi hother hr => rw [hr]; rfl
  | moveAssign i other own held hne hi hother hr =>
    rw [hr, released, if_pos hne, hi]
    rfl
  | selfAssign i own hi hr =>
    rw [hr, released, if_neg (not_not.mpr rfl)]
    rfl
  | destroy i own hi hr =>
    rw [hr, released, hi]
    rfl

/-- The other objects stay as they are. -/
theorem step_of_not_named {op : RegistrationOp ι φ} (h : r.step run op = some r') {j : ι}
    (hj : j ∉ op.names) : r'.unregister j = r.unregister j := by
  cases step_effect h with
  | constructDefault i hi hr | construct i f hi hr | destroy i own hi hr =>
    subst hr
    exact Function.update_of_ne (List.ne_of_not_mem_cons hj) ..
  | moveConstruct i other held hi hother hr | moveAssign i other own held hne hi hother hr =>
    subst hr
    have hjo : j ≠ other := List.ne_of_not_mem_cons (List.not_mem_of_not_mem_cons hj)
    exact (Function.update_of_ne hjo ..).trans
      (Function.update_of_ne (List.ne_of_not_mem_cons hj) ..)
  | selfAssign i own hi hr => rw [hr]

/-- What an object holds after `i` has been given `own`, or has been destroyed. -/
theorem update_owns {objects : ι → Option (Option φ)} {i : ι} {own : Option (Option φ)} (j : ι)
    (f : φ) :
    Function.update objects i own j = some (some f) ↔
      (j = i ∧ own = some (some f)) ∨ (j ≠ i ∧ objects j = some (some f)) := by
  by_cases hji : j = i
  · subst hji
    rw [Function.update_self]
    simp
  · rw [Function.update_of_ne hji]
    simp [hji]

/-- What an object holds after `held` has moved from `other` to it. -/
theorem move_owns {objects : ι → Option (Option φ)} {i other : ι} {held : Option φ}
    (hother : objects other = some held) (j : ι) (f : φ) :
    Function.update (Function.update objects i (some held)) other (some none) j = some (some f) ↔
      (j = i ∧ i ≠ other ∧ objects other = some (some f)) ∨
        (j ≠ i ∧ j ≠ other ∧ objects j = some (some f)) := by
  rw [update_owns, update_owns, hother]
  constructor
  · rintro (⟨-, h⟩ | ⟨hne, ⟨rfl, h⟩ | ⟨hji, h⟩⟩)
    · cases h
    · exact .inl ⟨rfl, hne, h⟩
    · exact .inr ⟨hji, hne, h⟩
  · rintro (⟨rfl, hne, h⟩ | ⟨hji, hne, h⟩)
    · exact .inr ⟨hne, .inl ⟨rfl, h⟩⟩
    · exact .inr ⟨hne, .inr ⟨hji, h⟩⟩

omit [DecidableEq ι] in
/-- An object that holds something is not one under a free name. -/
theorem ne_of_owns {i j : ι} {f : φ} (hi : r.unregister i = none) (hj : r.Owns j f) : j ≠ i := by
  rintro rfl
  rw [Owns, hi] at hj
  cases hj

/-- An operation takes the function it calls from its owner and gives the one supplied to a
new owner; every other function stays owned. -/
theorem owned_step {op : RegistrationOp ι φ} (hex : r.Exclusive) (h : r.step run op = some r')
    (f : φ) : r'.Owned f ↔ (r.Owned f ∧ r.released op ≠ some f) ∨ op.supplied = some f := by
  unfold Owned Owns
  cases step_effect h with
  | constructDefault i hi hr =>
    subst hr
    simp only [update_owns, released, RegistrationOp.supplied, Option.some.injEq, reduceCtorEq,
      and_false, false_or, ne_eq, not_false_eq_true, and_true, or_false]
    constructor
    · rintro ⟨j, -, hj⟩
      exact ⟨j, hj⟩
    · rintro ⟨j, hj⟩
      exact ⟨j, ne_of_owns hi hj, hj⟩
  | construct i g hi hr =>
    subst hr
    simp only [update_owns, released, RegistrationOp.supplied, ne_eq, reduceCtorEq,
      not_false_eq_true, and_true, Option.some.injEq]
    constructor
    · rintro ⟨j, ⟨-, hj⟩ | ⟨-, hj⟩⟩
      · exact .inr hj
      · exact .inl ⟨j, hj⟩
    · rintro (⟨j, hj⟩ | hg)
      · exact ⟨j, .inr ⟨ne_of_owns hi hj, hj⟩⟩
      · exact ⟨i, .inl ⟨rfl, hg⟩⟩
  | moveConstruct i other held hi hother hr =>
    subst hr
    have hne : i ≠ other := by
      rintro rfl
      rw [hi] at hother
      cases hother
    simp only [move_owns hother, released, RegistrationOp.supplied, ne_eq, reduceCtorEq,
      not_false_eq_true, and_true, or_false]
    constructor
    · rintro ⟨j, ⟨-, -, hj⟩ | ⟨-, -, hj⟩⟩
      · exact ⟨other, hj⟩
      · exact ⟨j, hj⟩
    · rintro ⟨j, hj⟩
      by_cases hjo : j = other
      · exact ⟨i, .inl ⟨rfl, hne, hjo ▸ hj⟩⟩
      · exact ⟨j, .inr ⟨ne_of_owns hi hj, hjo, hj⟩⟩
  | moveAssign i other own held hne hi hother hr =>
    subst hr
    simp only [move_owns hother, released, if_pos hne, hi, Option.join_some,
      RegistrationOp.supplied, reduceCtorEq, or_false]
    constructor
    · rintro ⟨j, ⟨-, -, hj⟩ | ⟨hji, -, hj⟩⟩
      · refine ⟨⟨other, hj⟩, ?_⟩
        rintro rfl
        exact hne (hex other i f hj hi)
      · refine ⟨⟨j, hj⟩, ?_⟩
        rintro rfl
        exact hji (hex j i f hj hi)
    · rintro ⟨⟨j, hj⟩, hown⟩
      have hji : j ≠ i := by
        rintro rfl
        rw [hi] at hj
        exact hown (Option.some.inj hj)
      by_cases hjo : j = other
      · exact ⟨i, .inl ⟨rfl, hne.symm, hjo ▸ hj⟩⟩
      · exact ⟨j, .inr ⟨hji, hjo, hj⟩⟩
  | selfAssign i own hi hr =>
    subst hr
    simp [released, RegistrationOp.supplied]
  | destroy i own hi hr =>
    subst hr
    simp only [update_owns, released, hi, Option.join_some, RegistrationOp.supplied, reduceCtorEq,
      and_false, false_or, or_false]
    constructor
    · rintro ⟨j, hji, hj⟩
      refine ⟨⟨j, hj⟩, ?_⟩
      rintro rfl
      exact hji (hex j i f hj hi)
    · rintro ⟨⟨j, hj⟩, hown⟩
      refine ⟨j, ?_, hj⟩
      rintro rfl
      rw [hi] at hj
      exact hown (Option.some.inj hj)

/-- A move leaves every function with one owner. -/
theorem move_exclusive (hex : r.Exclusive) {i other j k : ι} {held : Option φ} {f : φ}
    (hother : r.unregister other = some held)
    (hj : Function.update (Function.update r.unregister i (some held)) other (some none) j =
      some (some f))
    (hk : Function.update (Function.update r.unregister i (some held)) other (some none) k =
      some (some f)) : j = k := by
  rw [move_owns hother] at hj hk
  rcases hj with ⟨rfl, -, hj⟩ | ⟨-, hjo, hj⟩
  · rcases hk with ⟨rfl, -, -⟩ | ⟨-, hko, hk⟩
    · rfl
    · exact absurd (hex other k f hj hk).symm hko
  · rcases hk with ⟨rfl, -, hk⟩ | ⟨-, -, hk⟩
    · exact absurd (hex j other f hj hk) hjo
    · exact hex j k f hj hk

/-- Functions stay with one owner, as long as what is supplied is not owned already. -/
theorem exclusive_step {op : RegistrationOp ι φ} (hex : r.Exclusive)
    (hfresh : ∀ f, op.supplied = some f → ¬ r.Owned f) (h : r.step run op = some r') :
    r'.Exclusive := by
  intro j k f hj hk
  unfold Owns at hj hk
  cases step_effect h with
  | constructDefault i hi hr =>
    subst hr
    rw [update_owns] at hj hk
    rcases hj with ⟨-, hj⟩ | ⟨-, hj⟩
    · cases hj
    rcases hk with ⟨-, hk⟩ | ⟨-, hk⟩
    · cases hk
    exact hex j k f hj hk
  | construct i g hi hr =>
    subst hr
    have hfresh' : ∀ j, some (some g) = some (some f) → ¬ r.Owns j f := fun j hg hj =>
      hfresh f (Option.some.inj hg) ⟨j, hj⟩
    rw [update_owns] at hj hk
    rcases hj with ⟨rfl, hg⟩ | ⟨-, hj⟩
    · rcases hk with ⟨rfl, -⟩ | ⟨-, hk⟩
      · rfl
      · exact absurd hk (hfresh' k hg)
    · rcases hk with ⟨rfl, hg⟩ | ⟨-, hk⟩
      · exact absurd hj (hfresh' j hg)
      · exact hex j k f hj hk
  | moveConstruct i other held hi hother hr =>
    subst hr
    exact move_exclusive hex hother hj hk
  | moveAssign i other own held hne hi hother hr =>
    subst hr
    exact move_exclusive hex hother hj hk
  | selfAssign i own hi hr =>
    subst hr
    exact hex j k f hj hk
  | destroy i own hi hr =>
    subst hr
    rw [update_owns] at hj hk
    rcases hj with ⟨-, hj⟩ | ⟨-, hj⟩
    · cases hj
    rcases hk with ⟨-, hk⟩ | ⟨-, hk⟩
    · cases hk
    exact hex j k f hj hk

end Registrations

/-! The functions are numbered in the order in which they are supplied, so that two objects
constructed from equal functions are told apart. -/

/-- The same operation with the function it supplies numbered `n`. -/
def RegistrationOp.numbered {ι φ : Type} (n : ℕ) : RegistrationOp ι φ → RegistrationOp ι (ℕ × φ)
  | .constructDefault i => .constructDefault i
  | .construct i f => .construct i (n, f)
  | .moveConstruct i other => .moveConstruct i other
  | .moveAssign i other => .moveAssign i other
  | .destroy i => .destroy i

theorem RegistrationOp.supplied_numbered {ι φ : Type} (n : ℕ) (op : RegistrationOp ι φ) :
    (op.numbered n).supplied = op.supplied.map (n, ·) := by
  cases op <;> rfl

theorem RegistrationOp.names_numbered {ι φ : Type} (n : ℕ) (op : RegistrationOp ι φ) :
    (op.numbered n).names = op.names := by
  cases op <;> rfl

/-- The objects, what has been supplied to them, and the numbers of the functions that have
run, in order. -/
structure Lifetimes (ι φ ω : Type) where
  objects : Registrations ι (ℕ × φ) (ω × List ℕ)
  supplied : List φ

namespace Lifetimes
variable {ι φ ω : Type} [DecidableEq ι] (run : φ → ω → ω)

def runNumbered (f : ℕ × φ) (w : ω × List ℕ) : ω × List ℕ := (run f.2 w.1, w.2 ++ [f.1])

def step (s : Lifetimes ι φ ω) (op : RegistrationOp ι φ) : Option (Lifetimes ι φ ω) :=
  (s.objects.step (runNumbered run) (op.numbered s.supplied.length)).map fun objects =>
    { objects, supplied := s.supplied ++ op.supplied.toList }

def start (w : ω) : Lifetimes ι φ ω := ⟨.start (w, []), []⟩

variable (s : Lifetimes ι φ ω)

def ran : List ℕ := s.objects.world.2

/-- Every function that was supplied has an owner and has not run, or has run once. -/
structure Linear : Prop where
  exclusive : s.objects.Exclusive
  owned_supplied : ∀ f, s.objects.Owned f → s.supplied[f.1]? = some f.2
  ran_supplied : ∀ n ∈ s.ran, n < s.supplied.length
  once : ∀ n f, s.supplied[n]? = some f →
    (s.objects.Owned (n, f) ∧ n ∉ s.ran) ∨ (¬ s.objects.Owned (n, f) ∧ s.ran.count n = 1)

variable {run s} {s' : Lifetimes ι φ ω}

omit [DecidableEq ι] in
theorem start_linear (w : ω) : (start w : Lifetimes ι φ ω).Linear where
  exclusive i j f hi := by cases hi
  owned_supplied f hf := by
    obtain ⟨i, hi⟩ := hf
    cases hi
  ran_supplied n hn := by cases hn
  once n f hf := by cases hf

/-- What one operation does to the supplied functions, their owners and those that ran. -/
theorem step_spec {op : RegistrationOp ι φ} (hs : s.Linear) (h : s.step run op = some s') :
    s'.supplied = s.supplied ++ op.supplied.toList ∧
      s'.objects.Exclusive ∧
      (∀ n f, s'.objects.Owned (n, f) ↔
        (s.objects.Owned (n, f) ∧
            s.objects.released (op.numbered s.supplied.length) ≠ some (n, f)) ∨
          (n = s.supplied.length ∧ op.supplied = some f)) ∧
      s'.ran = s.ran ++
        ((s.objects.released (op.numbered s.supplied.length)).map Prod.fst).toList := by
  obtain ⟨objects, hobjects, rfl⟩ := Option.map_eq_some_iff.mp h
  have hsupplied := op.supplied_numbered s.supplied.length
  refine ⟨rfl, ?_, ?_, ?_⟩
  · refine Registrations.exclusive_step hs.exclusive ?_ hobjects
    intro f hf howned
    rw [hsupplied] at hf
    obtain ⟨g, -, rfl⟩ := Option.map_eq_some_iff.mp hf
    have hlt := List.getElem?_eq_some_iff.mp (hs.owned_supplied _ howned)
    exact Nat.lt_irrefl _ hlt.1
  · intro n f
    have howned := Registrations.owned_step hs.exclusive hobjects (n, f)
    rw [howned, hsupplied, Option.map_eq_some_iff]
    simp only [Prod.mk.injEq]
    constructor
    · rintro (hold | ⟨g, hg, hn, rfl⟩)
      · exact .inl hold
      · exact .inr ⟨hn.symm, hg⟩
    · rintro (hold | ⟨hn, hf⟩)
      · exact .inl hold
      · exact .inr ⟨f, hf, hn.symm, rfl⟩
  · have hworld := Registrations.step_world hobjects
    unfold ran
    rw [hworld]
    cases s.objects.released (op.numbered s.supplied.length) with
    | none => exact (List.append_nil _).symm
    | some f => rfl

omit [DecidableEq ι] in
/-- What has an owner has a number below the next one. -/
theorem Linear.lt_of_owned (hs : s.Linear) {n : ℕ} {f : φ} (h : s.objects.Owned (n, f)) :
    n < s.supplied.length :=
  (List.getElem?_eq_some_iff.mp (hs.owned_supplied _ h)).1

/-- The number that an operation adds to those that ran belongs to a function that had an
owner. -/
theorem ran_of_mem {s : Lifetimes ι φ ω} {op : RegistrationOp ι (ℕ × φ)} {n : ℕ}
    (h : n ∈ ((s.objects.released op).map Prod.fst).toList) :
    ∃ f, s.objects.released op = some (n, f) ∧ s.objects.Owned (n, f) := by
  rw [Option.mem_toList] at h
  obtain ⟨⟨m, f⟩, hf, rfl⟩ := Option.map_eq_some_iff.mp h
  exact ⟨f, hf, Registrations.owned_of_released hf⟩

/-- A function that is not the one called now keeps the number of its runs. -/
theorem Linear.not_ran_now (hs : s.Linear) {op : RegistrationOp ι (ℕ × φ)} {n : ℕ} {f : φ}
    (hf : s.supplied[n]? = some f) (h : s.objects.released op ≠ some (n, f)) :
    n ∉ ((s.objects.released op).map Prod.fst).toList := by
  intro hmem
  obtain ⟨g, hg, hgowned⟩ := ran_of_mem hmem
  have hfg := hs.owned_supplied _ hgowned
  rw [hf] at hfg
  rw [Option.some.inj hfg] at h
  exact h hg

/-- A function that was supplied before an operation. -/
theorem once_old {op : RegistrationOp ι φ} (hs : s.Linear) (h : s.step run op = some s') {n : ℕ}
    {f : φ} (hf : s.supplied[n]? = some f) :
    (s'.objects.Owned (n, f) ∧ n ∉ s'.ran) ∨
      (¬ s'.objects.Owned (n, f) ∧ s'.ran.count n = 1) := by
  obtain ⟨-, -, howned, hran⟩ := step_spec hs h
  have hn : n < s.supplied.length := (List.getElem?_eq_some_iff.mp hf).1
  have hnew : ¬ (n = s.supplied.length ∧ op.supplied = some f) := fun h =>
    absurd h.1 (Nat.ne_of_lt hn)
  rw [howned, hran, List.count_append, List.mem_append]
  by_cases hreleased : s.objects.released (op.numbered s.supplied.length) = some (n, f)
  · have hold := (hs.once n f hf).resolve_right fun h =>
      h.1 (Registrations.owned_of_released hreleased)
    right
    rw [hreleased]
    constructor
    · rintro (⟨-, h⟩ | h)
      · exact h rfl
      · exact hnew h
    · rw [List.count_eq_zero_of_not_mem hold.2]
      simp
  · have hother := hs.not_ran_now hf hreleased
    rcases hs.once n f hf with ⟨hold, hnot⟩ | ⟨hold, hcount⟩
    · exact .inl ⟨.inl ⟨hold, hreleased⟩, not_or.mpr ⟨hnot, hother⟩⟩
    · right
      constructor
      · rintro (⟨h, -⟩ | h)
        · exact hold h
        · exact hnew h
      · rw [hcount, List.count_eq_zero_of_not_mem hother]

/-- The function that an operation supplies gets the next number. -/
theorem once_new {op : RegistrationOp ι φ} (hs : s.Linear) (h : s.step run op = some s') {f : φ}
    (hf : op.supplied = some f) :
    s'.objects.Owned (s.supplied.length, f) ∧ s.supplied.length ∉ s'.ran := by
  obtain ⟨-, -, howned, hran⟩ := step_spec hs h
  refine ⟨(howned _ _).mpr (.inr ⟨rfl, hf⟩), ?_⟩
  rw [hran, List.mem_append]
  rintro (hmem | hmem)
  · exact Nat.lt_irrefl _ (hs.ran_supplied _ hmem)
  · obtain ⟨g, -, hg⟩ := ran_of_mem hmem
    exact Nat.lt_irrefl _ (hs.lt_of_owned hg)

theorem step_linear {op : RegistrationOp ι φ} (hs : s.Linear) (h : s.step run op = some s') :
    s'.Linear := by
  obtain ⟨hsupplied, hexclusive, howned, hran⟩ := step_spec hs h
  refine ⟨hexclusive, ?_, ?_, ?_⟩
  · rintro ⟨n, f⟩ hf
    rw [hsupplied]
    rcases (howned n f).mp hf with ⟨hold, -⟩ | ⟨rfl, hnew⟩
    · rw [List.getElem?_append_left (hs.lt_of_owned hold)]
      exact hs.owned_supplied _ hold
    · rw [List.getElem?_append_right (Nat.le_refl _), Nat.sub_self, hnew]
      rfl
  · intro n hn
    rw [hsupplied, List.length_append]
    apply Nat.lt_add_right
    rw [hran] at hn
    rcases List.mem_append.mp hn with hn | hn
    · exact hs.ran_supplied n hn
    · obtain ⟨f, -, hf⟩ := ran_of_mem hn
      exact hs.lt_of_owned hf
  · intro n f hf
    rw [hsupplied] at hf
    rcases Nat.lt_or_ge n s.supplied.length with hn | hn
    · rw [List.getElem?_append_left hn] at hf
      exact once_old hs h hf
    · rw [List.getElem?_append_right hn] at hf
      cases hop : op.supplied with
      | none =>
        rw [hop] at hf
        cases hf
      | some g =>
        rw [hop] at hf
        obtain ⟨hlt, rfl⟩ := List.getElem?_eq_some_iff.mp hf
        obtain rfl : n = s.supplied.length := by
          change n - s.supplied.length < 1 at hlt
          omega
        simp only [Option.toList_some, Nat.sub_self, List.getElem_cons_zero]
        exact .inl (once_new hs h hop)

end Lifetimes

/-- Ownership is linear: after any sequence of operations, every function supplied to an
object is held by one object and has not run, or is held by none and has run once. When no
object is left, each has run once. -/
theorem ownership_linear {ι φ ω : Type} [DecidableEq ι] (run : φ → ω → ω) (w : ω)
    (ops : List (RegistrationOp ι φ)) (s : Lifetimes ι φ ω)
    (h : runFrom (Lifetimes.step run) (Lifetimes.start w) ops = some s) :
    s.supplied = ops.filterMap RegistrationOp.supplied ∧
      (∀ n f, s.supplied[n]? = some f →
        ((∃! i, s.objects.Owns i (n, f)) ∧ n ∉ s.ran) ∨
          ((∀ i, ¬ s.objects.Owns i (n, f)) ∧ s.ran.count n = 1)) ∧
      ((∀ i, s.objects.unregister i = none) → ∀ n < s.supplied.length, s.ran.count n = 1) := by
  have hs : s.Linear :=
    runFrom_invariant h (Lifetimes.start_linear w) fun ht hstep => Lifetimes.step_linear ht hstep
  refine ⟨?_, ?_, ?_⟩
  · refine runFrom_history (I := fun s ops => s.supplied = ops.filterMap RegistrationOp.supplied)
      h rfl ?_
    intro t hist op t' ht hstep
    obtain ⟨objects, -, rfl⟩ := Option.map_eq_some_iff.mp hstep
    rw [List.filterMap_append, ← ht]
    cases op <;> rfl
  · intro n f hf
    rcases hs.once n f hf with ⟨⟨i, hi⟩, hn⟩ | ⟨hnone, hn⟩
    · exact .inl ⟨⟨i, hi, fun j hj => hs.exclusive j i _ hj hi⟩, hn⟩
    · exact .inr ⟨fun i hi => hnone ⟨i, hi⟩, hn⟩
  · intro hdead n hn
    rcases hs.once n _ (List.getElem?_eq_getElem hn) with ⟨⟨i, hi⟩, -⟩ | ⟨-, hn⟩
    · rw [Registrations.Owns, hdead i] at hi
      cases hi
    · exact hn

/-- `reg = std::move(other)` for two objects that own a function, `reg` assigned to itself,
and both destroyed. -/
theorem ownership_linear_assigned_over :
    ∃ s : Lifetimes ℕ ℕ (List ℕ),
      runFrom (Lifetimes.step fun f w => w ++ [f]) (Lifetimes.start [])
          [.construct 0 7, .construct 1 7, .moveAssign 0 1, .moveAssign 0 0, .destroy 1,
            .destroy 0] = some s ∧
        s.ran = [0, 1] ∧
        (∀ n f, s.supplied[n]? = some f →
          ((∃! i, s.objects.Owns i (n, f)) ∧ n ∉ s.ran) ∨
            ((∀ i, ¬ s.objects.Owns i (n, f)) ∧ s.ran.count n = 1)) := by
  refine ⟨_, rfl, rfl, ?_⟩
  exact
    (ownership_linear (fun f w => w ++ [f]) []
      [.construct 0 7, .construct 1 7, .moveAssign 0 1, .moveAssign 0 0, .destroy 1, .destroy 0]
      _ rfl).2.1

end GemianLeds
