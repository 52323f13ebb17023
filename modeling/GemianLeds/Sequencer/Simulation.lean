import GemianLeds.Sequencer.Machine
import Mathlib.Data.List.Forall2

/-! What a machine shows at the labelled words of a stretch, and machines that show the same:
the data of one is seen through a view of the data of the other, and word by word they do the
same to it. -/
namespace Sequencer

universe u v

namespace Machine
variable {W A T : Type u} {D E : Type v} (m : Machine W D)

/-- What the labelled words of a branch-free stretch find, each with its label. -/
def shown (label : W → Option T) (ws : List W) (d : D) : List (T × D) :=
  (m.scan ws d).filterMap fun x => (label x.1).map fun t => (t, x.2)

@[simp] theorem shown_nil (label : W → Option T) (d : D) : m.shown label [] d = [] := rfl

theorem shown_cons (label : W → Option T) (w : W) (ws : List W) (d : D) :
    m.shown label (w :: ws) d =
      ((label w).map fun t => (t, d)).toList ++ m.shown label ws (m.effect w d) := by
  have hscan : m.scan (w :: ws) d = (w, d) :: m.scan ws (m.effect w d) := rfl
  unfold shown
  rw [hscan]
  cases hw : label w with
  | none => simp [hw]
  | some t => simp [hw]

theorem shown_append (label : W → Option T) (xs ys : List W) (d : D) :
    m.shown label (xs ++ ys) d = m.shown label xs d ++ m.shown label ys (m.through xs d) := by
  unfold shown
  rw [scan_append, List.filterMap_append]

theorem shown_of_none {label : W → Option T} {ws : List W} (h : ∀ w ∈ ws, label w = none)
    (d : D) : m.shown label ws d = [] := by
  induction ws generalizing d with
  | nil => rfl
  | cons w ws ih =>
    rw [shown_cons, h w List.mem_cons_self, ih fun x hx => h x (.tail w hx)]
    rfl

variable {m}

/-- Words that change nothing that the view shows. -/
theorem through_unseen {view : D → E} {ws : List W}
    (h : ∀ w ∈ ws, ∀ d, view (m.effect w d) = view d) (d : D) :
    view (m.through ws d) = view d := by
  induction ws generalizing d with
  | nil => rfl
  | cons w ws ih =>
    rw [through_cons, ih fun x hx => h x (.tail w hx)]
    exact h w List.mem_cons_self d

theorem shown_unseen {view : D → E} {label : W → Option T} {ws : List W}
    (h : ∀ w ∈ ws, ∀ d, view (m.effect w d) = view d) (d : D) :
    (m.shown label ws d).map (Prod.map id view) =
      (ws.filterMap label).map fun t => (t, view d) := by
  induction ws generalizing d with
  | nil => rfl
  | cons w ws ih =>
    have hw := h w List.mem_cons_self d
    have hrest := ih (fun x hx => h x (.tail w hx)) (m.effect w d)
    rw [shown_cons, List.map_append, hrest, hw]
    cases hl : label w with
    | none => simp [hl]
    | some t => simp [hl]

/-- A word that overwrites nothing but what a later word of its stretch overwrites anyway, with
no labelled word between the two, can be left out. -/
theorem shown_drop {label : W → Option T} {w : W} {ys : List W} (hw : label w = none)
    (hys : ∀ y ∈ ys, label y = none) (h : ∀ d, m.through ys (m.effect w d) = m.through ys d)
    (xs zs : List W) (d : D) :
    m.shown label (xs ++ w :: (ys ++ zs)) d = m.shown label (xs ++ (ys ++ zs)) d ∧
      m.through (xs ++ w :: (ys ++ zs)) d = m.through (xs ++ (ys ++ zs)) d := by
  constructor
  · rw [shown_append, shown_append, shown_cons, shown_append, shown_append, hw, h,
      m.shown_of_none hys, m.shown_of_none hys]
    rfl
  · rw [through_append, through_append, through_cons, through_append, through_append, h]

variable {m' : Machine A E}

/-- A word does to the data, seen through `view`, what its counterpart does, and has its
label. -/
structure Counterpart (m : Machine W D) (m' : Machine A E) (view : D → E) (label : W → Option T)
    (label' : A → Option T) (w : W) (a : A) : Prop where
  effect : ∀ d, view (m.effect w d) = m'.effect a (view d)
  label : label w = label' a

section Counterparts
variable {view : D → E} {label : W → Option T} {label' : A → Option T} {ws : List W}
  {as : List A}

theorem through_view (h : List.Forall₂ (Counterpart m m' view label label') ws as) (d : D) :
    view (m.through ws d) = m'.through as (view d) := by
  induction h generalizing d with
  | nil => rfl
  | cons hw _ ih =>
    rw [through_cons, through_cons, ih, hw.effect]

/-- Machines whose words are counterparts show the same. -/
theorem shown_view (h : List.Forall₂ (Counterpart m m' view label label') ws as) (d : D) :
    (m.shown label ws d).map (Prod.map id view) = m'.shown label' as (view d) := by
  induction h generalizing d with
  | nil => rfl
  | @cons w a ws as hw _ ih =>
    rw [shown_cons, shown_cons, List.map_append, ih, hw.effect, hw.label]
    cases label' a <;> rfl

end Counterparts

/-- Passes of a loop, each of which does to what the view shows what `pass` does. -/
theorem passEntry_view {view : D → E} {pre body : List W} {back : W} {pass : E → E} {e : E}
    {d : D} (hpre : view (m.through pre d) = e)
    (hpass : ∀ d, view (m.through (body ++ [back]) d) = pass (view d)) (k : ℕ) :
    view (m.passEntry pre body back d k) = pass^[k] e := by
  induction k with
  | zero => exact hpre
  | succ k ih => rw [passEntry_succ, hpass, ih, Function.iterate_succ_apply']

/-- The labelled words that pass `k` of a closed program executes. -/
theorem Closed.pass_shown {mem : ℕ → W} {pre body : List W} {back : W}
    (h : m.Closed mem pre body back) (label : W → Option T) (d : D) (k : ℕ) :
    ((List.range (body.length + 1)).map fun j =>
        m.visit mem (pre.length + k * (body.length + 1) + j) ⟨0, d⟩).filterMap
      (fun x => (label x.1).map fun t => (t, x.2)) =
      m.shown label (body ++ [back]) (m.passEntry pre body back d k) := by
  rw [h.pass_visits d k]
  rfl

end Machine
end Sequencer
