import Mathlib.Data.List.Basic

/-! Order-preserving merges of two lists, and folds that do not depend on the merge. -/
namespace Interaction

universe u v

variable {α : Type u} {σ : Type v}

/-- The last list contains the elements of the first two, each in its own order. -/
inductive Merge : List α → List α → List α → Prop where
  | nil : Merge [] [] []
  | left {x : α} {xs ys zs : List α} : Merge xs ys zs → Merge (x :: xs) ys (x :: zs)
  | right {y : α} {xs ys zs : List α} : Merge xs ys zs → Merge xs (y :: ys) (y :: zs)

namespace Merge

/-- An element that commutes with every element of a list can move to the end of it. -/
theorem foldl_move (f : σ → α → σ) {y : α} {xs : List α}
    (hcomm : ∀ x ∈ xs, ∀ s, f (f s x) y = f (f s y) x) (s : σ) :
    xs.foldl f (f s y) = f (xs.foldl f s) y := by
  induction xs generalizing s with
  | nil => rfl
  | cons x xs ih =>
    simp only [List.foldl_cons]
    rw [← hcomm x (by simp) s]
    exact ih (fun x' hx' => hcomm x' (by simp [hx'])) (f s x)

/-- When the elements of the two lists commute, every merge has the effect of one list
after the other. -/
theorem foldl_eq (f : σ → α → σ) {xs ys zs : List α} (h : Merge xs ys zs)
    (hcomm : ∀ x ∈ xs, ∀ y ∈ ys, ∀ s, f (f s x) y = f (f s y) x) (s : σ) :
    zs.foldl f s = ys.foldl f (xs.foldl f s) := by
  induction h generalizing s with
  | nil => rfl
  | left h ih =>
    simp only [List.foldl_cons]
    exact ih (fun x hx y hy => hcomm x (by simp [hx]) y hy) _
  | @right y xs ys zs h ih =>
    simp only [List.foldl_cons]
    rw [ih (fun x hx y' hy => hcomm x hx y' (by simp [hy])),
      foldl_move f (fun x hx => hcomm x hx y (by simp))]

theorem append {xs ys zs xs' ys' zs' : List α} (h : Merge xs ys zs) (h' : Merge xs' ys' zs') :
    Merge (xs ++ xs') (ys ++ ys') (zs ++ zs') := by
  induction h with
  | nil => exact h'
  | left h ih => exact .left ih
  | right h ih => exact .right ih

theorem of_nil {xs ys : List α} (h : Merge xs ys []) : xs = [] ∧ ys = [] := by
  cases h
  exact ⟨rfl, rfl⟩

/-- A merge ends with the last element of one of the two lists. -/
theorem last {xs ys zs : List α} {z : α} (h : Merge xs ys (zs ++ [z])) :
    xs.getLast? = some z ∨ ys.getLast? = some z := by
  generalize hw : zs ++ [z] = ws at h
  induction h generalizing zs with
  | nil => simp at hw
  | @left x xs ys ws h ih =>
    cases zs with
    | nil =>
      obtain ⟨rfl, rfl⟩ := List.cons.inj hw
      cases h
      simp
    | cons z' zs =>
      obtain ⟨-, hw⟩ := List.cons.inj hw
      refine (ih hw).imp (fun hx => ?_) id
      rw [List.getLast?_cons, hx]
      rfl
  | @right y xs ys ws h ih =>
    cases zs with
    | nil =>
      obtain ⟨rfl, rfl⟩ := List.cons.inj hw
      cases h
      simp
    | cons z' zs =>
      obtain ⟨-, hw⟩ := List.cons.inj hw
      refine (ih hw).imp id (fun hy => ?_)
      rw [List.getLast?_cons, hy]
      rfl

end Merge
end Interaction
