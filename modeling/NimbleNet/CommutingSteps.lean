import Mathlib

/-! Steps of two kinds, of which one of each kind may change places: what a run ends in depends on
the order within each kind only. -/
namespace NimbleNet.CommutingSteps

variable {σ α β : Type} (left : σ → α → σ) (right : σ → β → σ)

def act (s : σ) : α ⊕ β → σ
  | .inl a => left s a
  | .inr b => right s b

variable {left right} (commutes : ∀ s a b, left (right s b) a = right (left s a) b)
include commutes

theorem foldlCommutes (s : σ) (steps : List α) (b : β) : steps.foldl left (right s b) = right (steps.foldl left s) b := by
  induction steps generalizing s with
  | nil => rfl
  | cons a rest ih => rw [List.foldl_cons,commutes,ih,List.foldl_cons]

theorem foldlSplit (s : σ) (steps : List (α ⊕ β)) : steps.foldl (act left right) s =
    (steps.filterMap Sum.getRight?).foldl right ((steps.filterMap Sum.getLeft?).foldl left s) := by
  induction steps generalizing s with
  | nil => rfl
  | cons a rest ih =>
      cases a with
      | inl a => exact ih (left s a)
      | inr b =>
          rw [List.foldl_cons,ih,act,foldlCommutes commutes]
          rfl

end NimbleNet.CommutingSteps
