import Mathlib

/-! `mapM` over functions that may have no result. -/
namespace NimbleNet.PartialMaps

variable {α β : Type} {f : α → Option β} {xs : List α} {ys : List β}

theorem mapMEach (ok : xs.mapM f = some ys) : List.Forall₂ (fun x y => f x = some y) xs ys := by
  induction xs generalizing ys with
  | nil =>
      cases ok
      exact .nil
  | cons x rest ih =>
      simp only [List.mapM_cons,bind,Option.bind_eq_some_iff] at ok
      obtain ⟨y,here,ys',others,ok⟩ := ok
      cases ok
      exact .cons here (ih others)

theorem eachMapM (each : List.Forall₂ (fun x y => f x = some y) xs ys) : xs.mapM f = some ys := by
  induction each with
  | nil => rfl
  | cons here _ ih => simp [here,ih]

theorem mapMSome : (xs.mapM f).isSome = true ↔ ∀ x ∈ xs, (f x).isSome = true := by
  induction xs with
  | nil => simp
  | cons x rest ih =>
      rw [List.forall_mem_cons,← ih,List.mapM_cons]
      cases f x with
      | none => simp
      | some y => cases rest.mapM f <;> simp

theorem mapMMem (ok : xs.mapM f = some ys) {y : β} : y ∈ ys ↔ ∃ x ∈ xs, f x = some y := by
  have each := mapMEach ok
  clear ok
  induction each with
  | nil => simp
  | @cons x z xs zs here _ ih =>
      simp only [List.mem_cons,exists_eq_or_imp,ih,here,Option.some.injEq]
      rw [eq_comm]

theorem mapMAll {P : β → Prop} (each : ∀ x ∈ xs, ∃ y, f x = some y ∧ P y) : ∃ ys, xs.mapM f = some ys ∧ ∀ y ∈ ys, P y := by
  have all : (xs.mapM f).isSome = true := mapMSome.mpr (fun x member => by
    obtain ⟨y,here,-⟩ := each x member
    rw [here]
    rfl)
  obtain ⟨ys,ok⟩ := Option.isSome_iff_exists.mp all
  refine ⟨ys,ok,fun y member => ?_⟩
  obtain ⟨x,inside,here⟩ := (mapMMem ok).mp member
  obtain ⟨z,same,good⟩ := each x inside
  cases here.symm.trans same
  exact good

end NimbleNet.PartialMaps
