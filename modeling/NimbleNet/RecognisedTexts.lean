import Mathlib

/-! Texts that an automaton recognises: it starts and ends in one state and may reject on the
way. -/
namespace NimbleNet.RecognisedTexts

variable {σ β : Type} (step : σ → β → Option σ) (start : σ)

def Recognises (text : List β) : Prop := text.foldlM step start = some start
instance [DecidableEq σ] (text : List β) : Decidable (Recognises step start text) := inferInstanceAs (Decidable (_ = _))

variable {step start} {left right text : List β}

theorem recognisesNil : Recognises step start [] := rfl

theorem recognisesAppend (first : Recognises step start left) (second : Recognises step start right) :
    Recognises step start (left ++ right) := by
  rw [Recognises,List.foldlM_append,first]
  exact second

theorem recognisesPlain (plain : ∀ x ∈ text, step start x = some start) : Recognises step start text := by
  induction text with
  | nil => exact recognisesNil
  | cons x rest ih =>
      obtain ⟨here,others⟩ := List.forall_mem_cons.mp plain
      rw [Recognises,List.foldlM_cons,here]
      exact ih others

theorem recognisesJoin {parts : List (List β)} (between : Recognises step start left)
    (each : ∀ part ∈ parts, Recognises step start part) : Recognises step start (left.intercalate parts) := by
  induction parts with
  | nil => exact recognisesNil
  | cons part rest ih =>
      have split := List.forall_mem_cons.mp each
      cases rest with
      | nil =>
          rw [List.intercalate_singleton]
          exact split.1
      | cons next more =>
          rw [List.intercalate_cons_cons]
          exact recognisesAppend (recognisesAppend split.1 between) (ih split.2)

end NimbleNet.RecognisedTexts
