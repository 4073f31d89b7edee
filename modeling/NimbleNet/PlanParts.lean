import NimbleNet.FailedUpdate

/-! The plan that load_plan puts together from the parts of the server, before it is
stored and handed to the executor. How the executor ends is not its concern here. -/
namespace NimbleNet.PlanParts
open FailedUpdate MachineNumbers ResourceManager

variable {V : ElementType → Type} [∀ d, Scalar (V d)] (text : JsonText)

variable {text} {s s' : ResourceManager V} {modelId : String} {a : PlanAnswers}

omit [∀ d, Scalar (V d)] in
theorem planUpdatedExecutor {executor : MlExecutor V} {isUpdated : Bool} :
    (executor.planUpdated modelId isUpdated).executor = executor.executor := by
  unfold MlExecutor.planUpdated
  split <;> rfl

theorem executorKept {exit : Exit} (nothing : received s modelId a = none)
    (ran : loadPlan text s modelId a = some (s',exit)) : s'.mlExecutor.executor = s.mlExecutor.executor := by
  unfold loadPlan at ran
  split at ran
  · cases ran
    rfl
  rename_i answered
  simp only [bind,Option.bind_eq_some_iff] at ran
  obtain ⟨current,version,ran⟩ := ran
  split at ran
  · cases ran
    exact planUpdatedExecutor
  rename_i other
  split at ran
  · cases ran
    rfl
  rename_i fits
  split at ran
  · cases ran
    exact planUpdatedExecutor
  · rename_i plan downloaded
    simp only [received,if_neg answered,version,bind,Option.bind_some,if_neg other,if_neg fits,downloaded] at nothing
    contradiction

end NimbleNet.PlanParts
