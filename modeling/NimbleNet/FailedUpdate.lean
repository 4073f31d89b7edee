import NimbleNet.OrderedMap
import NimbleNet.ResourceManager

/-! What a load_plan that does not return SUCCESS leaves on the device. The plan is
stored before the executor is asked, so a plan that the executor rejects takes the
place of the one that could be loaded. -/
namespace NimbleNet.FailedUpdate
open Device MachineNumbers ResourceManager

variable {V : ElementType → Type} [∀ d, Scalar (V d)] (text : JsonText)

structure SameFiles (modelId : String) (before after : Device) : Prop where
  metadata : after[modelId ++ INFERENCEMETADATAFILENAME]? = before[modelId ++ INFERENCEMETADATAFILENAME]?
  plan : after[modelId ++ INFERENCEFILENAME]? = before[modelId ++ INFERENCEFILENAME]?
  restart : after.getInferencePlanDataFromDevice text modelId = before.getInferencePlanDataFromDevice text modelId

def received (s : ResourceManager V) (modelId : String) (a : PlanAnswers) : Option PlanData :=
  if a.version.status ≠ SUCCESS then none
  else do
    let current ← s.mlExecutor.getPlanVersion modelId
    if current = a.version.version then none
    else if wrap32 (PARTSIZE * a.version.fileParts) < 0 then none
    else
      match a.downloaded with
      | .error _ => none
      | .ok plan => some (a.planData plan)

def rejects (s : ResourceManager V) (modelId : String) (a : PlanAnswers) (planData : PlanData) : Prop :=
  (s.mlExecutor.executor.loadPlan (fun extras => text.parse (utf8 extras)) a.loading modelId planData).map Prod.snd =
    some false
instance (s : ResourceManager V) (modelId : String) (a : PlanAnswers) (planData : PlanData) :
    Decidable (rejects text s modelId a planData) := by unfold rejects; infer_instance

def Holds (device : Device) (modelId : String) (planData : PlanData) : Prop :=
  device[modelId ++ INFERENCEMETADATAFILENAME]? = some (text.dump planData.toJson) ∧
    device[modelId ++ INFERENCEFILENAME]? = some planData.plan
instance (device : Device) (modelId : String) (planData : PlanData) : Decidable (Holds text device modelId planData) := by
  unfold Holds; infer_instance

/- What the executor rejects, the device holds already. -/
def NotReplaced (s : ResourceManager V) (modelId : String) (a : PlanAnswers) : Prop :=
  ∀ planData ∈ received s modelId a, rejects text s modelId a planData → Holds text s.device modelId planData

variable {text} {s s' : ResourceManager V} {modelId : String} {a : PlanAnswers} {ret : Int}

omit [∀ d, Scalar (V d)] in
theorem sameFiles {before after : Device}
    (metadata : after[modelId ++ INFERENCEMETADATAFILENAME]? = before[modelId ++ INFERENCEMETADATAFILENAME]?)
    (plan : after[modelId ++ INFERENCEFILENAME]? = before[modelId ++ INFERENCEFILENAME]?) :
    SameFiles text modelId before after :=
  ⟨metadata,plan,by simp only [getInferencePlanDataFromDevice,getFileFromDevice,metadata,plan]⟩

theorem loadPlanReceived {planData : PlanData} (got : received s modelId a = some planData) :
    loadPlan text s modelId a = storeAndLoad text s a.loading modelId planData := by
  unfold received at got
  split at got
  · contradiction
  rename_i answered
  simp only [bind,Option.bind_eq_some_iff] at got
  obtain ⟨current,version,got⟩ := got
  split at got
  · contradiction
  rename_i other
  split at got
  · contradiction
  rename_i fits
  split at got
  · contradiction
  rename_i plan downloaded
  cases got
  simp only [loadPlan,if_neg answered,version,bind,Option.bind_some,if_neg other,if_neg fits,downloaded]

theorem loadPlanKeeps (nothing : received s modelId a = none)
    (ran : loadPlan text s modelId a = some (s',.returned ret)) : s'.device = s.device := by
  unfold loadPlan at ran
  split at ran
  · cases ran
    rfl
  rename_i answered
  simp only [bind,Option.bind_eq_some_iff] at ran
  obtain ⟨current,version,ran⟩ := ran
  split at ran
  · cases ran
    rfl
  rename_i other
  split at ran
  · cases ran
  rename_i fits
  simp only [received,if_neg answered,version,bind,Option.bind_some,if_neg other,if_neg fits] at nothing
  split at ran
  · cases ran
    rfl
  · rename_i plan downloaded
    rw [downloaded] at nothing
    contradiction

theorem storeAndLoadEnds {planData : PlanData}
    (ran : storeAndLoad text s a.loading modelId planData = some (s',.returned ret)) :
    s'.device = s.device.saveInferencePlanDataOnDevice text modelId planData ∧
      (ret ≠ SUCCESS → rejects text s modelId a planData) := by
  simp only [storeAndLoad,bind,Option.bind_eq_some_iff] at ran
  obtain ⟨⟨executor,isLoaded⟩,loaded,done⟩ := ran
  cases isLoaded with
  | false =>
      cases done
      exact ⟨rfl,fun _ => by rw [rejects,loaded]; rfl⟩
  | true =>
      cases done
      exact ⟨rfl,fun failed => absurd rfl failed⟩

theorem storeAndLoadRejected {planData : PlanData} (rejected : rejects text s modelId a planData) :
    ∃ s', storeAndLoad text s a.loading modelId planData = some (s',.returned EXECUTOR_LOAD_MODEL_ERR) ∧
      s'.device = s.device.saveInferencePlanDataOnDevice text modelId planData := by
  obtain ⟨⟨executor,isLoaded⟩,loaded,no⟩ := Option.map_eq_some_iff.mp rejected
  cases no
  simp only [storeAndLoad,loaded,bind,Option.bind_some]
  exact ⟨_,rfl,rfl⟩

omit [∀ d, Scalar (V d)] in
theorem savedIsSame {device : Device} {planData : PlanData} :
    SameFiles text modelId device (device.saveInferencePlanDataOnDevice text modelId planData) ↔
      Holds text device modelId planData := by
  have apart : modelId ++ INFERENCEMETADATAFILENAME ≠ modelId ++ INFERENCEFILENAME := by
    simp [INFERENCEMETADATAFILENAME,INFERENCEFILENAME]
  have metadata : (device.saveInferencePlanDataOnDevice text modelId planData)[modelId ++ INFERENCEMETADATAFILENAME]? =
      some (text.dump planData.toJson) := by
    unfold saveInferencePlanDataOnDevice saveFileOnDevice
    rw [OrderedMap.insertOther apart]
    exact Std.ExtTreeMap.getElem?_insert_self
  have plan : (device.saveInferencePlanDataOnDevice text modelId planData)[modelId ++ INFERENCEFILENAME]? =
      some planData.plan := by
    simp [saveInferencePlanDataOnDevice,saveFileOnDevice]
  constructor
  · intro same
    exact ⟨same.metadata.symm.trans metadata,same.plan.symm.trans plan⟩
  · intro holds
    exact sameFiles (metadata.trans holds.1.symm) (plan.trans holds.2.symm)

theorem unchangedIff : (∀ s' ret, loadPlan text s modelId a = some (s',.returned ret) → ret ≠ SUCCESS →
    SameFiles text modelId s.device s'.device) ↔ NotReplaced text s modelId a := by
  constructor
  · intro unchanged planData got rejected
    obtain ⟨s',ran,device⟩ := storeAndLoadRejected rejected
    rw [← loadPlanReceived got] at ran
    have same := unchanged s' _ ran (by decide)
    rw [device] at same
    exact savedIsSame.mp same
  · intro guard s' ret ran failed
    cases got : received s modelId a with
    | none =>
        rw [loadPlanKeeps got ran]
        exact sameFiles rfl rfl
    | some planData =>
        rw [loadPlanReceived got] at ran
        obtain ⟨device,rejected⟩ := storeAndLoadEnds ran
        rw [device]
        exact savedIsSame.mpr (guard planData got (rejected failed))

section Ranker

def secondVersion : PlanAnswers where
  version := ⟨200,1,"2",""⟩
  part := fun _ => ⟨200,[2]⟩
  loading := ⟨⟨true,fun _ => true,fun _ _ => true⟩,fun _ => ⟨fun _ _ _ => 0,fun _ _ => 0⟩,fun _ _ => ⟨[],true⟩⟩

def metadataText (version : String) : Bytes :=
  utf8 ("\x7b\"extras\":\"\",\"planLength\":1,\"version\":\"" ++ version ++ "\"\x7d")

def rankerText : JsonText where
  dump _ := metadataText "2"
  parse bytes := if bytes = metadataText "1" then some (PlanData.toJson ⟨true,"1",[1],"",1⟩) else none

def rankerManager : ResourceManager IntValues :=
  ⟨.new ["ranker"] (.new 0 ⟨∅,∅⟩),∅,
    .ofList [("rankerinferencePlanData.txt",metadataText "1"),("rankerinferencePlan.txt",[1])]⟩

theorem rejectedPlanStored : ¬ ∀ (text : JsonText) (s : ResourceManager IntValues) (modelId : String) (a : PlanAnswers)
    (s' : ResourceManager IntValues) (ret : Int), loadPlan text s modelId a = some (s',.returned ret) → ret ≠ SUCCESS →
    SameFiles text modelId s.device s'.device := by
  intro claim
  obtain ⟨s',ran,stored⟩ : ∃ s', loadPlan rankerText rankerManager "ranker" secondVersion = some (s',.returned 5001) ∧
      s'.device["rankerinferencePlan.txt"]? = some [2] := ⟨_,rfl,by decide +kernel⟩
  have same := (claim rankerText rankerManager "ranker" secondVersion s' 5001 ran (by decide)).plan
  have before : rankerManager.device["rankerinferencePlan.txt"]? = some [1] := by decide +kernel
  have changed : some [(2 : UInt8)] = some [1] := stored.symm.trans (same.trans before)
  exact absurd changed (by decide)

end Ranker

end NimbleNet.FailedUpdate
