import NimbleNet.FailedUpdate
import NimbleNet.InferenceBody
import NimbleNet.StepRuns
import NimbleNet.TwoFileSaves

/-! The plans that are served and the plans on the device, over any number of processes: each
starts with the plans of the device, and load_plan goes on from there. -/
namespace NimbleNet.RestartedPlans
open Device FailedUpdate MachineNumbers ONNXModel OrderedMap ResourceManager StepRuns TwoFileSaves

variable {V : ElementType → Type} [∀ d, Scalar (V d)] (text : JsonText)

def loadPlansFromDevice (loading : String → Loading) (s : ResourceManager V) (modelIds : List String) :
    Option (ResourceManager V) :=
  run (fun s modelId => (loadPlanFromDevice text s (loading modelId) modelId).map Prod.fst) s modelIds

inductive Action (V : ElementType → Type) where
  | loadPlan (modelId : String) (answers : PlanAnswers)
  | restart (modelIds : List String) (maxInputsToSave : Nat) (manager : UserEventsManager V) (features : FeatureStoreManager)
      (loading : String → Loading)

/- A load_plan that throws ends the process. Only a restart is then left, which takes nothing
but the device. -/
def step (s : ResourceManager V) : Action V → Option (ResourceManager V)
  | .loadPlan modelId answers => (loadPlan text s modelId answers).map Prod.fst
  | .restart modelIds maxInputsToSave manager features loading =>
      loadPlansFromDevice text loading ⟨.new modelIds (.new maxInputsToSave manager),features,s.device⟩ modelIds

def start (device : Device) (manager : UserEventsManager V) : ResourceManager V :=
  ⟨.new [] (.new 0 manager),∅,device⟩

def versionOf (s : ONNXExecutor V) (modelId : String) : Option String :=
  s.modelMap[modelId]?.bind (fun address => (s.instanceAt address).map (·.version))

def Synced (s : ResourceManager V) : Prop := ∀ modelId version, versionOf s.mlExecutor.executor modelId = some version →
  ∃ planData, acceptedPlan text s.device modelId = some planData ∧ planData.version = version

def Readable : Action V → Prop
  | .loadPlan _ a => ∀ plan, a.downloaded = .ok plan → Prints text (a.planData plan).toJson
  | .restart _ _ _ _ _ => True

/- A download that the executor rejects is of a model that is not served, and the length of one
that it takes fits an int. -/
def Keeps (s : ResourceManager V) : Action V → Prop
  | .loadPlan modelId a => ∀ planData ∈ received s modelId a,
      if rejects text s modelId a planData then versionOf s.mlExecutor.executor modelId = none
      else toSizeT (wrap32 planData.plan.length) = planData.plan.length
  | .restart _ _ _ _ _ => True

instance (s : ResourceManager V) : (a : Action V) → Decidable (Keeps text s a)
  | .loadPlan _ _ => inferInstanceAs (Decidable (∀ planData ∈ _, ite _ _ _))
  | .restart _ _ _ _ _ => isTrue trivial

structure Placed (s : ONNXExecutor V) : Prop where
  there : ∀ (name : String) address, s.modelMap[name]? = some address → ∃ m, s.instances[address]? = some (some m)
  apart : ∀ (name other : String) address, s.modelMap[name]? = some address → s.modelMap[other]? = some address → name = other

section Executor
variable {s s' : ONNXExecutor V} {parse : String → Option Json} {l : Loading} {name : String} {planData : PlanData}
  {isLoaded : Bool}

theorem constructedVersion {modelId version : String} {info : ONNXModelInfo} {before after : UserEventsManager V}
    {m : ONNXModel} (built : construct l modelId version info before = some (after,some m)) : m.version = version := by
  unfold construct at built
  split at built
  · cases built
  have registered : (Flow.loop (constructInput l) (⟨modelId,version,info,[],[],∅⟩,before) info.inputs.zipIdx).Ends
      (fun s => s.1.version = version) := by
    refine Flow.loopEnds (P := fun s : ONNXModel × UserEventsManager V => s.1.version = version) (fun s item good => ?_) rfl _
    simp only [constructInput]
    split
    · split
      · exact good
      · split <;> trivial
    · exact good
  split at built
  · contradiction
  · cases built
  rename_i s ended
  rw [ended] at registered
  have dummy : (runDummyInference l s.1).Ends (fun m => m.version = version) := by
    refine Flow.endsAndThen (Flow.loopEnds (P := fun m : ONNXModel => m.version = version) (fun m item good => ?_) registered _)
      (fun m good => ?_)
    · unfold dummyInput
      split
      · exact good
      · split <;> exact good
    · split <;> trivial
  split at built
  · contradiction
  · cases built
  rename_i m' ran
  rw [ran] at dummy
  cases built
  exact dummy

omit [∀ d, Scalar (V d)] in
theorem placedNew (maxInputsToSave : Nat) (manager : UserEventsManager V) : Placed (.new maxInputsToSave manager) :=
  ⟨fun _ _ found => by simp [ONNXExecutor.new] at found,fun _ _ _ found => by simp [ONNXExecutor.new] at found⟩

omit [∀ d, Scalar (V d)] in
theorem replaced (placed : Placed s) (manager : UserEventsManager V) (model : ONNXModel) (name : String) :
    let next := {s with manager := manager, instances := s.instances ++ [some model]}.replaceModel name s.instances.length
    next.modelMap = s.modelMap.insert name s.instances.length ∧ next.instances[s.instances.length]? = some (some model) ∧
      ∀ (other : String) address, other ≠ name → s.modelMap[other]? = some address →
        next.instances[address]? = s.instances[address]? ∧ address ≠ s.instances.length := by
  have inside : ∀ (other : String) address, s.modelMap[other]? = some address → address < s.instances.length := by
    intro other address mapped
    obtain ⟨m,here⟩ := placed.there other address mapped
    exact (List.getElem?_eq_some_iff.mp here).1
  refine ⟨rfl,?_,fun other address different mapped => ⟨?_,(inside other address mapped).ne⟩⟩
  · simp only [ONNXExecutor.replaceModel]
    split
    · simp
    · rename_i old mapped
      rw [List.getElem?_set_ne (inside name old mapped).ne]
      simp
  · simp only [ONNXExecutor.replaceModel]
    split
    · exact List.getElem?_append_left (inside other address mapped)
    · rename_i old former
      have apart : old ≠ address := by
        rintro rfl
        exact different (placed.apart other name old mapped former)
      rw [List.getElem?_set_ne apart]
      exact List.getElem?_append_left (inside other address mapped)

theorem loadPlanCases (placed : Placed s) (ran : s.loadPlan parse l name planData = some (s',isLoaded)) : Placed s' ∧
    ∀ modelId, versionOf s' modelId =
      if isLoaded = true ∧ modelId = name then some planData.version else versionOf s modelId := by
  simp only [ONNXExecutor.loadPlan,bind,Option.bind_eq_some_iff] at ran
  obtain ⟨⟨built,address⟩,building,ran⟩ := ran
  unfold ONNXExecutor.buildModel at building
  split at building
  · cases building
    cases ran
    exact ⟨placed,fun _ => by simp⟩
  split at building
  · contradiction
  · cases building
    cases ran
    exact ⟨⟨placed.there,placed.apart⟩,fun _ => by simp; rfl⟩
  rename_i manager model made
  cases building
  cases ran
  obtain ⟨map,new,others⟩ := replaced placed manager model name
  refine ⟨⟨?_,?_⟩,?_⟩
  · intro other address mapped
    rw [map] at mapped
    rcases insertFound mapped with ⟨rfl,rfl⟩ | ⟨different,old⟩
    · exact ⟨model,new⟩
    · rw [(others other address different old).1]
      exact placed.there other address old
  · intro other another address mapped mapped'
    rw [map] at mapped mapped'
    rcases insertFound mapped with ⟨rfl,rfl⟩ | ⟨different,old⟩ <;>
      rcases insertFound mapped' with ⟨rfl,same⟩ | ⟨different',old'⟩
    · rfl
    · exact absurd rfl (others another _ different' old').2
    · exact absurd same (others other _ different old).2
    · exact placed.apart other another address old old'
  · intro modelId
    simp only [versionOf,map,ONNXExecutor.instanceAt,true_and]
    split
    · rename_i same
      subst same
      simp [new,constructedVersion made]
    · rename_i different
      rw [insertOther different]
      cases mapped : s.modelMap[modelId]? with
      | none => rfl
      | some address => simp only [Option.bind_some,(others modelId address different mapped).1]

end Executor

section Device
variable {text} {device : Device} {name modelId version extras : String} {plan : Bytes}

theorem filesApart (different : modelId ≠ name) {suffix suffix' : String}
    (one : suffix = INFERENCEMETADATAFILENAME ∨ suffix = INFERENCEFILENAME)
    (other : suffix' = INFERENCEMETADATAFILENAME ∨ suffix' = INFERENCEFILENAME) : modelId ++ suffix ≠ name ++ suffix' := by
  intro same
  have fifth := congrArg (fun s : String => s.toList.reverse[4]?) same
  rcases one with rfl | rfl <;> rcases other with rfl | rfl
  · exact different (by simpa using same)
  · simp [INFERENCEMETADATAFILENAME,INFERENCEFILENAME] at fifth
  · simp [INFERENCEMETADATAFILENAME,INFERENCEFILENAME] at fifth
  · exact different (by simpa using same)

theorem acceptedElsewhere (different : modelId ≠ name) (planData : PlanData) :
    acceptedPlan text (device.saveInferencePlanDataOnDevice text name planData) modelId = acceptedPlan text device modelId := by
  rw [acceptedOfFiles,acceptedOfFiles]
  simp only [saveInferencePlanDataOnDevice,savedElsewhere (filesApart different (.inl rfl) (.inr rfl)),
    savedElsewhere (filesApart different (.inl rfl) (.inl rfl)),savedElsewhere (filesApart different (.inr rfl) (.inr rfl)),
    savedElsewhere (filesApart different (.inr rfl) (.inl rfl))]

theorem acceptedHere (prints : Prints text (planOf version extras plan).toJson) :
    acceptedPlan text (device.saveInferencePlanDataOnDevice text name (planOf version extras plan)) name =
      if toSizeT (wrap32 plan.length) = plan.length then some ⟨true,version,plan,extras,wrap32 plan.length⟩ else none := by
  rw [savedPlan,acceptNew prints]

end Device

section Steps
variable {text} {s s' : ResourceManager V} {name modelId : String} {a : PlanAnswers} {exit : Exit}

theorem loadPlanEnds (ran : loadPlan text s name a = some (s',exit)) :
    (received s name a = none ∧ s'.device = s.device ∧ s'.mlExecutor.executor = s.mlExecutor.executor) ∨
    ∃ planData isLoaded, received s name a = some planData ∧
      s.mlExecutor.executor.loadPlan (fun extras => text.parse (utf8 extras)) a.loading name planData =
        some (s'.mlExecutor.executor,isLoaded) ∧
      s'.device = s.device.saveInferencePlanDataOnDevice text name planData := by
  have updated : ∀ (executor : MlExecutor V) (flag : Bool), (executor.planUpdated name flag).executor = executor.executor := by
    intro executor flag
    unfold MlExecutor.planUpdated
    split <;> rfl
  cases got : received s name a with
  | some planData =>
      rw [loadPlanReceived got] at ran
      simp only [storeAndLoad,bind,Option.bind_eq_some_iff] at ran
      obtain ⟨⟨executor,isLoaded⟩,loaded,done⟩ := ran
      cases done
      exact .inr ⟨planData,isLoaded,rfl,by rw [loaded,updated],rfl⟩
  | none =>
      refine .inl ⟨rfl,?_⟩
      unfold loadPlan at ran
      unfold received at got
      split at ran
      · cases ran
        exact ⟨rfl,rfl⟩
      rename_i answered
      simp only [bind,Option.bind_eq_some_iff] at ran
      obtain ⟨current,version,ran⟩ := ran
      simp only [if_neg answered,version,bind,Option.bind_some] at got
      split at ran
      · cases ran
        exact ⟨rfl,updated _ _⟩
      rename_i other
      rw [if_neg other] at got
      split at ran
      · cases ran
        exact ⟨rfl,rfl⟩
      rename_i fits
      rw [if_neg fits] at got
      split at ran
      · cases ran
        exact ⟨rfl,updated _ _⟩
      · rename_i plan downloaded
        rw [downloaded] at got
        contradiction

omit [∀ d, Scalar (V d)] in
theorem receivedOf {planData : PlanData} (got : received s name a = some planData) :
    (∃ plan, a.downloaded = .ok plan ∧ planData = a.planData plan) ∧
      versionOf s.mlExecutor.executor name ≠ some planData.version := by
  unfold received at got
  split at got
  · contradiction
  simp only [bind,Option.bind_eq_some_iff] at got
  obtain ⟨current,version,got⟩ := got
  split at got
  · contradiction
  rename_i other
  split at got
  · contradiction
  split at got
  · contradiction
  rename_i plan downloaded
  cases got
  refine ⟨⟨plan,downloaded,rfl⟩,fun served => other ?_⟩
  unfold versionOf at served
  unfold MlExecutor.getPlanVersion at version
  cases mapped : s.mlExecutor.executor.modelMap[name]? with
  | none => simp [mapped] at served
  | some address =>
      rw [mapped] at served version
      exact Option.some.inj (version.symm.trans served)

omit [∀ d, Scalar (V d)] in
theorem syncedAfter {new : PlanData} {fits : Prop} [Decidable fits] {isLoaded : Bool} (synced : Synced text s)
    (here : acceptedPlan text s'.device name = if fits then some new else none)
    (elsewhere : ∀ other, other ≠ name → acceptedPlan text s'.device other = acceptedPlan text s.device other)
    (versions : ∀ other, versionOf s'.mlExecutor.executor other =
      if isLoaded = true ∧ other = name then some new.version else versionOf s.mlExecutor.executor other)
    (newer : versionOf s.mlExecutor.executor name ≠ some new.version) :
    Synced text s' ↔ if isLoaded = true then fits else versionOf s.mlExecutor.executor name = none := by
  have others : ∀ other version, other ≠ name → versionOf s'.mlExecutor.executor other = some version →
      ∃ planData, acceptedPlan text s'.device other = some planData ∧ planData.version = version := by
    intro other version different served
    rw [versions,if_neg (fun both => different both.2)] at served
    rw [elsewhere other different]
    exact synced other version served
  cases isLoaded with
  | true =>
      simp only [if_true]
      constructor
      · intro synced'
        obtain ⟨planData,accepted,_⟩ := synced' name new.version (by simp [versions])
        by_contra cut
        rw [here,if_neg cut] at accepted
        contradiction
      · intro whole other version served
        by_cases same : other = name
        · subst same
          rw [versions,if_pos ⟨rfl,rfl⟩] at served
          exact ⟨new,here.trans (if_pos whole),Option.some.inj served⟩
        · exact others other version same served
  | false =>
      simp only [Bool.false_eq_true,if_false]
      have unchanged : versionOf s'.mlExecutor.executor name = versionOf s.mlExecutor.executor name := by simp [versions]
      constructor
      · intro synced'
        by_contra served
        obtain ⟨version,served⟩ := Option.ne_none_iff_exists'.mp served
        obtain ⟨planData,accepted,same⟩ := synced' name version (unchanged.trans served)
        rw [here] at accepted
        split at accepted
        · cases accepted
          exact newer (same ▸ served)
        · contradiction
      · intro absent other version served
        by_cases same : other = name
        · subst same
          rw [unchanged,absent] at served
          contradiction
        · exact others other version same served

theorem loadPlanSynced (placed : Placed s.mlExecutor.executor) (synced : Synced text s)
    (readable : Readable text (.loadPlan name a : Action V)) (ran : loadPlan text s name a = some (s',exit)) :
    Placed s'.mlExecutor.executor ∧ (Synced text s' ↔ Keeps text s (.loadPlan name a)) := by
  rcases loadPlanEnds ran with ⟨nothing,device,executor⟩ | ⟨planData,isLoaded,got,loaded,device⟩
  · rw [executor]
    refine ⟨placed,iff_of_true ?_ (fun planData member => ?_)⟩
    · unfold Synced
      rwa [device,executor]
    · rw [nothing] at member
      contradiction
  · obtain ⟨⟨plan,downloaded,rfl⟩,newer⟩ := receivedOf got
    obtain ⟨placed',versions⟩ := loadPlanCases placed loaded
    have after := @syncedAfter V text s s' name ⟨true,a.version.version,plan,a.version.extras,wrap32 plan.length⟩
      (toSizeT (wrap32 plan.length) = plan.length) _ isLoaded synced
      (by rw [device]; exact acceptedHere (readable plan downloaded))
      (fun other different => by rw [device]; exact acceptedElsewhere different _) versions newer
    refine ⟨placed',after.trans ?_⟩
    simp only [Keeps,got,Option.mem_def,Option.some.injEq,forall_eq',rejects,loaded,Option.map_some]
    cases isLoaded <;> simp [PlanAnswers.planData]

theorem loadFromDeviceSynced {loading : Loading} {isLoaded : Bool} (placed : Placed s.mlExecutor.executor)
    (synced : Synced text s) (ran : loadPlanFromDevice text s loading name = some (s',isLoaded)) :
    Placed s'.mlExecutor.executor ∧ Synced text s' ∧ s'.device = s.device := by
  unfold loadPlanFromDevice at ran
  dsimp only at ran
  split at ran
  · rename_i valid
    simp only [bind,Option.bind_eq_some_iff] at ran
    obtain ⟨⟨executor,loaded⟩,building,done⟩ := ran
    cases done
    obtain ⟨placed',versions⟩ := loadPlanCases placed building
    refine ⟨placed',fun other version served => ?_,rfl⟩
    rw [versions] at served
    split at served
    · rename_i both
      obtain ⟨_,rfl⟩ := both
      exact ⟨_,if_pos valid,Option.some.inj served⟩
    · exact synced other version served
  · cases ran
    exact ⟨placed,synced,rfl⟩

theorem restartSynced {device : Device} {modelIds : List String} {maxInputsToSave : Nat} {manager : UserEventsManager V}
    {features : FeatureStoreManager} {loading : String → Loading} (ran : loadPlansFromDevice text loading
      ⟨.new modelIds (.new maxInputsToSave manager),features,device⟩ modelIds = some s') :
    Placed s'.mlExecutor.executor ∧ Synced text s' ∧ s'.device = device := by
  let Good (s : ResourceManager V) : Prop := Placed s.mlExecutor.executor ∧ Synced text s ∧ s.device = device
  have preserved : ∀ (s : ResourceManager V) modelId next, Good s →
      (loadPlanFromDevice text s (loading modelId) modelId).map Prod.fst = some next → Good next := by
    intro s modelId next good taken
    obtain ⟨⟨after,isLoaded⟩,ran,rfl⟩ := Option.map_eq_some_iff.mp taken
    obtain ⟨placed,synced,same⟩ := loadFromDeviceSynced good.1 good.2.1 ran
    exact ⟨placed,synced,same.trans good.2.2⟩
  refine runInvariant _ preserved ⟨placedNew maxInputsToSave manager,fun modelId version served => ?_,rfl⟩ ran
  simp [versionOf,MlExecutor.new,ONNXExecutor.new] at served

theorem stepSynced {action : Action V} (readable : Readable text action) (placed : Placed s.mlExecutor.executor)
    (synced : Synced text s) (taken : step text s action = some s') :
    Placed s'.mlExecutor.executor ∧ (Synced text s' ↔ Keeps text s action) := by
  cases action with
  | loadPlan name a =>
      obtain ⟨⟨after,exit⟩,ran,rfl⟩ := Option.map_eq_some_iff.mp taken
      exact loadPlanSynced placed synced readable ran
  | restart modelIds maxInputsToSave manager features loading =>
      obtain ⟨placed',synced',_⟩ := restartSynced taken
      exact ⟨placed',iff_of_true synced' trivial⟩

end Steps

section Runs
variable {text} {device : Device} {manager : UserEventsManager V} {actions : List (Action V)} {s : ResourceManager V}

omit [∀ d, Scalar (V d)] in
theorem startSynced (device : Device) (manager : UserEventsManager V) : Synced text (start device manager) := by
  intro modelId version served
  simp [start,versionOf,MlExecutor.new,ONNXExecutor.new] at served

theorem runSynced (readable : ∀ a ∈ actions, Readable text a) (ran : run (step text) (start device manager) actions = some s)
    (kept : Guarded (step text) (Keeps text) (start device manager) actions) :
    Placed s.mlExecutor.executor ∧ Synced text s := by
  let Good (s : ResourceManager V) : Prop := Placed s.mlExecutor.executor ∧ Synced text s
  have preserved : ∀ s a next, Good s → Readable text a ∧ Keeps text s a → step text s a = some next → Good next := by
    intro s a next h guard taken
    obtain ⟨placed,exactly⟩ := stepSynced guard.1 h.1 h.2 taken
    exact ⟨placed,exactly.mpr guard.2⟩
  exact guardedInvariant preserved ⟨placedNew 0 manager,startSynced device manager⟩ (guardedAnd readable kept) ran

end Runs

section Ranker

def modelDocument : Json := .object [("inputs",.array []),("outputs",.array [])]

def modelText : String := "\x7b\"inputs\":[],\"outputs\":[]\x7d"

def planText (version : String) : Bytes :=
  utf8 ("\x7b\"extras\":\"\x7b\\\"inputs\\\":[],\\\"outputs\\\":[]\x7d\",\"planLength\":1,\"version\":\"" ++ version ++ "\"\x7d")

def rankerText : JsonText where
  dump j := planText (((j.find? "version").bind Json.getString).getD "")
  parse bytes := List.lookup bytes ((utf8 modelText,modelDocument) ::
    ["1","2"].map (fun version => (planText version,(planOf version modelText [7]).toJson)))

def loading (accepts : Bool) : Loading :=
  ⟨⟨accepts,fun _ => true,fun _ _ => true⟩,fun _ => ⟨fun _ _ _ => 0,fun _ _ => 0⟩,fun _ _ => ⟨[],true⟩⟩

def release (version : String) (accepts : Bool) : PlanAnswers := ⟨⟨200,1,version,modelText⟩,fun _ => ⟨200,[7]⟩,loading accepts⟩

def noTables : UserEventsManager IntValues := ⟨∅,∅⟩

def again : Action IntValues := .restart ["ranker"] 0 noTables ∅ (fun _ => loading true)

def released (accepts : Bool) : List (Action IntValues) :=
  [.loadPlan "ranker" (release "1" true),again,.loadPlan "ranker" (release "2" accepts)]

theorem releasePrints {version : String} (known : version ∈ ["1","2"]) : Prints rankerText (planOf version modelText [7]).toJson := by
  have text : rankerText.dump (planOf version modelText [7]).toJson = planText version := rfl
  refine ⟨⟨(planOf version modelText [7]).toJson,?_,fun _ => rfl⟩,?_,?_⟩
  · rw [text]
    fin_cases known <;> rfl
  · rw [text]
    fin_cases known <;> decide +kernel
  · rw [text]
    fin_cases known <;> decide +kernel

theorem releasedReadable {accepts : Bool} : ∀ a ∈ released accepts, Readable rankerText a := by
  intro a member
  simp only [released,List.mem_cons,List.not_mem_nil,or_false] at member
  rcases member with rfl | rfl | rfl
  · intro plan downloaded
    cases downloaded
    exact releasePrints (by decide)
  · trivial
  · intro plan downloaded
    cases downloaded
    exact releasePrints (by simp [release])

end Ranker

section Results
variable {text} {device : Device} {manager : UserEventsManager V} {actions : List (Action V)} {s : ResourceManager V}

theorem syncedIff (readable : ∀ a ∈ actions, Readable text a) (ran : run (step text) (start device manager) actions = some s) :
    Always (step text) (Synced text) (start device manager) actions ↔
      Guarded (step text) (Keeps text) (start device manager) actions := by
  have within : Guarded (step text) (fun _ => Readable text) (start device manager) actions :=
    guardedOfAll (fun _ a member => readable a member)
  have exactly : ∀ (s : ResourceManager V) a next, Placed s.mlExecutor.executor → Synced text s → Readable text a →
      step text s a = some next → Placed next.mlExecutor.executor ∧ (Synced text next ↔ Keeps text s a) :=
    fun _ _ _ placed synced readable taken => stepSynced readable placed synced taken
  exact alwaysIffGuardedWithin exactly (placedNew 0 manager) (startSynced device manager) within ran

theorem releasedSynced :
    Always (step rankerText) (Synced rankerText) (start ∅ noTables) (released true) ∧
      ¬ Always (step rankerText) (Synced rankerText) (start ∅ noTables) (released false) := by
  obtain ⟨taken,ran⟩ : ∃ s, run (step rankerText) (start ∅ noTables) (released true) = some s := ⟨_,rfl⟩
  obtain ⟨rejected,ran'⟩ : ∃ s, run (step rankerText) (start ∅ noTables) (released false) = some s := ⟨_,rfl⟩
  exact ⟨(syncedIff releasedReadable ran).mpr (by decide +kernel),
    fun synced => absurd ((syncedIff releasedReadable ran').mp synced) (by decide +kernel)⟩

theorem restartSame (readable : ∀ a ∈ actions, Readable text a) (ran : run (step text) (start device manager) actions = some s)
    (kept : Guarded (step text) (Keeps text) (start device manager) actions) {modelIds : List String} {maxInputsToSave : Nat}
    {tables : UserEventsManager V} {features : FeatureStoreManager} {loading : String → Loading} {s' : ResourceManager V}
    (restarted : step text s (.restart modelIds maxInputsToSave tables features loading) = some s') {modelId version version' : String}
    (before : versionOf s.mlExecutor.executor modelId = some version)
    (after : versionOf s'.mlExecutor.executor modelId = some version') : version' = version := by
  obtain ⟨_,synced',same⟩ := restartSynced restarted
  obtain ⟨planData,accepted,rfl⟩ := (runSynced readable ran kept).2 modelId version before
  obtain ⟨planData',accepted',rfl⟩ := synced' modelId version' after
  rw [same,accepted] at accepted'
  cases accepted'
  rfl

theorem releasedSame : ∃ s s' : ResourceManager IntValues,
    run (step rankerText) (start ∅ noTables) (released true) = some s ∧ step rankerText s again = some s' ∧
      versionOf s.mlExecutor.executor "ranker" = some "2" ∧ versionOf s'.mlExecutor.executor "ranker" = some "2" := by
  obtain ⟨s,s',ran,restarted,before,after⟩ : ∃ s s' : ResourceManager IntValues,
      run (step rankerText) (start ∅ noTables) (released true) = some s ∧ step rankerText s again = some s' ∧
        versionOf s.mlExecutor.executor "ranker" = some "2" ∧
        (versionOf s'.mlExecutor.executor "ranker").isSome = true := ⟨_,_,rfl,rfl,by decide +kernel,by decide +kernel⟩
  obtain ⟨version',after⟩ := Option.isSome_iff_exists.mp after
  have same := restartSame releasedReadable ran (by decide +kernel) restarted before after
  exact ⟨s,s',ran,restarted,before,same ▸ after⟩

end Results

end NimbleNet.RestartedPlans
