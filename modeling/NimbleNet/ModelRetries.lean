import NimbleNet.OrderedMap
import NimbleNet.ResourceManager
import NimbleNet.StepRuns

/-! How often a plan is asked for. The background thread checks a model and then loads
its plan; internet_switched_on comes from another thread, so also between the two. A
load_plan that throws ends the thread, and the process with it. -/
namespace NimbleNet.ModelRetries
open OrderedMap ResourceManager StepRuns

variable {V : ElementType → Type}

structure View where
  retries : Option Int
  updated : Option Bool
  loaded : Bool
  deriving DecidableEq

def view (s : ResourceManager V) (modelId : String) : View :=
  ⟨s.mlExecutor.loadModelRetries[modelId]?,s.mlExecutor.isModelUpdated[modelId]?,s.mlExecutor.checkPlanLoaded modelId⟩

def internetSwitchedOn (modelIds : List String) (s : ResourceManager V) : ResourceManager V :=
  {s with mlExecutor := modelIds.foldl (fun executor modelId => executor.resetModelRetries modelId) s.mlExecutor}

/- The manager, the model whose load_plan is running, and what is watched of one model:
the calls since the last reset, whether one returned SUCCESS, and whether one since
the last reset returned an error that is not to be retried. -/
structure Watched (V : ElementType → Type) where
  manager : ResourceManager V
  loading : Option String
  calls : Nat
  succeeded : Bool
  refused : Bool

inductive Action where
  | check (name : String)
  | load (answers : PlanAnswers)
  | internetSwitchedOn

def start (modelIds : List String) (executor : ONNXExecutor V) (features : FeatureStoreManager) (device : Device) :
    Watched V :=
  ⟨⟨.new modelIds executor,features,device⟩,none,0,false,false⟩

def isRefusal (ret : Int) : Bool := 0 < ret && ret ≠ SUCCESS

variable [∀ d, Scalar (V d)] (text : JsonText) (modelIds : List String) (modelId : String)

def step (s : Watched V) : Action → Option (Watched V)
  | .check name =>
      match s.loading with
      | some _ => none
      | none =>
          match s.manager.canModelRetry name with
          | (manager,false) => some {s with manager := manager}
          | (manager,true) => some {s with
              manager := manager,
              loading := some name,
              calls := if name = modelId then s.calls + 1 else s.calls}
  | .load answers =>
      match s.loading with
      | none => none
      | some name =>
          match loadPlan text s.manager name answers with
          | some (manager,.returned ret) => some {s with
              manager := manager.updateModelRetries name,
              loading := none,
              succeeded := s.succeeded || (decide (name = modelId) && decide (ret = SUCCESS)),
              refused := s.refused || (decide (name = modelId) && isRefusal ret)}
          | _ => none
  | .internetSwitchedOn => some {s with
      manager := internetSwitchedOn modelIds s.manager,
      calls := 0,
      refused := false}

def updatePlan (s : ResourceManager V) (name : String) (answers : PlanAnswers) : List Action :=
  if (s.canModelRetry name).2 then [.check name,.load answers] else [.check name]

theorem updatePlanRuns {s : Watched V} (idle : s.loading = none) (name : String) (answers : PlanAnswers) :
    (run (step text modelIds modelId) s (updatePlan s.manager name answers)).map Watched.manager =
      (updatePlanIfRequired text s.manager name answers).bind (fun r =>
        match r.2 with
        | some .threw => none
        | _ => some r.1) := by
  unfold updatePlan updatePlanIfRequired
  rcases checked : s.manager.canModelRetry name with ⟨manager,due | due⟩
  · simp [run,step,idle,checked]
  · simp only [if_true,run,step,idle,checked,bind,Option.bind_some]
    cases loaded : loadPlan text manager name answers with
    | none => simp
    | some r =>
        obtain ⟨manager',exit⟩ := r
        cases exit <;> simp

def MayCall (s : Watched V) : Prop := s.loading = some modelId ∨ (s.manager.canModelRetry modelId).2 = true

def afterReset (s : Watched V) : Watched V := {s with manager := internetSwitchedOn modelIds s.manager}

structure Obeys (s : Watched V) : Prop where
  bounded : s.calls ≤ DEFAULT_LOAD_MODEL_RETRIES
  afterSuccess : s.succeeded = true → ¬ MayCall modelId s ∧ ¬ MayCall modelId (afterReset modelIds s)
  afterRefusal : s.refused = true → ¬ MayCall modelId s

/- A load_plan that returns SUCCESS leaves a plan behind, and one that returns an error
not to be retried is the last there is a retry for. -/
def Ends (v : View) (answers : PlanAnswers) : Exit → Prop
  | .threw => True
  | .returned ret => (ret = SUCCESS → v.loaded = true ∨ answers.version.version ≠ "") ∧
      (isRefusal ret = true → v.retries = some 1)

instance (v : View) (answers : PlanAnswers) : (exit : Exit) → Decidable (Ends v answers exit)
  | .threw => isTrue trivial
  | .returned _ => inferInstanceAs (Decidable (_ ∧ _))

def LoadEnds (s : Watched V) : Action → Prop
  | .load answers => s.loading = some modelId →
      ∀ r ∈ loadPlan text s.manager modelId answers, Ends (view s.manager modelId) answers r.2
  | _ => True

instance (s : Watched V) : (a : Action) → Decidable (LoadEnds text modelId s a)
  | .load _ => inferInstanceAs (Decidable (_ → _))
  | .check _ => isTrue trivial
  | .internetSwitchedOn => isTrue trivial

omit [∀ d, Scalar (V d)]

section Views
variable {s s' : ResourceManager V} {name : String}

theorem canModelRetryView (flag : (view s modelId).updated.isSome = true) :
    view (s.canModelRetry name).1 modelId = view s modelId := by
  unfold ResourceManager.canModelRetry MlExecutor.canModelRetry
  by_cases loaded : s.mlExecutor.checkPlanLoaded name = true
  · simp only [if_pos loaded]
    by_cases same : modelId = name
    · subst same
      obtain ⟨updated,known⟩ := Option.isSome_iff_exists.mp flag
      change s.mlExecutor.isModelUpdated[modelId]? = some updated at known
      simp [view,known,Std.ExtTreeMap.getD_eq_getD_getElem?,MlExecutor.checkPlanLoaded]
    · simp [view,insertOther same,MlExecutor.checkPlanLoaded]
  · simp only [if_neg loaded]

def View.callable (v : View) : Bool := !(v.loaded && v.updated.getD false) && decide (0 < v.retries.getD 0)

theorem canModelRetryCallable : (s.canModelRetry modelId).2 = (view s modelId).callable := by
  unfold ResourceManager.canModelRetry MlExecutor.canModelRetry View.callable
  have left : s.mlExecutor.hasRetries modelId = decide (0 < (view s modelId).retries.getD 0) := by
    unfold MlExecutor.hasRetries
    cases known : s.mlExecutor.loadModelRetries[modelId]? <;> simp [view,known]
  by_cases loaded : s.mlExecutor.checkPlanLoaded modelId = true
  · simp only [if_pos loaded,left]
    simp [view,loaded,Std.ExtTreeMap.getD_eq_getD_getElem?]
  · simp only [if_neg loaded,left]
    simp [view,loaded]

theorem updateRetriesView : view (s.updateModelRetries name) modelId =
    {view s modelId with retries := (view s modelId).retries.map (fun r => if name = modelId then r - 1 else r)} := by
  unfold ResourceManager.updateModelRetries MlExecutor.updateModelRetries
  by_cases same : modelId = name
  · subst same
    cases known : s.mlExecutor.loadModelRetries[modelId]? <;> simp [view,known,MlExecutor.checkPlanLoaded]
  · split
    · simp [view,Ne.symm same]
    · simp [view,insertOther same,Ne.symm same,MlExecutor.checkPlanLoaded]

theorem planUpdatedView (isUpdated : Bool) (device : Device) :
    view {s with mlExecutor := s.mlExecutor.planUpdated name isUpdated, device := device} modelId =
      {view s modelId with
        updated := (view s modelId).updated.map (fun old => if name = modelId then isUpdated else old)} := by
  unfold MlExecutor.planUpdated
  by_cases same : modelId = name
  · subst same
    rw [Std.ExtTreeMap.contains_eq_isSome_getElem?]
    cases known : s.mlExecutor.isModelUpdated[modelId]? <;> simp [view,known,MlExecutor.checkPlanLoaded]
  · split <;> simp [view,insertOther same,Ne.symm same,MlExecutor.checkPlanLoaded]

end Views

section LoadPlan

theorem executorLoads [∀ d, Scalar (V d)] {s s' : ONNXExecutor V} {parse : String → Option Json}
    {l : ONNXModel.Loading} {name : String} {planData : PlanData} {isLoaded : Bool}
    (ran : s.loadPlan parse l name planData = some (s',isLoaded)) :
    s'.modelMap.contains modelId = (s.modelMap.contains modelId || (isLoaded && decide (name = modelId))) := by
  simp only [ONNXExecutor.loadPlan,bind,Option.bind_eq_some_iff] at ran
  obtain ⟨⟨built,address⟩,building,ran⟩ := ran
  have same : built.modelMap = s.modelMap := by
    unfold ONNXExecutor.buildModel at building
    split at building
    · cases building
      rfl
    · split at building
      · contradiction
      · cases building
        rfl
      · cases building
        rfl
  cases address with
  | none =>
      cases ran
      simp [same]
  | some address =>
      cases ran
      simp only [ONNXExecutor.replaceModel,same,Std.ExtTreeMap.contains_insert,Bool.true_and]
      rw [Bool.or_comm]
      congr 1
      by_cases eq : name = modelId <;> simp [eq]

theorem getPartsError {part : Int → NetworkResponse} {plan : Bytes} {ks : List Int} {status : Int}
    (failed : getParts part plan ks = .error status) : status ≠ SUCCESS := by
  induction ks generalizing plan with
  | nil => cases failed
  | cons k rest ih =>
      unfold getParts at failed
      split at failed
      · rename_i bad
        cases failed
        exact bad
      · exact ih failed

variable [∀ d, Scalar (V d)] {text : JsonText} {s s' : ResourceManager V} {name : String} {answers : PlanAnswers}
  {ret : Int}

theorem loadPlanCases (ran : loadPlan text s name answers = some (s',.returned ret)) :
    (s' = s ∧ ret ≠ SUCCESS) ∨ ∃ executor device,
      s' = {s with
        mlExecutor := {s.mlExecutor with executor := executor}.planUpdated name (decide (ret = SUCCESS)),
        device := device} ∧
      ∀ modelId, executor.modelMap.contains modelId = (s.mlExecutor.executor.modelMap.contains modelId ||
        (decide (ret = SUCCESS) && decide (answers.version.version ≠ "") && decide (name = modelId))) := by
  unfold loadPlan at ran
  split at ran
  · rename_i status
    cases ran
    exact .inl ⟨rfl,status⟩
  refine .inr ?_
  simp only [bind,Option.bind_eq_some_iff] at ran
  obtain ⟨current,version,ran⟩ := ran
  have unloaded : s.mlExecutor.executor.modelMap.contains name = false → current = "" := by
    intro absent
    rw [Std.ExtTreeMap.contains_eq_isSome_getElem?,Option.isSome_eq_false_iff,Option.isNone_iff_eq_none] at absent
    simpa [MlExecutor.getPlanVersion,absent] using version.symm
  split at ran
  · rename_i same
    cases ran
    refine ⟨s.mlExecutor.executor,s.device,by simp,fun modelId => ?_⟩
    by_cases own : name = modelId
    · subst own
      cases loaded : s.mlExecutor.executor.modelMap.contains name with
      | true => rfl
      | false => simp [← same,unloaded loaded]
    · simp [own]
  rename_i other
  split at ran
  · cases ran
  split at ran
  · rename_i status failed
    cases ran
    have bad := getPartsError failed
    exact ⟨s.mlExecutor.executor,s.device,by simp [bad],fun modelId => by simp [bad]⟩
  · rename_i plan downloaded
    simp only [storeAndLoad,bind,Option.bind_eq_some_iff] at ran
    obtain ⟨⟨executor,isLoaded⟩,ran,done⟩ := ran
    have loads := fun modelId => executorLoads modelId ran
    cases isLoaded with
    | false =>
        cases done
        exact ⟨executor,_,by simp [EXECUTOR_LOAD_MODEL_ERR,SUCCESS]; rfl,
          fun modelId => by simpa [EXECUTOR_LOAD_MODEL_ERR,SUCCESS] using loads modelId⟩
    | true =>
        cases done
        refine ⟨executor,_,rfl,fun modelId => ?_⟩
        rw [loads modelId]
        by_cases own : name = modelId
        · subst own
          cases loaded : s.mlExecutor.executor.modelMap.contains name with
          | true => simp
          | false =>
              have named : answers.version.version ≠ "" := fun empty => other ((unloaded loaded).trans empty.symm)
              simp [named]
        · simp [own]

theorem loadPlanView (ran : loadPlan text s name answers = some (s',.returned ret)) :
    (ret ≠ SUCCESS ∧ view s' modelId = view s modelId) ∨ view s' modelId = {view s modelId with
      updated := (view s modelId).updated.map (fun old => if name = modelId then decide (ret = SUCCESS) else old),
      loaded := (view s modelId).loaded ||
        (decide (ret = SUCCESS) && decide (answers.version.version ≠ "") && decide (name = modelId))} := by
  rcases loadPlanCases ran with ⟨rfl,failed⟩ | ⟨executor,device,rfl,maps⟩
  · exact .inl ⟨failed,rfl⟩
  · refine .inr ?_
    have flagged := @planUpdatedView V modelId {s with mlExecutor.executor := executor} name (decide (ret = SUCCESS)) device
    simp only [view,MlExecutor.checkPlanLoaded,View.mk.injEq] at flagged ⊢
    rw [← maps modelId]
    exact flagged

end LoadPlan

section Resets

theorem resetRetries (executor : MlExecutor V) :
    (modelIds.foldl (fun executor modelId => executor.resetModelRetries modelId) executor).loadModelRetries[modelId]? =
        executor.loadModelRetries[modelId]?.map (fun r => if modelId ∈ modelIds then DEFAULT_LOAD_MODEL_RETRIES else r) ∧
      (modelIds.foldl (fun executor modelId => executor.resetModelRetries modelId) executor).isModelUpdated =
        executor.isModelUpdated ∧
      (modelIds.foldl (fun executor modelId => executor.resetModelRetries modelId) executor).executor =
        executor.executor := by
  induction modelIds generalizing executor with
  | nil => simp
  | cons name rest ih =>
      obtain ⟨retries,updated,models⟩ := ih (executor.resetModelRetries name)
      rw [List.foldl_cons]
      have here : (executor.resetModelRetries name).loadModelRetries[modelId]? =
          executor.loadModelRetries[modelId]?.map (fun r => if modelId = name then DEFAULT_LOAD_MODEL_RETRIES else r) := by
        unfold MlExecutor.resetModelRetries
        rw [Std.ExtTreeMap.contains_eq_isSome_getElem?]
        by_cases same : modelId = name
        · subst same
          cases known : executor.loadModelRetries[modelId]? <;> simp [known]
        · split <;> simp [insertOther same]
      refine ⟨?_,updated.trans ?_,models.trans ?_⟩
      · rw [retries,here,Option.map_map]
        congr 1
        funext r
        by_cases same : modelId = name <;> simp [same]
      · unfold MlExecutor.resetModelRetries
        split <;> rfl
      · unfold MlExecutor.resetModelRetries
        split <;> rfl

variable {modelIds modelId} {s : ResourceManager V}

theorem resetView (known : modelId ∈ modelIds) : view (internetSwitchedOn modelIds s) modelId =
    {view s modelId with retries := (view s modelId).retries.map (fun _ => DEFAULT_LOAD_MODEL_RETRIES)} := by
  obtain ⟨retries,updated,models⟩ := resetRetries modelIds modelId s.mlExecutor
  simp [view,internetSwitchedOn,MlExecutor.checkPlanLoaded,retries,updated,models,known]

end Resets

/- The calls that were made and the retries that are left make up the default, with one
more while the call that has been counted is not paid for. -/
structure Counts (s : Watched V) : Prop where
  retries : ∃ r : Nat, (view s.manager modelId).retries = some (r : Int) ∧
    s.calls + r ≤ 3 + (if s.loading = some modelId then 1 else 0) ∧ (s.loading = some modelId → 0 < r)
  flag : ∃ updated, (view s.manager modelId).updated = some updated
  waiting : s.loading = some modelId →
    ((view s.manager modelId).loaded && (view s.manager modelId).updated.getD false) = false

section Steps
variable {modelIds modelId} {s next : Watched V}

theorem countsBounded (h : Counts modelId s) : s.calls ≤ DEFAULT_LOAD_MODEL_RETRIES := by
  obtain ⟨r,_,sum,left⟩ := h.retries
  unfold DEFAULT_LOAD_MODEL_RETRIES
  split at sum
  · rename_i running
    have := left running
    omega
  · omega

theorem mayCallView : MayCall modelId s ↔ s.loading = some modelId ∨ (view s.manager modelId).callable = true := by
  rw [MayCall,canModelRetryCallable]

theorem mayCallReset (known : modelId ∈ modelIds) : MayCall modelId (afterReset modelIds s) ↔
    s.loading = some modelId ∨ ({view s.manager modelId with
      retries := (view s.manager modelId).retries.map (fun _ => DEFAULT_LOAD_MODEL_RETRIES)} : View).callable = true := by
  rw [mayCallView,afterReset,resetView known]

theorem checkStep [∀ d, Scalar (V d)] {text : JsonText} {name : String} (known : modelId ∈ modelIds) (h : Counts modelId s)
    (good : Obeys modelIds modelId s) (taken : step text modelIds modelId s (.check name) = some next) :
    Counts modelId next ∧ Obeys modelIds modelId next := by
  simp only [step] at taken
  split at taken
  · contradiction
  rename_i idle
  obtain ⟨updated,flag⟩ := h.flag
  have same : view (s.manager.canModelRetry name).1 modelId = view s.manager modelId :=
    canModelRetryView modelId (by rw [flag]; rfl)
  obtain ⟨r,retries,sum,_⟩ := h.retries
  rw [if_neg (by simp [idle])] at sum
  split at taken
  · rename_i manager left
    cases taken
    rw [left] at same
    have counts : Counts modelId {s with manager := manager} :=
      ⟨⟨r,same ▸ retries,by simpa [idle] using sum,by simp [idle]⟩,⟨updated,same ▸ flag⟩,by simp [idle]⟩
    refine ⟨counts,countsBounded counts,fun done => ?_,fun refused => ?_⟩
    · have calls := good.afterSuccess done
      rw [mayCallView,mayCallReset known] at calls ⊢
      rwa [same]
    · have calls := good.afterRefusal refused
      rw [mayCallView] at calls ⊢
      rwa [same]
  · rename_i manager left
    cases taken
    rw [left] at same
    have callable : name = modelId → (view s.manager modelId).callable = true := by
      rintro rfl
      rw [← canModelRetryCallable,left]
    have counts : Counts modelId {s with
        manager := manager, loading := some name, calls := if name = modelId then s.calls + 1 else s.calls} := by
      by_cases own : name = modelId
      · have ready := callable own
        simp only [View.callable,Bool.and_eq_true,Bool.not_eq_true',decide_eq_true_eq,retries,Option.getD_some] at ready
        exact ⟨⟨r,same ▸ retries,by simp [own]; omega,fun _ => by omega⟩,⟨updated,same ▸ flag⟩,
          fun _ => same ▸ ready.1⟩
      · exact ⟨⟨r,same ▸ retries,by simpa [own] using sum,by simp [own]⟩,⟨updated,same ▸ flag⟩,by simp [own]⟩
    refine ⟨counts,countsBounded counts,fun done => ?_,fun refused => ?_⟩
    · have calls := good.afterSuccess done
      rw [mayCallView,mayCallReset known] at calls ⊢
      have other : name ≠ modelId := fun own => calls.1 (.inr (callable own))
      simpa [same,idle,other] using calls
    · have calls := good.afterRefusal refused
      rw [mayCallView] at calls ⊢
      have other : name ≠ modelId := fun own => calls (.inr (callable own))
      simpa [same,idle,other] using calls

theorem resetStep [∀ d, Scalar (V d)] {text : JsonText} (known : modelId ∈ modelIds) (h : Counts modelId s)
    (good : Obeys modelIds modelId s) (taken : step text modelIds modelId s .internetSwitchedOn = some next) :
    Counts modelId next ∧ Obeys modelIds modelId next := by
  cases taken
  obtain ⟨r,retries,_,_⟩ := h.retries
  obtain ⟨updated,flag⟩ := h.flag
  have view' := @resetView V modelIds modelId s.manager known
  have counts : Counts modelId {s with manager := internetSwitchedOn modelIds s.manager, calls := 0, refused := false} := by
    refine ⟨⟨3,by rw [view',retries]; rfl,by simp,fun _ => by decide⟩,⟨updated,by rw [view',flag]⟩,fun running => ?_⟩
    rw [view']
    exact h.waiting running
  refine ⟨counts,countsBounded counts,fun done => ?_,by simp⟩
  have calls := (good.afterSuccess done).2
  have here : ¬ MayCall modelId {s with
      manager := internetSwitchedOn modelIds s.manager, calls := 0, refused := false} := calls
  refine ⟨here,?_⟩
  rw [mayCallReset known] at calls ⊢
  rw [view',Option.map_map]
  exact calls

theorem otherLoadStep [∀ d, Scalar (V d)] {text : JsonText} {name : String} {answers : PlanAnswers}
    {manager : ResourceManager V} {ret : Int} (known : modelId ∈ modelIds) (h : Counts modelId s)
    (good : Obeys modelIds modelId s) (running : s.loading = some name) (other : name ≠ modelId)
    (ran : loadPlan text s.manager name answers = some (manager,.returned ret)) {succeeded refused : Bool}
    (still : succeeded = s.succeeded) (still' : refused = s.refused) :
    Counts modelId ⟨manager.updateModelRetries name,none,s.calls,succeeded,refused⟩ ∧
      Obeys modelIds modelId ⟨manager.updateModelRetries name,none,s.calls,succeeded,refused⟩ := by
  subst still still'
  have same : view (manager.updateModelRetries name) modelId = view s.manager modelId := by
    have loaded := loadPlanView modelId ran
    simp only [other,if_false,decide_false,Bool.and_false,Bool.or_false,Option.map_id_fun'] at loaded
    rw [updateRetriesView]
    rcases loaded with ⟨_,same⟩ | same <;> simp [same,other]
  obtain ⟨r,retries,sum,_⟩ := h.retries
  obtain ⟨updated,flag⟩ := h.flag
  rw [if_neg (by simp [running,other])] at sum
  have counts : Counts modelId ⟨manager.updateModelRetries name,none,s.calls,s.succeeded,s.refused⟩ :=
    ⟨⟨r,same ▸ retries,by simpa using sum,by simp⟩,⟨updated,same ▸ flag⟩,by simp⟩
  refine ⟨counts,countsBounded counts,fun done => ?_,fun refused => ?_⟩
  · have calls := good.afterSuccess done
    rw [mayCallView,mayCallReset known] at calls ⊢
    simpa [same,running,other] using calls
  · have calls := good.afterRefusal refused
    rw [mayCallView] at calls ⊢
    simpa [same,running,other] using calls

theorem ownLoadStep [∀ d, Scalar (V d)] {text : JsonText} {answers : PlanAnswers} {manager : ResourceManager V} {ret : Int}
    (known : modelId ∈ modelIds) (h : Counts modelId s) (good : Obeys modelIds modelId s)
    (running : s.loading = some modelId)
    (ran : loadPlan text s.manager modelId answers = some (manager,.returned ret)) {succeeded refused : Bool}
    (done : succeeded = (s.succeeded || decide (ret = SUCCESS))) (refuses : refused = (s.refused || isRefusal ret)) :
    Counts modelId ⟨manager.updateModelRetries modelId,none,s.calls,succeeded,refused⟩ ∧
      (Obeys modelIds modelId ⟨manager.updateModelRetries modelId,none,s.calls,succeeded,refused⟩ ↔
        Ends (view s.manager modelId) answers (.returned ret)) := by
  have calling : MayCall modelId s := .inl running
  have first : s.succeeded = false := by
    by_contra before
    exact (good.afterSuccess (by simpa using before)).1 calling
  have none : s.refused = false := by
    by_contra before
    exact good.afterRefusal (by simpa using before) calling
  obtain ⟨r,retries,sum,paid⟩ := h.retries
  obtain ⟨updated,flag⟩ := h.flag
  have paid := paid running
  have waiting := h.waiting running
  rw [if_pos running] at sum
  rw [first,Bool.false_or] at done
  rw [none,Bool.false_or] at refuses
  have lower : ((r : Int) - 1) = ((r - 1 : Nat) : Int) := by omega
  generalize view' : view (manager.updateModelRetries modelId) modelId = v
  have after : v.retries = some ((r - 1 : Nat) : Int) ∧ (∃ updated', v.updated = some updated') ∧
      (ret = SUCCESS → v.updated = some true ∧
        v.loaded = ((view s.manager modelId).loaded || decide (answers.version.version ≠ ""))) ∧
      (ret ≠ SUCCESS → (v.loaded && v.updated.getD false) = false) := by
    rw [← view',updateRetriesView]
    rcases loadPlanView modelId ran with ⟨failed,same⟩ | same
    · simp only [same,retries,flag,if_true,Option.map_some,lower,failed,false_implies,true_and]
      exact ⟨⟨updated,rfl⟩,fun _ => flag ▸ waiting⟩
    · simp only [same,retries,flag,if_true,Option.map_some,lower,true_and]
      refine ⟨⟨_,rfl⟩,fun success => by simp [success],fun failed => by simp [failed]⟩
  obtain ⟨retries',flag',success,failure⟩ := after
  have counts : Counts modelId ⟨manager.updateModelRetries modelId,.none,s.calls,succeeded,refused⟩ :=
    ⟨⟨r - 1,view' ▸ retries',by simp; omega,by simp⟩,view' ▸ flag',by simp⟩
  refine ⟨counts,?_⟩
  have calls : ∀ t : Watched V, t = ⟨manager.updateModelRetries modelId,.none,s.calls,succeeded,refused⟩ →
      (MayCall modelId t ↔ v.callable = true) ∧ (MayCall modelId (afterReset modelIds t) ↔
        ({v with retries := v.retries.map (fun _ => DEFAULT_LOAD_MODEL_RETRIES)} : View).callable = true) := by
    rintro t rfl
    rw [mayCallView,mayCallReset known,view']
    simp
  obtain ⟨call,again⟩ := calls _ rfl
  by_cases ok : ret = SUCCESS
  · obtain ⟨set,loaded⟩ := success ok
    have accepts : isRefusal ret = false := by simp [isRefusal,ok]
    have exact' : ({v with retries := v.retries.map (fun _ => DEFAULT_LOAD_MODEL_RETRIES)} : View).callable = true ↔
        ¬ ((view s.manager modelId).loaded = true ∨ answers.version.version ≠ "") := by
      simp [View.callable,set,loaded,retries',DEFAULT_LOAD_MODEL_RETRIES]
    constructor
    · intro obeys
      have no := (obeys.afterSuccess (by rw [done,ok]; rfl)).2
      rw [again,exact',not_not] at no
      exact ⟨fun _ => no,by simp [accepts]⟩
    · intro ends
      have loads := ends.1 ok
      refine ⟨countsBounded counts,fun _ => ⟨?_,?_⟩,by rw [refuses,accepts]; simp⟩
      · rw [call]
        have : v.loaded = true := by simpa [loaded] using loads
        simp [View.callable,set,this]
      · rw [again,exact',not_not]
        exact loads
  · have spent := failure ok
    have exact' : v.callable = true ↔ ¬ (view s.manager modelId).retries = some 1 := by
      simp only [View.callable,spent,retries',retries]
      simp
      omega
    constructor
    · intro obeys
      refine ⟨fun success => absurd success ok,fun refusal => ?_⟩
      have no := obeys.afterRefusal (refuses.trans refusal)
      rwa [call,exact',not_not] at no
    · intro ends
      refine ⟨countsBounded counts,fun success => ?_,fun refusal => ?_⟩
      · rw [done] at success
        exact absurd (of_decide_eq_true success) ok
      · rw [call,exact',not_not]
        exact ends.2 (refuses.symm.trans refusal)

theorem stepObeys [∀ d, Scalar (V d)] {text : JsonText} {a : Action} (known : modelId ∈ modelIds) (h : Counts modelId s)
    (good : Obeys modelIds modelId s) (taken : step text modelIds modelId s a = some next) :
    Counts modelId next ∧ (Obeys modelIds modelId next ↔ LoadEnds text modelId s a) := by
  cases a with
  | check name =>
      obtain ⟨counts,obeys⟩ := checkStep known h good taken
      exact ⟨counts,iff_of_true obeys trivial⟩
  | internetSwitchedOn =>
      obtain ⟨counts,obeys⟩ := resetStep known h good taken
      exact ⟨counts,iff_of_true obeys trivial⟩
  | load answers =>
      simp only [step] at taken
      split at taken
      · contradiction
      rename_i name running
      split at taken
      · rename_i manager ret ran
        cases taken
        by_cases own : name = modelId
        · subst own
          simp only [decide_true,Bool.true_and]
          obtain ⟨counts,obeys⟩ := ownLoadStep known h good running ran rfl rfl
          refine ⟨counts,obeys.trans ⟨fun ends _ r member => ?_,fun guard => guard running _ ran⟩⟩
          rw [ran] at member
          cases member
          exact ends
        · simp only [own,decide_false,Bool.false_and,Bool.or_false]
          obtain ⟨counts,obeys⟩ := otherLoadStep known h good running own ran rfl rfl
          exact ⟨counts,iff_of_true obeys (fun same => absurd (Option.some.inj (running.symm.trans same)) own)⟩
      · contradiction

end Steps

theorem newLookup {β : Type} (value : β) {names : List String} {name : String} (map : StdMap β)
    (known : name ∈ names ∨ map[name]? = some value) :
    (names.foldl (fun map model => map.insert model value) map)[name]? = some value := by
  induction names generalizing map with
  | nil => simpa using known
  | cons first rest ih =>
      refine ih _ ?_
      by_cases same : name = first
      · exact .inr (by simp [same])
      · rw [insertOther same]
        simpa [same] using known

theorem startCounts {modelIds : List String} {modelId : String} (known : modelId ∈ modelIds) (executor : ONNXExecutor V)
    (features : FeatureStoreManager) (device : Device) : Counts modelId (start modelIds executor features device) where
  retries := ⟨3,newLookup DEFAULT_LOAD_MODEL_RETRIES ∅ (.inl known),by simp [start],by simp [start]⟩
  flag := ⟨false,newLookup false ∅ (.inl known)⟩
  waiting := by simp [start]

section Runs
variable [∀ d, Scalar (V d)] {text : JsonText} {modelIds : List String} {modelId : String} {executor : ONNXExecutor V}
  {features : FeatureStoreManager} {device : Device}

theorem obeysIff (known : modelId ∈ modelIds) {actions : List Action} {final : Watched V}
    (ok : run (step text modelIds modelId) (start modelIds executor features device) actions = some final) :
    Always (step text modelIds modelId) (Obeys modelIds modelId) (start modelIds executor features device) actions ↔
      Guarded (step text modelIds modelId) (LoadEnds text modelId) (start modelIds executor features device) actions := by
  have first : Obeys modelIds modelId (start modelIds executor features device) :=
    ⟨countsBounded (startCounts known executor features device),fun done => absurd done Bool.false_ne_true,fun refused => absurd refused Bool.false_ne_true⟩
  exact alwaysIffGuarded (fun _ _ _ counts good taken => stepObeys known counts good taken)
    (startCounts known executor features device) first ok

end Runs

section Ranker

def noModel : ONNXExecutor IntValues := .new 0 ⟨∅,∅⟩

def answered (status : Int) (version : String) : PlanAnswers where
  version := ⟨status,0,version,""⟩
  part := fun _ => ⟨404,[]⟩
  loading := ⟨⟨false,fun _ => false,fun _ _ => false⟩,fun _ => ⟨fun _ _ _ => 0,fun _ _ => 0⟩,fun _ _ => ⟨[],true⟩⟩

def unread : JsonText := ⟨fun _ => [],fun _ => none⟩

theorem obeysUnreached : ∃ final : Watched IntValues,
    Always (step unread ["ranker"] "ranker") (Obeys ["ranker"] "ranker") (start ["ranker"] noModel ∅ ∅)
      [.check "ranker",.load (answered (-1) ""),.check "ranker",.load (answered (-1) ""),.internetSwitchedOn,
        .check "ranker",.load (answered (-1) "")] ∧ final.calls = 1 := by
  obtain ⟨final,ok,calls⟩ : ∃ final, run (step unread ["ranker"] "ranker")
      (start ["ranker"] noModel ∅ ∅) [.check "ranker",.load (answered (-1) ""),.check "ranker",.load (answered (-1) ""),
        .internetSwitchedOn,.check "ranker",.load (answered (-1) "")] = some final ∧ final.calls = 1 :=
    ⟨_,rfl,by decide +kernel⟩
  exact ⟨final,(obeysIff (by decide) ok).mpr (by decide +kernel),calls⟩

theorem refusedAskedAgain : ¬ ∀ (text : JsonText) (modelIds : List String) (modelId : String)
    (executor : ONNXExecutor IntValues) (features : FeatureStoreManager) (device : Device) (actions : List Action)
    (final : Watched IntValues), modelId ∈ modelIds →
    run (step text modelIds modelId) (start modelIds executor features device) actions = some final →
      Always (step text modelIds modelId) (Obeys modelIds modelId) (start modelIds executor features device) actions := by
  intro claim
  obtain ⟨final,ok,refused⟩ : ∃ final, run (step unread ["ranker"] "ranker")
      (start ["ranker"] noModel ∅ ∅) [.check "ranker",.load (answered 404 "")] = some final ∧
      (final.refused = true ∧ (final.manager.canModelRetry "ranker").2 = true) := ⟨_,rfl,by decide +kernel⟩
  have always := claim unread ["ranker"] "ranker" noModel ∅ ∅ _ final (by decide) ok
  exact (alwaysEnd always ok).afterRefusal refused.1 (.inr refused.2)

end Ranker
end NimbleNet.ModelRetries
