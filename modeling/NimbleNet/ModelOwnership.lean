import NimbleNet.ONNXExecutor
import NimbleNet.OrderedMap
import NimbleNet.StepRuns

/-! Calls of get_inference, load_plan and get_inputs_for_inferId on one executor, step
by step in any order. A call looks its model up, clears the output tensors, runs
the body under the lock, and saves what it collected; load_plan builds the new
instance and then replaces the old one. -/
namespace NimbleNet.ModelOwnership
open ONNXExecutor StepRuns

variable {V : ElementType → Type}

inductive Phase (V : ElementType → Type) where
  | entered
  | cleared
  | collected (inputs : List (ONNXPreProcessorInput V))

def Phase.onModel : Phase V → Bool
  | .collected _ => false
  | _ => true

def Phase.inputs : Phase V → List (ONNXPreProcessorInput V)
  | .collected inputs => inputs
  | _ => []

structure Running (V : ElementType → Type) where
  number : Nat
  inferId : String
  this : Nat
  phase : Phase V

/- `loading`: the instances that are built and not yet in modelMap, each held by the
load_plan that built it. -/
structure Executing (V : ElementType → Type) where
  executor : ONNXExecutor V
  loading : List (String × Nat)
  running : List (Running V)

inductive Action (V : ElementType → Type) where
  | enter (number : Nat) (inferId modelId : String)
  | clear (number : Nat)
  | body (c : ONNXModel.Call)
  | save (number : Nat)
  | buildModel (l : ONNXModel.Loading) (modelId : String) (planData : PlanData)
  | replaceModel (modelId : String) (address : Nat)
  | getInputsForInferId (inferId : String)
  | userEvents (manager : UserEventsManager V)

namespace Executing

def start (maxInputsToSave : Nat) (manager : UserEventsManager V) : Executing V := ⟨.new maxInputsToSave manager,[],[]⟩

def call (s : Executing V) (number : Nat) : Option (Running V) := s.running.find? (fun r => r.number == number)

def others (s : Executing V) (number : Nat) : List (Running V) := s.running.filter (fun r => r.number != number)

end Executing

section Steps
variable [∀ d, Scalar (V d)] (parse : String → Option Json)

def step (s : Executing V) : Action V → Option (Executing V)
  | .enter number inferId modelId =>
      if (s.call number).isSome then none
      else
        match s.executor.modelMap[modelId]? with
        | none => some s
        | some address => some {s with running := ⟨number,inferId,address,.entered⟩ :: s.running}
  | .clear number => do
      let r ← s.call number
      let .entered := r.phase | none
      let m ← s.executor.instanceAt r.this
      let cleared := s.executor.instances.set r.this (some (ONNXModel.clearOutputTensors m))
      some {s with
        executor := {s.executor with instances := cleared},
        running := {r with phase := .cleared} :: s.others number}
  | .body c => do
      let r ← s.call c.number
      let .cleared := r.phase | none
      let m ← s.executor.instanceAt r.this
      let result ← ONNXModel.inferenceBody {c with this := r.this} ⟨m,s.executor.manager,[],[]⟩
      let executor := s.executor.afterBody r.this result
      match result.exit with
      | .threw => some {s with executor := executor, running := s.others c.number}
      | .returned _ => some {s with
          executor := executor,
          running := {r with phase := .collected result.frame.preprocessorInputsToFill} :: s.others c.number}
  | .save number => do
      let r ← s.call number
      let .collected inputs := r.phase | none
      some {s with executor := s.executor.saveInputs r.inferId inputs, running := s.others number}
  | .buildModel l modelId planData => do
      match ← ONNXExecutor.buildModel parse l s.executor modelId planData with
      | (executor,none) => some {s with executor := executor}
      | (executor,some address) => some {s with executor := executor, loading := (modelId,address) :: s.loading}
  | .replaceModel modelId address =>
      if (modelId,address) ∈ s.loading then
        some {s with
          executor := s.executor.replaceModel modelId address,
          loading := s.loading.filter (fun p => p.2 != address)}
      else none
  | .getInputsForInferId inferId => (s.executor.getInputsForInferId inferId).map (fun _ => s)
  | .userEvents manager => some {s with executor.manager := manager}

end Steps

def Running.runsOn (r : Running V) (address : Nat) : Prop := r.this = address ∧ r.phase.onModel = true

def Referred (s : Executing V) (address : Nat) : Prop :=
  (∃ r ∈ s.running, r.runsOn address) ∨ ∃ entry ∈ s.executor.inferenceDataBase.kept, entry.tensorInfoPtr.model = address

def Owned (s : Executing V) (address : Nat) : Prop :=
  (∃ modelId : String, s.executor.modelMap[modelId]? = some address) ∨ ∃ modelId, (modelId,address) ∈ s.loading

def AllOwned (s : Executing V) : Prop := ∀ address, Referred s address → Owned s address

instance (s : Executing V) (address : Nat) : Decidable (Owned s address) :=
  decidable_of_iff ((∃ p ∈ s.executor.modelMap.toList, p.2 = address) ∨ ∃ p ∈ s.loading, p.2 = address) (by
    simp only [Owned,Prod.exists,Std.ExtTreeMap.mem_toList_iff_getElem?_eq_some,exists_eq_right])

instance (s : Executing V) (address : Nat) : Decidable (Referred s address) := by
  unfold Referred Running.runsOn
  infer_instance

/- The condition on a step: a replaced instance is not referred to, and what a call
saves is about an instance that is still owned. -/
def KeepsOwned (s : Executing V) : Action V → Prop
  | .replaceModel modelId _ => ∀ old ∈ s.executor.modelMap[modelId]?, ¬ Referred s old
  | .save number => ∀ r ∈ s.call number, 0 < s.executor.inferenceDataBase.maxInferencesSaved →
      ∀ entry ∈ r.phase.inputs, Owned s entry.tensorInfoPtr.model
  | _ => True

instance (s : Executing V) (a : Action V) : Decidable (KeepsOwned s a) := by
  cases a <;> simp only [KeepsOwned] <;> infer_instance

structure Owners (s : Executing V) : Prop where
  one : ∀ (m m' : String) (a : Nat), s.executor.modelMap[m]? = some a → s.executor.modelMap[m']? = some a → m = m'
  apart : ∀ p ∈ s.loading, ∀ m : String, s.executor.modelMap[m]? ≠ some p.2
  mapped : ∀ (m : String) (a : Nat), s.executor.modelMap[m]? = some a → a < s.executor.instances.length
  built : ∀ p ∈ s.loading, p.2 < s.executor.instances.length
  ring : s.executor.inferenceDataBase.IsRing

structure SameOwners (s next : Executing V) : Prop where
  modelMap : next.executor.modelMap = s.executor.modelMap
  database : next.executor.inferenceDataBase = s.executor.inferenceDataBase
  loading : next.loading = s.loading
  size : next.executor.instances.length = s.executor.instances.length

theorem sameOwners {s next : Executing V} (same : SameOwners s next) (h : Owners s) : Owners next := by
  refine ⟨?_,?_,?_,?_,?_⟩
  · rw [same.modelMap]
    exact h.one
  · rw [same.modelMap,same.loading]
    exact h.apart
  · rw [same.modelMap,same.size]
    exact h.mapped
  · rw [same.loading,same.size]
    exact h.built
  · rw [same.database]
    exact h.ring

theorem sameOwned {s next : Executing V} (same : SameOwners s next) (address : Nat) :
    Owned next address ↔ Owned s address := by rw [Owned,Owned,same.modelMap,same.loading]

theorem fewerReferences {s next : Executing V} (same : SameOwners s next)
    (runs : ∀ r ∈ next.running, ∀ address, r.runsOn address → ∃ r' ∈ s.running, r'.runsOn address)
    (good : AllOwned s) : AllOwned next := by
  intro address referred
  rw [sameOwned same]
  rcases referred with ⟨r,member,here⟩ | kept
  · exact good address (.inl (runs r member address here))
  · rw [same.database] at kept
    exact good address (.inr kept)

theorem callMember {s : Executing V} {number : Nat} {r : Running V} (found : s.call number = some r) : r ∈ s.running :=
  List.mem_of_find?_eq_some found

theorem otherMember {s : Executing V} {number : Nat} {r : Running V} (other : r ∈ s.others number) : r ∈ s.running :=
  List.mem_of_mem_filter other

section Preserved
variable [∀ d, Scalar (V d)] {parse : String → Option Json}

theorem enterStep {s next : Executing V} {number : Nat} {inferId modelId : String} (h : Owners s)
    (good : AllOwned s) (taken : step parse s (.enter number inferId modelId) = some next) :
    Owners next ∧ AllOwned next := by
  simp only [step] at taken
  split at taken <;> try contradiction
  split at taken
  · cases taken
    exact ⟨h,good⟩
  · rename_i address found
    cases taken
    refine ⟨⟨h.one,h.apart,h.mapped,h.built,h.ring⟩,?_⟩
    rintro a (⟨r,member,here⟩ | kept)
    · rcases List.mem_cons.mp member with rfl | old
      · exact .inl ⟨modelId,here.1 ▸ found⟩
      · exact good a (.inl ⟨r,old,here⟩)
    · exact good a (.inr kept)

theorem clearStep {s next : Executing V} {number : Nat} (h : Owners s) (good : AllOwned s)
    (taken : step parse s (.clear number) = some next) : Owners next ∧ AllOwned next := by
  simp only [step,bind,Option.bind_eq_some_iff] at taken
  obtain ⟨r,found,taken⟩ := taken
  split at taken <;> try contradiction
  rename_i phase
  obtain ⟨m,_,taken⟩ := Option.bind_eq_some_iff.mp taken
  cases taken
  have same : SameOwners s {s with
      executor := {s.executor with
        instances := s.executor.instances.set r.this (some (ONNXModel.clearOutputTensors m))},
      running := {r with phase := .cleared} :: s.others number} := ⟨rfl,rfl,rfl,List.length_set⟩
  refine ⟨sameOwners same h,fewerReferences same ?_ good⟩
  intro r' member address here
  rcases List.mem_cons.mp member with rfl | other
  · exact ⟨r,callMember found,here.1,by rw [phase]; rfl⟩
  · exact ⟨r',otherMember other,here⟩

theorem bodyStep {s next : Executing V} {c : ONNXModel.Call} (h : Owners s) (good : AllOwned s)
    (taken : step parse s (.body c) = some next) : Owners next ∧ AllOwned next := by
  simp only [step,bind,Option.bind_eq_some_iff] at taken
  obtain ⟨r,found,taken⟩ := taken
  split at taken <;> try contradiction
  rename_i phase
  obtain ⟨m,_,taken⟩ := Option.bind_eq_some_iff.mp taken
  obtain ⟨result,_,taken⟩ := Option.bind_eq_some_iff.mp taken
  have others : ∀ r' ∈ s.others c.number, ∀ address, r'.runsOn address → ∃ r' ∈ s.running, r'.runsOn address :=
    fun r' other address here => ⟨r',otherMember other,here⟩
  split at taken
  · cases taken
    have same : SameOwners s {s with
        executor := s.executor.afterBody r.this result,
        running := s.others c.number} := ⟨rfl,rfl,rfl,List.length_set⟩
    exact ⟨sameOwners same h,fewerReferences same others good⟩
  · cases taken
    have same : SameOwners s {s with
        executor := s.executor.afterBody r.this result,
        running := {r with phase := .collected result.frame.preprocessorInputsToFill} :: s.others c.number} :=
      ⟨rfl,rfl,rfl,List.length_set⟩
    refine ⟨sameOwners same h,fewerReferences same ?_ good⟩
    intro r' member address here
    rcases List.mem_cons.mp member with rfl | other
    · cases here.2
    · exact others r' other address here

theorem buildStep {s next : Executing V} {l : ONNXModel.Loading} {modelId : String} {planData : PlanData}
    (h : Owners s) (good : AllOwned s) (taken : step parse s (.buildModel l modelId planData) = some next) :
    Owners next ∧ AllOwned next := by
  simp only [step,bind,Option.bind_eq_some_iff] at taken
  obtain ⟨⟨executor,address⟩,built,taken⟩ := taken
  unfold ONNXExecutor.buildModel at built
  split at built
  · cases built
    cases taken
    exact ⟨h,good⟩
  · split at built
    · contradiction
    · cases built
      cases taken
      exact ⟨⟨h.one,h.apart,h.mapped,h.built,h.ring⟩,good⟩
    · cases built
      cases taken
      refine ⟨⟨h.one,?_,?_,?_,h.ring⟩,?_⟩
      · intro p member m mapped
        rcases List.mem_cons.mp member with rfl | old
        · exact (h.mapped m _ mapped).false
        · exact h.apart p old m mapped
      · intro m a mapped
        have := h.mapped m a mapped
        simp only [List.length_append,List.length_singleton]
        omega
      · intro p member
        simp only [List.length_append,List.length_singleton]
        rcases List.mem_cons.mp member with rfl | old
        · exact Nat.lt_succ_self _
        · exact (h.built p old).trans (Nat.lt_succ_self _)
      · intro a referred
        rcases good a referred with mapped | ⟨m,waiting⟩
        · exact .inl mapped
        · exact .inr ⟨m,List.mem_cons_of_mem _ waiting⟩

theorem replaceStep {s next : Executing V} {modelId : String} {address : Nat} (h : Owners s) (good : AllOwned s)
    (taken : step parse s (.replaceModel modelId address) = some next) :
    Owners next ∧ (AllOwned next ↔ KeepsOwned s (.replaceModel modelId address)) := by
  simp only [step] at taken
  split at taken <;> try contradiction
  rename_i waiting
  cases taken
  have size : (s.executor.replaceModel modelId address).instances.length = s.executor.instances.length := by
    unfold replaceModel
    split <;> simp
  have stays : ∀ p ∈ s.loading.filter (fun p => p.2 != address), p ∈ s.loading ∧ p.2 ≠ address := by
    simp
  refine ⟨⟨?_,?_,?_,?_,h.ring⟩,?_⟩
  · intro m m' a mapped mapped'
    rcases OrderedMap.insertFound mapped with ⟨rfl,rfl⟩ | ⟨other,old⟩ <;>
      rcases OrderedMap.insertFound mapped' with ⟨rfl,same⟩ | ⟨other',old'⟩
    · rfl
    · exact absurd old' (h.apart _ waiting m')
    · exact absurd (same ▸ old) (h.apart _ waiting m)
    · exact h.one m m' a old old'
  · intro p member m mapped
    rcases OrderedMap.insertFound mapped with ⟨rfl,same⟩ | ⟨other,old⟩
    · exact (stays p member).2 same
    · exact h.apart p (stays p member).1 m old
  · intro m a mapped
    rw [size]
    rcases OrderedMap.insertFound mapped with ⟨rfl,rfl⟩ | ⟨other,old⟩
    · exact h.built _ waiting
    · exact h.mapped m a old
  · intro p member
    rw [size]
    exact h.built p (stays p member).1
  · constructor
    · intro after old mapped referred
      rcases after old referred with ⟨m,owner⟩ | ⟨m,owner⟩
      · rcases OrderedMap.insertFound owner with ⟨rfl,rfl⟩ | ⟨other,owner⟩
        · exact h.apart _ waiting m mapped
        · exact other (h.one m modelId old owner mapped)
      · exact h.apart _ (stays _ owner).1 modelId mapped
    · intro free a referred
      have referred' : Referred s a := referred
      rcases good a referred' with ⟨m,mapped⟩ | ⟨m,held⟩
      · have other : m ≠ modelId := by
          rintro rfl
          exact free a mapped referred'
        refine .inl ⟨m,?_⟩
        change (s.executor.modelMap.insert modelId address)[m]? = some a
        rwa [OrderedMap.insertOther other]
      · by_cases same : a = address
        · exact .inl ⟨modelId,by simp [replaceModel,same]⟩
        · exact .inr ⟨m,by simp [held,same]⟩

theorem saveStep {s next : Executing V} {number : Nat} (h : Owners s) (good : AllOwned s)
    (taken : step parse s (.save number) = some next) :
    Owners next ∧ (AllOwned next ↔ KeepsOwned s (.save number)) := by
  simp only [step,bind,Option.bind_eq_some_iff] at taken
  obtain ⟨r,found,taken⟩ := taken
  split at taken <;> try contradiction
  rename_i inputs phase
  cases taken
  refine ⟨⟨h.one,h.apart,h.mapped,h.built,InferenceInputsDatabase.addRing h.ring⟩,?_⟩
  simp only [KeepsOwned,found,Option.mem_some_iff,forall_eq',phase,Phase.inputs]
  constructor
  · intro after some entry member
    exact after _ (.inr ⟨entry,InferenceInputsDatabase.addKeeps h.ring some member,rfl⟩)
  · rintro owned address (⟨r',member,here⟩ | ⟨entry,member,rfl⟩)
    · exact good address (.inl ⟨r',otherMember member,here⟩)
    · rcases InferenceInputsDatabase.keptAfterAdd member with old | ⟨some,new⟩
      · exact good _ (.inr ⟨entry,old,rfl⟩)
      · exact owned some entry new

theorem stepOwned {s next : Executing V} {a : Action V} (h : Owners s) (good : AllOwned s)
    (taken : step parse s a = some next) : Owners next ∧ (AllOwned next ↔ KeepsOwned s a) := by
  have always {P Q : Prop} (both : P ∧ Q) : P ∧ (Q ↔ True) := ⟨both.1,iff_of_true both.2 trivial⟩
  cases a with
  | enter number inferId modelId => exact always (enterStep h good taken)
  | clear number => exact always (clearStep h good taken)
  | body c => exact always (bodyStep h good taken)
  | save number => exact saveStep h good taken
  | buildModel l modelId planData => exact always (buildStep h good taken)
  | replaceModel modelId address => exact replaceStep h good taken
  | getInputsForInferId inferId =>
      obtain ⟨_,_,rfl⟩ := Option.map_eq_some_iff.mp taken
      exact always ⟨h,good⟩
  | userEvents manager =>
      cases taken
      exact always ⟨⟨h.one,h.apart,h.mapped,h.built,h.ring⟩,good⟩

end Preserved

theorem startOwners (maxInputsToSave : Nat) (manager : UserEventsManager V) :
    Owners (.start maxInputsToSave manager : Executing V) :=
  ⟨by simp [Executing.start,ONNXExecutor.new],by simp [Executing.start],by simp [Executing.start,ONNXExecutor.new],
    by simp [Executing.start],InferenceInputsDatabase.newRing maxInputsToSave⟩

theorem startOwned (maxInputsToSave : Nat) (manager : UserEventsManager V) :
    AllOwned (.start maxInputsToSave manager : Executing V) := by
  rintro address (⟨r,member,_⟩ | ⟨entry,member,_⟩)
  · cases member
  · simp [Executing.start,ONNXExecutor.new,InferenceInputsDatabase.new,InferenceInputsDatabase.kept] at member

theorem allOwnedIff [∀ d, Scalar (V d)] {parse : String → Option Json} {maxInputsToSave : Nat}
    {manager : UserEventsManager V} {actions : List (Action V)} {final : Executing V}
    (ok : run (step parse) (.start maxInputsToSave manager) actions = some final) :
    Always (step parse) AllOwned (.start maxInputsToSave manager) actions ↔
      Guarded (step parse) KeepsOwned (.start maxInputsToSave manager) actions :=
  alwaysIffGuarded (fun _ _ _ => stepOwned) (startOwners maxInputsToSave manager)
    (startOwned maxInputsToSave manager) ok

section Ranker

def orders : TableInfo := ⟨"orders",.ofList [("amount","INT"),("user","TEXT")],60⟩

def ordersOnly : UserEventsManager IntValues := ⟨.ofList [("orders",TableStore.new orders)],∅⟩

def totalsJson : Json :=
  .object [("rollingWindowsInSecs",.array [.integer 10]),
    ("operations",.array [.object [("columnName",.string "amount"),("operator",.string "Sum"),("default",.integer 0)]]),
    ("tableName",.string "orders"),("groupBy",.array [.string "user"])]

def rankerJson : Json :=
  .object [("inputs",.array [.object [("name",.string "totals"),("dataType",.integer 6),("processor",totalsJson),
      ("shape",.array [.integer 1,.integer 1])]]),
    ("outputs",.array []),
    ("inputsToProcessors",.array [.object [("name",.string "users"),("inputNames",.array [.string "totals"])]])]

def rankerParse (_ : String) : Option Json := some rankerJson

def rankerLoading : ONNXModel.Loading :=
  ⟨⟨true,fun _ => true,fun _ _ => true⟩,fun _ => ⟨fun _ _ _ => 0,fun _ _ => 0⟩,fun _ _ => ⟨[],true⟩⟩

def rankerPlan (version : String) : PlanData := ⟨true,version,[],"",0⟩

def userNamed (name : String) : List (String × String) := [("user",name)]

def rankerCall (number : Nat) (names : List String) : ONNXModel.Call :=
  ⟨number,0,[⟨"users",666,names.length,names.map userNamed⟩],fun _ => none,fun _ _ _ => 0,rankerLoading.runtime⟩

def rankerInference (number : Nat) (names : List String) : List (Action IntValues) :=
  [.enter number "first" "ranker",.clear number,.body (rankerCall number names),.save number]

def rankerLoad (version : String) (address : Nat) : List (Action IntValues) :=
  [.buildModel rankerLoading "ranker" (rankerPlan version),.replaceModel "ranker" address]

def served : List (Action IntValues) := rankerLoad "1.0.0" 0 ++ rankerInference 0 ["ann"]

theorem ownedWhileServed : ∃ final, run (step rankerParse) (.start 1 ordersOnly) served = some final ∧
    Always (step rankerParse) AllOwned (.start 1 ordersOnly) served := by
  have guarded : Guarded (step rankerParse) KeepsOwned (.start 1 ordersOnly) served := by decide +kernel
  have runs : (run (step rankerParse) (.start 1 ordersOnly) served).isSome = true := by decide +kernel
  obtain ⟨final,ran⟩ := Option.isSome_iff_exists.mp runs
  exact ⟨final,ran,(allOwnedIff ran).mpr guarded⟩

theorem savedInputOutlivesModel : ¬ ∀ (parse : String → Option Json) (maxInputsToSave : Nat)
    (manager : UserEventsManager IntValues) (actions : List (Action IntValues)) (final : Executing IntValues),
    run (step parse) (.start maxInputsToSave manager) actions = some final →
      Always (step parse) AllOwned (.start maxInputsToSave manager) actions := by
  intro claim
  have runs : (run (step rankerParse) (.start 1 ordersOnly) (served ++ rankerLoad "2.0.0" 1)).isSome = true := by
    decide +kernel
  obtain ⟨final,ran⟩ := Option.isSome_iff_exists.mp runs
  have always := claim rankerParse 1 ordersOnly (served ++ rankerLoad "2.0.0" 1) final ran
  have good : AllOwned final := alwaysEnd always ran
  have dangling : (run (step rankerParse) (.start 1 ordersOnly) (served ++ rankerLoad "2.0.0" 1)).map
      (fun s => decide (Referred s 0 ∧ ¬ Owned s 0)) = some true := by decide +kernel
  simp only [ran,Option.map_some,Option.some.injEq,decide_eq_true_eq] at dangling
  exact dangling.2 (good 0 dangling.1)

/- Asking for it then reads the destroyed instance. -/
example : (run (step rankerParse) (.start 1 ordersOnly)
    (served ++ rankerLoad "2.0.0" 1 ++ [.getInputsForInferId "first"])).isNone = true := by decide +kernel

end Ranker
end NimbleNet.ModelOwnership
