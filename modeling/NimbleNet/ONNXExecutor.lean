import NimbleNet.ONNXModel
import NimbleNet.ResourceManagerStructs

/-! The executor: the models by name, the ring of saved preprocessor inputs, and the
instances on the heap. An instance is known by its address; it is `none` once it is
destroyed, and no defined behaviour is left in a step that then reads it. -/
namespace NimbleNet
open MachineNumbers

structure InferenceInputsDatabase (V : ElementType → Type) where
  preprocessorInputsForInferIds : List (List (ONNXPreProcessorInput V))
  inferIds : List String
  overWriteInferenceIndex : Nat
  maxInferencesSaved : Nat

namespace InferenceInputsDatabase
variable {V : ElementType → Type}

def new (maxInferencesSaved : Nat) : InferenceInputsDatabase V :=
  ⟨List.replicate maxInferencesSaved [],List.replicate maxInferencesSaved "",0,maxInferencesSaved⟩

def addInputForInferId (db : InferenceInputsDatabase V) (inferId : String)
    (preprocessorInputs : List (ONNXPreProcessorInput V)) : InferenceInputsDatabase V :=
  if db.maxInferencesSaved = 0 then db
  else {db with
    preprocessorInputsForInferIds := db.preprocessorInputsForInferIds.set db.overWriteInferenceIndex preprocessorInputs,
    inferIds := db.inferIds.set db.overWriteInferenceIndex inferId,
    overWriteInferenceIndex := (db.overWriteInferenceIndex + 1) % db.maxInferencesSaved}

def kept (db : InferenceInputsDatabase V) : List (ONNXPreProcessorInput V) := db.preprocessorInputsForInferIds.flatten

structure IsRing (db : InferenceInputsDatabase V) : Prop where
  slots : db.preprocessorInputsForInferIds.length = db.maxInferencesSaved
  inside : 0 < db.maxInferencesSaved → db.overWriteInferenceIndex < db.maxInferencesSaved

theorem newRing (maxInferencesSaved : Nat) : (new maxInferencesSaved : InferenceInputsDatabase V).IsRing :=
  ⟨List.length_replicate,fun some => some⟩

variable {db : InferenceInputsDatabase V} {inferId : String} {inputs : List (ONNXPreProcessorInput V)}

theorem addRing (h : db.IsRing) : (db.addInputForInferId inferId inputs).IsRing := by
  unfold addInputForInferId
  split
  · exact h
  · exact ⟨List.length_set.trans h.slots,fun some => Nat.mod_lt _ some⟩

theorem keptAfterAdd {entry : ONNXPreProcessorInput V} (member : entry ∈ (db.addInputForInferId inferId inputs).kept) :
    entry ∈ db.kept ∨ (0 < db.maxInferencesSaved ∧ entry ∈ inputs) := by
  unfold addInputForInferId at member
  split at member
  · exact .inl member
  · rename_i some
    obtain ⟨slot,there,inside⟩ := List.mem_flatten.mp member
    rcases List.mem_or_eq_of_mem_set there with old | rfl
    · exact .inl (List.mem_flatten.mpr ⟨slot,old,inside⟩)
    · exact .inr ⟨Nat.pos_of_ne_zero some,inside⟩

theorem addKeeps (h : db.IsRing) (some : 0 < db.maxInferencesSaved) {entry : ONNXPreProcessorInput V}
    (member : entry ∈ inputs) : entry ∈ (db.addInputForInferId inferId inputs).kept := by
  rw [addInputForInferId,if_neg some.ne']
  have inside : db.overWriteInferenceIndex < db.preprocessorInputsForInferIds.length := h.slots ▸ h.inside some
  exact List.mem_flatten.mpr ⟨inputs,List.mem_set inside _,member⟩

end InferenceInputsDatabase

structure ONNXExecutor (V : ElementType → Type) where
  modelMap : StdMap Nat
  instances : List (Option ONNXModel)
  inferenceDataBase : InferenceInputsDatabase V
  manager : UserEventsManager V

structure SavedInput (V : ElementType → Type) where
  name : String
  dataType : Int
  shape : List Int
  length : Int
  modelInput : AnyModelInput V
  bytes : Int

namespace ONNXExecutor
variable {V : ElementType → Type}

def new (maxInputsToSave : Nat) (manager : UserEventsManager V) : ONNXExecutor V :=
  ⟨∅,[],.new maxInputsToSave,manager⟩

def instanceAt (s : ONNXExecutor V) (address : Nat) : Option ONNXModel := s.instances[address]?.join

def tensorInfo (s : ONNXExecutor V) (ptr : TensorInfoPtr) : Option TensorInfo :=
  (s.instanceAt ptr.model).bind (·.info.inputs[ptr.input]?)

section SavedInputs

def sizeOfElement : ElementType → Nat
  | .float => 4
  | .double => 8
  | .int64 => 8
  | .int32 => 4

/- One pass of populate_preprocessors_input_in_return_object; an unsupported type
ends the loop with false. -/
def populateInput (s : ONNXExecutor V) (saved : List (SavedInput V)) (entry : ONNXPreProcessorInput V) :
    Flow (List (SavedInput V)) Unit :=
  match s.tensorInfo entry.tensorInfoPtr with
  | none => .undefined
  | some t =>
      let fieldSize := ONNXModel.getFieldSizeFromDataType t.dataType
      let bytes := wrap32 (t.size * fieldSize)
      if fieldSize = 0 then .leave saved ()
      else if 0 ≤ bytes ∧ bytes ≤ entry.modelInput.input.data.length * sizeOfElement entry.modelInput.elementType then
        .proceed (saved ++ [⟨t.name,t.dataType,t.shape.map wrap32,t.size,entry.modelInput,bytes⟩])
      else .undefined

def populateReturn (s : ONNXExecutor V) (entries : List (ONNXPreProcessorInput V)) :
    Option (List (SavedInput V) × Bool) :=
  match Flow.loop s.populateInput [] entries with
  | .undefined => none
  | .leave saved _ => some (saved,false)
  | .proceed saved => some (saved,true)

def getInputsForInferId (s : ONNXExecutor V) (inferId : String) : Option (List (SavedInput V) × Bool) :=
  match s.inferenceDataBase.inferIds.idxOf? inferId with
  | none => some ([],false)
  | some i => s.populateReturn (s.inferenceDataBase.preprocessorInputsForInferIds.getD i [])

end SavedInputs

section LoadPlan
variable [∀ d, Scalar (V d)] (parse : String → Option Json) (l : ONNXModel.Loading)

/- The first half of load_plan: the new instance is built, and held by the call
alone. `none` inside: load_plan returns false. -/
def buildModel (s : ONNXExecutor V) (modelId : String) (planData : PlanData) : Option (ONNXExecutor V × Option Nat) :=
  match (parse planData.extraFields).bind ONNXModelInfo.fromJson with
  | none => some (s,none)
  | some info =>
      match ONNXModel.construct l modelId planData.version info s.manager with
      | none => none
      | some (manager,none) => some ({s with manager := manager},none)
      | some (manager,some model) =>
          some ({s with manager := manager, instances := s.instances ++ [some model]},some s.instances.length)

/- `modelMap[modelId] = newModel`: the instance that was there is destroyed, for no one
else owns it. -/
def replaceModel (s : ONNXExecutor V) (modelId : String) (address : Nat) : ONNXExecutor V :=
  {s with
    modelMap := s.modelMap.insert modelId address,
    instances := match s.modelMap[modelId]? with
      | none => s.instances
      | some old => s.instances.set old none}

def loadPlan (s : ONNXExecutor V) (modelId : String) (planData : PlanData) : Option (ONNXExecutor V × Bool) := do
  match ← buildModel parse l s modelId planData with
  | (s',none) => some (s',false)
  | (s',some address) => some (s'.replaceModel modelId address,true)

end LoadPlan

section GetInference
variable [∀ d, Scalar (V d)]

def afterBody (s : ONNXExecutor V) (address : Nat) (r : ONNXModel.InferenceResult V) : ONNXExecutor V :=
  {s with manager := r.frame.manager, instances := s.instances.set address (some r.frame.model)}

def saveInputs (s : ONNXExecutor V) (inferId : String) (inputs : List (ONNXPreProcessorInput V)) : ONNXExecutor V :=
  {s with inferenceDataBase := s.inferenceDataBase.addInputForInferId inferId inputs}

/- `c.this` is the address that modelMap gives. What was collected is saved whatever
status comes back; an exception passes the save by. -/
def getInference (s : ONNXExecutor V) (c : Nat → ONNXModel.Call) (inferId modelId : String) :
    Option (ONNXExecutor V × Exit) :=
  match s.modelMap[modelId]? with
  | none => some (s,.returned TERMINAL_ERROR)
  | some address => do
      let m ← s.instanceAt address
      let r ← ONNXModel.getInference (c address) m s.manager
      let s' := s.afterBody address r
      match r.exit with
      | .threw => some (s',r.exit)
      | .returned _ => some (s'.saveInputs inferId r.frame.preprocessorInputsToFill,r.exit)

end GetInference

end ONNXExecutor
end NimbleNet
