import NimbleNet.EarlyReturn
import NimbleNet.ONNXExecutorStructs
import NimbleNet.UserEventsManager

/-! One instance of a model: its constructor and get_inference. The ONNX runtime is
an argument: whether it accepts the session and each tensor, and whether Run
succeeds. A buffer stands for the memory a tensor points to, with the call that
supplied or allocated it. Logging and the read locks are not modelled. -/
namespace NimbleNet
open MachineNumbers

inductive Buffer where
  | client (call input : Nat)
  | feature (call : Nat) (name : String)
  | preprocessed (call position : Nat)
  | output (call output : Nat)
  | dummyInput (input : Nat)
  | dummyOutput (output : Nat)
  deriving DecidableEq, Repr

structure OrtValue where
  data : Buffer
  byteLength : Int
  shape : List Int
  dataType : Int
  deriving DecidableEq, Repr

structure Runtime where
  createsSession : Bool
  createsTensor : OrtValue → Bool
  runs : List (Option OrtValue) → List OrtValue → Bool

-- `Ort::Value(nullptr)` is none.
structure ONNXModel where
  modelId : String
  version : String
  info : ONNXModelInfo
  inputTensors : List (Option OrtValue)
  outputTensors : List OrtValue
  inputNamesToIdMap : StdMap Nat

inductive Exit where
  | returned (status : Int)
  | threw
  deriving DecidableEq, Repr

namespace ONNXModel

def getFieldSizeFromDataType (dataType : Int) : Int :=
  if dataType = 1 ∨ dataType = 6 then 4 else if dataType = 11 ∨ dataType = 7 then 8 else 0

def elementTypeOf (dataType : Int) : Option ElementType :=
  if dataType = 1 then some .float
  else if dataType = 7 then some .int64
  else if dataType = 6 then some .int32
  else if dataType = 11 then some .double
  else none

def createOrtTensor (input : TensorInfo) (inputData : Buffer) : Option OrtValue :=
  let fieldSize := getFieldSizeFromDataType input.dataType
  if fieldSize = 0 then none else some ⟨inputData,wrap32 (fieldSize * input.size),input.shape,input.dataType⟩

def checkInput (input : TensorInfo) (dataType inputSizeBytes : Int) : Bool :=
  let fieldSize := getFieldSizeFromDataType dataType
  fieldSize ≠ 0 && wrap32 (input.size * fieldSize) = inputSizeBytes && input.dataType = dataType

/- The tensors pushed to `_outputTensors` and the buffers allocated into the return
object. Leaving with false is the unsupported type, with true the exception of
CreateTensor. -/
def allocateOutput (createsTensor : OrtValue → Bool) (allocate : Nat → Buffer) (s : List OrtValue × List Buffer)
    (item : TensorInfo × Nat) : Flow (List OrtValue × List Buffer) Bool :=
  match createOrtTensor item.1 (allocate item.2) with
  | none => .leave s false
  | some tensor =>
      if createsTensor tensor then .proceed (s.1 ++ [tensor],s.2 ++ [tensor.data])
      else .leave (s.1,s.2 ++ [tensor.data]) true

def allocateOutputMemory (createsTensor : OrtValue → Bool) (allocate : Nat → Buffer) (outputs : List TensorInfo)
    (outputTensors : List OrtValue) : Flow (List OrtValue × List Buffer) Bool :=
  Flow.loop (allocateOutput createsTensor allocate) (outputTensors,[]) outputs.zipIdx

structure Frame (V : ElementType → Type) where
  model : ONNXModel
  manager : UserEventsManager V
  preprocessorInputsToFill : List (ONNXPreProcessorInput V)
  outputs : List Buffer

/- A call: its number, the address of the instance, the request, and what the
surroundings answer it. `clock k`: the readings of the k-th get_model_input. -/
structure Call where
  number : Nat
  this : Nat
  req : List UserInput
  readFeature : String → Option Feature
  clock : Nat → Nat → Nat → Int
  runtime : Runtime

section GetInference
variable {V : ElementType → Type} [∀ d, Scalar (V d)] (c : Call)

def setInputTensor (s : Frame V) (index : Nat) (input : TensorInfo) (data : Buffer) : Flow (Frame V) Exit :=
  match createOrtTensor input data with
  | none => .leave s (.returned TERMINAL_ERROR)
  | some tensor =>
      if c.runtime.createsTensor tensor then
        .proceed {s with model.inputTensors := s.model.inputTensors.set index (some tensor)}
      else .leave s .threw

def Call.findInput (name : String) : Option (UserInput × Nat) := c.req.zipIdx.find? (fun item => item.1.name == name)

def fillInput (s : Frame V) (item : TensorInfo × Nat) : Flow (Frame V) Exit :=
  let (input,i) := item
  if input.toPreprocess then .proceed s
  else if input.isFeature then
    match c.readFeature input.featureName with
    | none => .leave s (.returned RETRYABLE_ERROR)
    | some feature =>
        if checkInput input feature.dataType feature.byteLength then
          setInputTensor c s i input (.feature c.number input.featureName)
        else .leave s (.returned TERMINAL_ERROR)
  else
    match c.findInput input.name with
    | none => .leave s (.returned TERMINAL_ERROR)
    | some (given,j) =>
        if checkInput input given.dataType (wrap32 (given.length * getFieldSizeFromDataType given.dataType)) then
          setInputTensor c s i input (.client c.number j)
        else .leave s (.returned TERMINAL_ERROR)

/- One input name of a preprocessor: the result is saved for the caller before its
length is checked. -/
def preprocessInput (rows : List (List (String × String))) (s : Frame V) (inputName : String) : Flow (Frame V) Exit :=
  match s.model.inputNamesToIdMap[inputName]? with
  | none => .leave s (.returned TERMINAL_ERROR)
  | some index =>
      match s.model.info.inputs[index]? with
      | none => .undefined
      | some input =>
          if !input.toPreprocess then .leave s (.returned TERMINAL_ERROR)
          else
            let position := s.preprocessorInputsToFill.length
            match s.manager.getModelInput (c.clock position) (s.model.modelId ++ input.name) rows with
            | none => .undefined
            | some (manager,none) => .leave {s with manager := manager} (.returned TERMINAL_ERROR)
            | some (manager,some userInput) =>
                let s' := {s with
                  manager := manager,
                  preprocessorInputsToFill := s.preprocessorInputsToFill ++ [⟨userInput,⟨c.this,index⟩⟩]}
                if checkInput input input.dataType
                    (wrap32 (userInput.input.length * getFieldSizeFromDataType input.dataType)) then
                  setInputTensor c s' index input (.preprocessed c.number position)
                else .leave s' (.returned TERMINAL_ERROR)

def fillPreprocessorInput (s : Frame V) (info : PreProcessorInputInfo) : Flow (Frame V) Exit :=
  match c.findInput info.name with
  | none => .leave s (.returned TERMINAL_ERROR)
  | some (given,_) =>
      if given.dataType ≠ PREPROCESSOR_INPUT_TYPE then .leave s (.returned TERMINAL_ERROR)
      else
        match given.preprocessorInput with
        | none => .undefined
        | some rows => Flow.loop (preprocessInput c rows) s info.inputNames

def fillInputs (s : Frame V) : Flow (Frame V) Exit :=
  (Flow.loop (fillInput c) s s.model.info.inputs.zipIdx).andThen
    (fun s => Flow.loop (fillPreprocessorInput c) s s.model.info.preprocessorInputs)

def allocateReturn (s : Frame V) : Flow (Frame V) Exit :=
  let frame (tensors : List OrtValue × List Buffer) : Frame V :=
    {s with model.outputTensors := tensors.1, outputs := tensors.2}
  match allocateOutputMemory c.runtime.createsTensor (.output c.number) s.model.info.outputs s.model.outputTensors with
  | .proceed tensors => .proceed (frame tensors)
  | .leave tensors false => .leave (frame tensors) (.returned TERMINAL_ERROR)
  | .leave tensors true => .leave (frame tensors) .threw
  | .undefined => .undefined

def prepareRun (s : Frame V) : Flow (Frame V) Exit := (fillInputs c s).andThen (allocateReturn c)

/- The arguments of one call of Run: it reads all input tensors, and writes to the
first numOutputs tensors from `_outputTensors.data()`. -/
structure RunCall where
  call : Nat
  inputTensors : List (Option OrtValue)
  outputTensors : List OrtValue
  numOutputs : Nat
  outputs : List Buffer
  isOk : Bool

structure InferenceResult (V : ElementType → Type) where
  frame : Frame V
  exit : Exit
  runCall : Option RunCall

def inferenceBody (s : Frame V) : Option (InferenceResult V) :=
  match prepareRun c s with
  | .undefined => none
  | .leave s' exit => some ⟨s',exit,none⟩
  | .proceed s' =>
      let numOutputs := s'.model.info.outputs.length
      let isOk := c.runtime.runs s'.model.inputTensors (s'.model.outputTensors.take numOutputs)
      let run : RunCall := ⟨c.number,s'.model.inputTensors,s'.model.outputTensors,numOutputs,s'.outputs,isOk⟩
      some ⟨s',.returned (if isOk then SUCCESS else TERMINAL_ERROR),some run⟩

def clearOutputTensors (m : ONNXModel) : ONNXModel := {m with outputTensors := []}

def getInference (m : ONNXModel) (manager : UserEventsManager V) : Option (InferenceResult V) :=
  inferenceBody c ⟨clearOutputTensors m,manager,[],[]⟩

end GetInference

section Constructor
variable {V : ElementType → Type} [∀ d, Scalar (V d)]

structure Loading where
  runtime : Runtime
  clock : Nat → UserEventsManager.FillClock
  select : Nat → String → SelectResult

variable (l : Loading)

/- One pass of the constructor's loop over the inputs. It leaves by an exception;
what it registered with the manager stays. -/
def constructInput (s : ONNXModel × UserEventsManager V) (item : TensorInfo × Nat) :
    Flow (ONNXModel × UserEventsManager V) Unit :=
  let (input,i) := item
  let push (m : ONNXModel) : ONNXModel :=
    {m with inputTensors := m.inputTensors ++ [none], inputNamesToIdMap := m.inputNamesToIdMap.insert input.name i}
  if input.toPreprocess then
    match elementTypeOf input.dataType with
    | none => .leave s ()
    | some d =>
        match s.2.createPreprocessor (l.clock i) (l.select i) d (s.1.modelId ++ input.name) input.preprocessorJson with
        | none => .undefined
        | some (manager,false) => .leave (s.1,manager) ()
        | some (manager,true) => .proceed (push s.1,manager)
  else .proceed (push s.1,s.2)

def dummyInput (m : ONNXModel) (item : TensorInfo × Nat) : Flow ONNXModel Unit :=
  match createOrtTensor item.1 (.dummyInput item.2) with
  | none => .leave m ()
  | some tensor =>
      if l.runtime.createsTensor tensor then .proceed {m with inputTensors := m.inputTensors.set item.2 (some tensor)}
      else .leave m ()

/- The exceptions of Run are caught here, so its outcome does not matter. -/
def runDummyInference (m : ONNXModel) : Flow ONNXModel Unit :=
  (Flow.loop (dummyInput l) m m.info.inputs.zipIdx).andThen (fun m =>
    match allocateOutputMemory l.runtime.createsTensor .dummyOutput m.info.outputs m.outputTensors with
    | .proceed tensors => .proceed {m with outputTensors := tensors.1}
    | .leave tensors _ => .leave {m with outputTensors := tensors.1} ()
    | .undefined => .undefined)

def construct (modelId version : String) (info : ONNXModelInfo) (manager : UserEventsManager V) :
    Option (UserEventsManager V × Option ONNXModel) :=
  if !l.runtime.createsSession then some (manager,none)
  else
    match Flow.loop (constructInput l) (⟨modelId,version,info,[],[],∅⟩,manager) info.inputs.zipIdx with
    | .undefined => none
    | .leave s _ => some (s.2,none)
    | .proceed s =>
        match runDummyInference l s.1 with
        | .undefined => none
        | .leave _ _ => some (s.2,none)
        | .proceed m => some (s.2,some m)

end Constructor

end ONNXModel
end NimbleNet
