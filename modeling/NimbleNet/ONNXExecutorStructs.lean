import NimbleNet.UserEventsStruct
import NimbleNet.TableStore

/-! The description of a model, the requests of a client and the status codes. -/
namespace NimbleNet
open MachineNumbers

def SUCCESS : Int := 200
def RETRYABLE_ERROR : Int := -1
def TERMINAL_ERROR : Int := 5002
def PREPROCESSOR_INPUT_TYPE : Int := 666

structure TensorInfo where
  name : String
  dataType : Int
  featureName : String
  isFeature : Bool
  shape : List Int
  size : Int
  preprocessorJson : Json
  toPreprocess : Bool
  deriving Repr

namespace TensorInfo

-- `size *= val` into an int
def sizeOfShape (shape : List Int) : Int := shape.foldl (fun size val => wrap32 (size * val)) 1

def fromJson (j : Json) : Option TensorInfo := do
  let name ← (← j.find? "name").getString
  let dataType ← (← j.find? "dataType").getInt32
  let (isFeature,featureName) ← match j.find? "featureStore" with
    | none => some (false,"")
    | some feature => feature.getString.map (true,·)
  let (toPreprocess,preprocessorJson) := match j.find? "processor" with
    | none => (false,Json.null)
    | some processor => (true,processor)
  let shape ← (← j.find? "shape").getList Json.getInt64
  some ⟨name,dataType,featureName,isFeature,shape,sizeOfShape shape,preprocessorJson,toPreprocess⟩

end TensorInfo

structure PreProcessorInputInfo where
  name : String
  inputNames : List String
  deriving Repr

structure ONNXModelInfo where
  inputs : List TensorInfo
  outputs : List TensorInfo
  preprocessorInputs : List PreProcessorInputInfo
  deriving Repr

namespace ONNXModelInfo

def readPreprocessorInput (j : Json) : Option PreProcessorInputInfo := do
  let name ← (← j.find? "name").getString
  let inputNames ← (← j.find? "inputNames").getList Json.getString
  some ⟨name,inputNames⟩

def fromJson (j : Json) : Option ONNXModelInfo := do
  let inputs ← (← j.find? "inputs").getList TensorInfo.fromJson
  let outputs ← (← j.find? "outputs").getList TensorInfo.fromJson
  let preprocessorInputs ← match j.find? "inputsToProcessors" with
    | none => some []
    | some processors => processors.getList readPreprocessorInput
  some ⟨inputs,outputs,preprocessorInputs⟩

end ONNXModelInfo

/- One input of a request. For a preprocessor `data` points to the entities, each
given by its keys and values; a tensor's own values are never read here. -/
structure UserInput where
  name : String
  dataType : Int
  length : Int
  entities : List (List (String × String))

def UserInput.preprocessorInput (u : UserInput) : Option (List (List (String × String))) :=
  if u.length ≤ u.entities.length then some (u.entities.take u.length.toNat) else none

structure Feature where
  dataType : Int
  byteLength : Int

structure TensorInfoPtr where
  model : Nat
  input : Nat
  deriving DecidableEq, Repr

structure ONNXPreProcessorInput (V : ElementType → Type) where
  modelInput : AnyModelInput V
  tensorInfoPtr : TensorInfoPtr

end NimbleNet
