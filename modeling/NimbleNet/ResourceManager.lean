import NimbleNet.FeatureStore
import NimbleNet.ONNXExecutor

/-! The resource manager: it asks the server for plans and features, stores them on
the device and hands them to the executor and to the feature stores. The answers of
the server, the clock and the text form of JSON are arguments. A write replaces the
file; metrics and logs are not modelled. -/
namespace NimbleNet
open MachineNumbers

def EXECUTOR_LOAD_MODEL_ERR : Int := 5001
def DEFAULT_LOAD_MODEL_RETRIES : Int := 3
def PARTSIZE : Int := 1000000

def INFERENCEMETADATAFILENAME : String := "inferencePlanData.txt"
def INFERENCEFILENAME : String := "inferencePlan.txt"
def FEATURESTOREMETADATAFILENAME : String := "featureStore.txt"
def FEATURESTOREFILENAME : String := "featureVector.txt"

structure VersionCheckResponse where
  status : Int
  fileParts : Int
  version : String
  extras : String

def VersionCheckResponse.fromJson (j : Json) : Option VersionCheckResponse := do
  let status ← (← j.find? "status").getInt32
  if status ≠ SUCCESS then do
    let _ ← (← (← j.find? "error").find? "description").getString
    some ⟨status,0,"",""⟩
  else do
    let fileParts ← (← j.find? "fileParts").getInt32
    let version ← (← j.find? "version").getString
    let extras ← (← j.find? "features").getString
    some ⟨status,fileParts,version,extras⟩

structure FeatureVersionCheckResponse where
  status : Int
  version : String
  dataType : Int
  expiry : Int
  deriving DecidableEq

structure NetworkResponse where
  statusCode : Int
  body : Bytes

structure JsonText where
  dump : Json → Bytes
  parse : Bytes → Option Json

abbrev Device := StdMap Bytes

namespace Device

def getFileFromDevice (device : Device) (fileName : String) : Option Bytes := device[fileName]?

def saveFileOnDevice (device : Device) (content : Bytes) (fileName : String) : Device := device.insert fileName content

variable (text : JsonText)

/- A record that cannot be read is `PlanData()`. -/
def getInferencePlanDataFromDevice (device : Device) (modelId : String) : PlanData :=
  match device.getFileFromDevice (modelId ++ INFERENCEMETADATAFILENAME) with
  | none => .empty
  | some planMetadatastring =>
      let planData := ((text.parse planMetadatastring).bind PlanData.fromJson).getD .empty
      match device.getFileFromDevice (modelId ++ INFERENCEFILENAME) with
      | none => planData
      -- the int is compared with a size_t
      | some plan => {planData with plan := plan, valid := toSizeT planData.planLength = plan.length}

def saveInferencePlanDataOnDevice (device : Device) (modelId : String) (planData : PlanData) : Device :=
  (device.saveFileOnDevice (text.dump planData.toJson) (modelId ++ INFERENCEMETADATAFILENAME)).saveFileOnDevice
    planData.plan (modelId ++ INFERENCEFILENAME)

def getFeatureDataFromDevice (now : Int) (device : Device) (featureName : String) : FeatureData :=
  match device.getFileFromDevice (featureName ++ FEATURESTOREMETADATAFILENAME) with
  | none => .empty
  | some featureDataString =>
      let featureData := ((text.parse featureDataString).bind FeatureData.fromJson).getD .empty
      if !featureData.valid then .empty
      else if featureData.expiry < now then .empty
      else
        match device.getFileFromDevice (featureName ++ FEATURESTOREFILENAME) with
        | none => .empty
        | some featureVectorBytes =>
            {featureData with feature := featureVectorBytes, featureLength := wrap32 featureVectorBytes.length}

def saveFeatureDataOnDevice (device : Device) (featureName : String) (featureData : FeatureData) : Device :=
  (device.saveFileOnDevice featureData.feature (featureName ++ FEATURESTOREFILENAME)).saveFileOnDevice
    (text.dump featureData.toJson) (featureName ++ FEATURESTOREMETADATAFILENAME)

end Device

structure MlExecutor (V : ElementType → Type) where
  executor : ONNXExecutor V
  loadModelRetries : StdMap Int
  isModelUpdated : StdMap Bool

namespace MlExecutor
variable {V : ElementType → Type}

def new (modelIds : List String) (executor : ONNXExecutor V) : MlExecutor V where
  executor := executor
  loadModelRetries := modelIds.foldl (fun map model => map.insert model DEFAULT_LOAD_MODEL_RETRIES) ∅
  isModelUpdated := modelIds.foldl (fun map model => map.insert model false) ∅

def checkPlanLoaded (s : MlExecutor V) (modelId : String) : Bool := s.executor.modelMap.contains modelId

def getPlanVersion (s : MlExecutor V) (modelId : String) : Option String :=
  match s.executor.modelMap[modelId]? with
  | none => some ""
  | some address => (s.executor.instanceAt address).map (·.version)

def resetModelRetries (s : MlExecutor V) (modelId : String) : MlExecutor V :=
  if s.loadModelRetries.contains modelId then
    {s with loadModelRetries := s.loadModelRetries.insert modelId DEFAULT_LOAD_MODEL_RETRIES}
  else s

def updateModelRetries (s : MlExecutor V) (modelId : String) : MlExecutor V :=
  match s.loadModelRetries[modelId]? with
  | none => s
  | some retries => {s with loadModelRetries := s.loadModelRetries.insert modelId (retries - 1)}

def hasRetries (s : MlExecutor V) (modelId : String) : Bool :=
  match s.loadModelRetries[modelId]? with
  | none => false
  | some retries => 0 < retries

/- For a plan that is loaded `_isModelUpdated[modelId]` is read, which makes the key. -/
def canModelRetry (s : MlExecutor V) (modelId : String) : MlExecutor V × Bool :=
  if s.checkPlanLoaded modelId then
    let isUpdated := s.isModelUpdated.getD modelId false
    ({s with isModelUpdated := s.isModelUpdated.insert modelId isUpdated},!isUpdated && s.hasRetries modelId)
  else (s,s.hasRetries modelId)

def planUpdated (s : MlExecutor V) (modelId : String) (isUpdated : Bool) : MlExecutor V :=
  if s.isModelUpdated.contains modelId then {s with isModelUpdated := s.isModelUpdated.insert modelId isUpdated} else s

end MlExecutor

structure ResourceManager (V : ElementType → Type) where
  mlExecutor : MlExecutor V
  featureStoreManager : FeatureStoreManager
  device : Device

namespace ResourceManager
variable {V : ElementType → Type}

def getParts (part : Int → NetworkResponse) : Bytes → List Int → Except Int Bytes
  | plan,[] => .ok plan
  | plan,k :: rest =>
      if (part k).statusCode ≠ SUCCESS then .error (part k).statusCode else getParts part (plan ++ (part k).body) rest

structure PlanAnswers where
  version : VersionCheckResponse
  part : Int → NetworkResponse
  loading : ONNXModel.Loading

namespace PlanAnswers

def partNumbers (a : PlanAnswers) : List Int := (List.range a.version.fileParts.toNat).map (fun (k : Nat) => (k : Int) + 1)

def downloaded (a : PlanAnswers) : Except Int Bytes := getParts a.part [] a.partNumbers

def planData (a : PlanAnswers) (plan : Bytes) : PlanData :=
  ⟨false,a.version.version,plan,a.version.extras,wrap32 plan.length⟩

end PlanAnswers

section LoadPlan
variable [∀ d, Scalar (V d)] (text : JsonText)

def utf8 (s : String) : Bytes := s.toUTF8.data.toList

/- From the downloaded plan on: it is stored before the executor has seen it. -/
def storeAndLoad (s : ResourceManager V) (loading : ONNXModel.Loading) (modelId : String) (planData : PlanData) :
    Option (ResourceManager V × Exit) := do
  let device := s.device.saveInferencePlanDataOnDevice text modelId planData
  let (executor,isLoaded) ← s.mlExecutor.executor.loadPlan (fun extras => text.parse (utf8 extras)) loading modelId planData
  let mlExecutor := {s.mlExecutor with executor := executor}.planUpdated modelId isLoaded
  some ({s with mlExecutor := mlExecutor, device := device},
    .returned (if isLoaded then SUCCESS else EXECUTOR_LOAD_MODEL_ERR))

/- `PARTSIZE * fileParts` is an int, and a negative one a length that reserve rejects. -/
def loadPlan (s : ResourceManager V) (modelId : String) (a : PlanAnswers) : Option (ResourceManager V × Exit) :=
  if a.version.status ≠ SUCCESS then some (s,.returned a.version.status)
  else do
    let current ← s.mlExecutor.getPlanVersion modelId
    if current = a.version.version then
      some ({s with mlExecutor := s.mlExecutor.planUpdated modelId true},.returned SUCCESS)
    else if wrap32 (PARTSIZE * a.version.fileParts) < 0 then some (s,.threw)
    else
      match a.downloaded with
      | .error status => some ({s with mlExecutor := s.mlExecutor.planUpdated modelId false},.returned status)
      | .ok plan => storeAndLoad text s a.loading modelId (a.planData plan)

def canModelRetry (s : ResourceManager V) (modelId : String) : ResourceManager V × Bool :=
  ({s with mlExecutor := (s.mlExecutor.canModelRetry modelId).1},(s.mlExecutor.canModelRetry modelId).2)

def updateModelRetries (s : ResourceManager V) (modelId : String) : ResourceManager V :=
  {s with mlExecutor := s.mlExecutor.updateModelRetries modelId}

def updatePlanIfRequired (s : ResourceManager V) (modelId : String) (a : PlanAnswers) :
    Option (ResourceManager V × Option Exit) :=
  match s.canModelRetry modelId with
  | (s',false) => some (s',none)
  | (s',true) => do
      let (s'',exit) ← loadPlan text s' modelId a
      match exit with
      | .threw => some (s'',some .threw)
      | .returned ret => some (s''.updateModelRetries modelId,some (.returned ret))

def loadPlanFromDevice (s : ResourceManager V) (loading : ONNXModel.Loading) (modelId : String) :
    Option (ResourceManager V × Bool) :=
  let planData := s.device.getInferencePlanDataFromDevice text modelId
  if planData.valid then do
    let (executor,isLoaded) ← s.mlExecutor.executor.loadPlan (fun extras => text.parse (utf8 extras)) loading modelId planData
    some ({s with mlExecutor.executor := executor},isLoaded)
  else some (s,false)

end LoadPlan

section UpdateFeature
variable (text : JsonText)

structure FeatureAnswers where
  now : Int
  version : FeatureVersionCheckResponse
  feature : NetworkResponse

def FeatureAnswers.featureData (a : FeatureAnswers) : FeatureData :=
  ⟨true,a.feature.body,a.feature.body.length,a.version.version,a.version.dataType,a.version.expiry⟩

/- The result says whether set_upto_date was reached. -/
def updateFeatureIfRequired (s : ResourceManager V) (featureName : String) (a : FeatureAnswers) :
    ResourceManager V × Bool :=
  let manager := s.featureStoreManager
  if !manager.shouldDownload a.now featureName then (s,false)
  else if a.version.status ≠ SUCCESS then (s,false)
  else if manager.getVersion featureName ≠ a.version.version then
    if a.feature.statusCode ≠ SUCCESS then (s,false)
    else
      match manager.loadFeatureStore featureName a.featureData with
      | (_,false) => (s,false)
      | (manager',true) =>
          ({s with
              featureStoreManager := manager'.setUptoDate featureName,
              device := s.device.saveFeatureDataOnDevice text featureName a.featureData},true)
  else ({s with featureStoreManager := manager.setUptoDate featureName},true)

end UpdateFeature

end ResourceManager
end NimbleNet
