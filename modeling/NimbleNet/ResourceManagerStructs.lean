import NimbleNet.Json

/-! What the resource manager stores for a plan and for a feature: a metadata record
in JSON, and the bytes themselves. -/
namespace NimbleNet
open MachineNumbers

abbrev Bytes := List UInt8

structure PlanData where
  valid : Bool
  version : String
  plan : Bytes
  extraFields : String
  planLength : Int
  deriving DecidableEq

structure FeatureData where
  valid : Bool
  feature : Bytes
  featureLength : Int
  version : String
  dataType : Int
  expiry : Int
  deriving DecidableEq

-- `PlanData()` where planLength is value-initialised
def PlanData.empty : PlanData := ⟨false,"",[],"",0⟩

def FeatureData.empty : FeatureData := ⟨false,[],0,"",-1,0⟩

namespace PlanData

def toJson (p : PlanData) : Json :=
  .object [("version",.string p.version),("extras",.string p.extraFields),("planLength",.integer p.planLength)]

/- `valid` is not read from the record. -/
def fromJson (j : Json) : Option PlanData := do
  let version ← (← j.find? "version").getString
  let extraFields ← (← j.find? "extras").getString
  let planLength ← (← j.find? "planLength").getInt32
  some ⟨false,version,[],extraFields,planLength⟩

end PlanData

namespace FeatureData

def toJson (f : FeatureData) : Json :=
  .object [("version",.string f.version),("dataType",.integer f.dataType),("featureLength",.integer f.featureLength),
    ("expiry",.integer f.expiry)]

def fromJson (j : Json) : Option FeatureData := do
  let version ← (← j.find? "version").getString
  let dataType ← (← j.find? "dataType").getInt32
  let featureLength ← (← j.find? "featureLength").getInt32
  let expiry ← (← j.find? "expiry").getUInt64
  some ⟨true,[],featureLength,version,dataType,expiry⟩

end FeatureData
end NimbleNet
