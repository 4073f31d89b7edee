import NimbleNet.ResourceManagerStructs
import NimbleNet.UserEventsStruct

/-! A feature store in memory and the manager that keeps one for every feature of
the configuration. The lock around the bytes is not modelled; the clock is an
argument. -/
namespace NimbleNet

structure FeatureStore where
  valid : Bool
  data : Bytes
  dataType : Int
  byteLength : Int
  version : String
  expiry : Int
  isUptoDate : Bool
  deriving DecidableEq

abbrev FeatureStoreManager := StdMap FeatureStore

namespace FeatureStore

def new : FeatureStore := ⟨false,[],-1,0,"",0,false⟩

def loadFeatureStore (s : FeatureStore) (featureData : FeatureData) : FeatureStore :=
  {s with
    data := featureData.feature,
    dataType := featureData.dataType,
    byteLength := featureData.featureLength,
    version := featureData.version,
    valid := true,
    expiry := featureData.expiry}

def shouldDownload (now : Int) (s : FeatureStore) : Bool := !s.isUptoDate || s.expiry < now

def setUptoDate (s : FeatureStore) : FeatureStore := {s with isUptoDate := true}

end FeatureStore

namespace FeatureStoreManager

def new (featureStores : List String) : FeatureStoreManager :=
  featureStores.foldl (fun featureMap featureName => featureMap.insert featureName .new) ∅

def shouldDownload (now : Int) (m : FeatureStoreManager) (featureName : String) : Bool :=
  (m[featureName]?.map (·.shouldDownload now)).getD false

def getVersion (m : FeatureStoreManager) (featureName : String) : String := (m[featureName]?.map (·.version)).getD ""

def loadFeatureStore (m : FeatureStoreManager) (featureName : String) (featureData : FeatureData) :
    FeatureStoreManager × Bool :=
  match m[featureName]? with
  | none => (m,false)
  | some store => (m.insert featureName (store.loadFeatureStore featureData),true)

def setUptoDate (m : FeatureStoreManager) (featureName : String) : FeatureStoreManager :=
  match m[featureName]? with
  | none => m
  | some store => m.insert featureName store.setUptoDate

end FeatureStoreManager
end NimbleNet
