import NimbleNet.OrderedMap
import NimbleNet.ResourceManager
import NimbleNet.StepRuns

/-! What the background passes make of the feature stores. Of every feature the last
version response with which set_upto_date was reached is remembered beside the
manager. The stores may be in any state at the start. -/
namespace NimbleNet.FeatureSync
open OrderedMap ResourceManager StepRuns

variable {V : ElementType → Type} (text : JsonText)

structure Synced (V : ElementType → Type) where
  manager : ResourceManager V
  reported : StdMap FeatureVersionCheckResponse

def start (manager : ResourceManager V) : Synced V := ⟨manager,∅⟩

def step (s : Synced V) (a : String × FeatureAnswers) : Option (Synced V) :=
  match updateFeatureIfRequired text s.manager a.1 a.2 with
  | (manager,false) => some {s with manager := manager}
  | (manager,true) => some ⟨manager,s.reported.insert a.1 a.2.version⟩

structure Matches (store : FeatureStore) (r : FeatureVersionCheckResponse) : Prop where
  valid : store.valid = true
  version : store.version = r.version
  dataType : store.dataType = r.dataType
  expiry : store.expiry = r.expiry
  rests : ∀ now ≤ r.expiry, store.shouldDownload now = false

def InSync (s : Synced V) : Prop :=
  ∀ (name : String) r, s.reported[name]? = some r →
    ∃ store, s.manager.featureStoreManager[name]? = some store ∧ Matches store r

/- Where the version is the one in memory, nothing else of the response is new. -/
def NothingNew (s : Synced V) (a : String × FeatureAnswers) : Prop :=
  ∀ store ∈ s.manager.featureStoreManager[a.1]?, store.shouldDownload a.2.now = true → a.2.version.status = SUCCESS →
    store.version = a.2.version.version →
      store.valid = true ∧ store.dataType = a.2.version.dataType ∧ store.expiry = a.2.version.expiry

instance (s : Synced V) (a : String × FeatureAnswers) : Decidable (NothingNew s a) := by
  unfold NothingNew
  infer_instance

theorem updateCases {s : ResourceManager V} {name : String} {a : FeatureAnswers} :
    updateFeatureIfRequired text s name a = (s,false) ∨
    ∃ store store' device, s.featureStoreManager[name]? = some store ∧ store.shouldDownload a.now = true ∧
      a.version.status = SUCCESS ∧ updateFeatureIfRequired text s name a =
        ({s with featureStoreManager := s.featureStoreManager.insert name store', device := device},true) ∧
      (Matches store' a.version ↔ (store.version = a.version.version →
        store.valid = true ∧ store.dataType = a.version.dataType ∧ store.expiry = a.version.expiry)) := by
  unfold updateFeatureIfRequired
  simp only
  cases known : s.featureStoreManager[name]? with
  | none => exact .inl (by simp [FeatureStoreManager.shouldDownload,known])
  | some store =>
      simp only [FeatureStoreManager.shouldDownload,FeatureStoreManager.getVersion,FeatureStoreManager.loadFeatureStore,
        FeatureStoreManager.setUptoDate,known,Option.map_some,Option.getD_some,Std.ExtTreeMap.getElem?_insert_self]
      by_cases due : store.shouldDownload a.now = true
      · by_cases answered : a.version.status = SUCCESS
        · by_cases same : store.version = a.version.version
          · refine .inr ⟨store,store.setUptoDate,s.device,rfl,due,answered,by simp [due,answered,same],?_⟩
            constructor
            · intro h _
              exact ⟨h.valid,h.dataType,h.expiry⟩
            · intro rest
              obtain ⟨valid,dataType,expiry⟩ := rest same
              refine ⟨valid,same,dataType,expiry,fun now before => ?_⟩
              simp only [FeatureStore.shouldDownload,FeatureStore.setUptoDate,expiry]
              simpa using before
          · by_cases got : a.feature.statusCode = SUCCESS
            · refine .inr ⟨store,(store.loadFeatureStore a.featureData).setUptoDate,
                s.device.saveFeatureDataOnDevice text name a.featureData,rfl,due,answered,
                by simp [due,answered,same,got,insertTwice],iff_of_true ?_ (fun eq => absurd eq same)⟩
              refine ⟨rfl,rfl,rfl,rfl,fun now before => ?_⟩
              have late : ¬ a.version.expiry < now := not_lt.mpr before
              simp [FeatureStore.shouldDownload,FeatureStore.setUptoDate,FeatureStore.loadFeatureStore,
                FeatureAnswers.featureData,late]
            · exact .inl (by simp [due,answered,same,got])
        · exact .inl (by simp [due,answered])
      · exact .inl (by simp [due])

variable {text} {s next : Synced V} {a : String × FeatureAnswers}

theorem stepInSync (good : InSync s) (taken : step text s a = some next) : InSync next ↔ NothingNew s a := by
  unfold step at taken
  rcases @updateCases V text s.manager a.1 a.2 with idle | ⟨store,store',device,known,due,answered,reached,exact'⟩
  · rw [idle] at taken
    cases taken
    refine iff_of_true good (fun store known due answered same => ?_)
    have kept := congrArg Prod.snd idle
    unfold updateFeatureIfRequired at kept
    have known : s.manager.featureStoreManager[a.1]? = some store := known
    simp [FeatureStoreManager.shouldDownload,FeatureStoreManager.getVersion,known,due,answered,same] at kept
  · rw [reached] at taken
    cases taken
    have guard : NothingNew s a ↔ Matches store' a.2.version := by
      rw [exact',NothingNew,known]
      simp [due,answered]
    rw [guard]
    constructor
    · intro sync
      obtain ⟨found,there,holds⟩ := sync a.1 a.2.version (by simp)
      have eq : store' = found := by simpa using there
      exact eq ▸ holds
    · intro holds name r reported
      rcases insertFound reported with ⟨rfl,rfl⟩ | ⟨other,before⟩
      · exact ⟨store',by simp,holds⟩
      · obtain ⟨found,there,rest⟩ := good name r before
        exact ⟨found,by rw [insertOther other,there],rest⟩

theorem runDefined (s : Synced V) (actions : List (String × FeatureAnswers)) :
    ∃ final, run (step text) s actions = some final := by
  induction actions generalizing s with
  | nil => exact ⟨s,rfl⟩
  | cons a rest ih =>
      obtain ⟨next,taken⟩ : ∃ next, step text s a = some next := by
        unfold step
        split <;> exact ⟨_,rfl⟩
      obtain ⟨final,later⟩ := ih next
      exact ⟨final,(runCons _).mpr ⟨next,taken,later⟩⟩

theorem inSyncIff (manager : ResourceManager V) (actions : List (String × FeatureAnswers)) :
    Always (step text) InSync (start manager) actions ↔ Guarded (step text) NothingNew (start manager) actions := by
  obtain ⟨final,ok⟩ := @runDefined V text (start manager) actions
  have first : InSync (start manager) := fun name r reported => by simp [start] at reported
  exact alwaysIffGuarded (fun _ _ _ (_ : True) good taken => ⟨trivial,stepInSync good taken⟩) trivial first ok

section Cities

def cities : FeatureStore := ⟨true,[7],6,1,"1",100,true⟩

def citiesManager : ResourceManager IntValues := ⟨⟨.new 0 ⟨∅,∅⟩,∅,∅⟩,.ofList [("cities",cities)],∅⟩

def extended (now : Int) : String × FeatureAnswers := ("cities",⟨now,⟨200,"1",6,200⟩,⟨404,[]⟩⟩)

theorem extendedExpiryLost : ¬ ∀ (text : JsonText) (manager : ResourceManager IntValues)
    (actions : List (String × FeatureAnswers)), Always (step text) InSync (start manager) actions := by
  intro claim
  have always := claim ⟨fun _ => [],fun _ => none⟩ citiesManager [extended 101]
  obtain ⟨final,ok,reported,found⟩ : ∃ final, run (step ⟨fun _ => [],fun _ => none⟩)
      (start citiesManager) [extended 101] = some final ∧ final.reported["cities"]? = some ⟨200,"1",6,200⟩ ∧
      final.manager.featureStoreManager["cities"]? = some cities :=
    ⟨_,rfl,by decide +kernel,by decide +kernel⟩
  obtain ⟨store,found',holds⟩ := alwaysEnd always ok "cities" _ reported
  cases found.symm.trans found'
  exact absurd holds.expiry (by decide)

end Cities
end NimbleNet.FeatureSync
