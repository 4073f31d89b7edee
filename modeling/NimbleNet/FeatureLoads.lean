import NimbleNet.FeatureLocks
import NimbleNet.FeatureStore

/-! The loads step by step against load_feature_store as one call: whatever the calls of
get_inference do meanwhile, the features are those of the loads one after the other. -/
namespace NimbleNet.FeatureLoads
open FeatureLocks HeapBlocks StepRuns

def view (contents : Nat → Bytes) (store : LockedFeature) : FeatureStore :=
  ⟨store.valid,(store.feature.data.map contents).getD [],store.feature.dataType,store.feature.byteLength,
    store.feature.version,store.expiry,false⟩

def oneByOne (initial : FeatureStoreManager) : List (String × FeatureData) → FeatureStoreManager
  | [] => initial
  | load :: before => ((oneByOne initial before).loadFeatureStore load.1 load.2).1

def underWay : Loading → Option (String × FeatureData)
  | .prepared featureName featureData _ _ => some (featureName,featureData)
  | .locked featureName featureData _ _ _ => some (featureName,featureData)
  | _ => none

def Quiet (featureName : String) (loading : Loading) : Prop := ∀ load ∈ underWay loading, load.1 ≠ featureName

section OneByOne
variable {initial : FeatureStoreManager} {loads : List (String × FeatureData)} {f g : String} {featureData : FeatureData}

theorem oneByOneLast : (oneByOne initial ((f,featureData) :: loads))[g]? =
    if g = f then (oneByOne initial loads)[f]?.map (·.loadFeatureStore featureData) else (oneByOne initial loads)[g]? := by
  simp only [oneByOne,FeatureStoreManager.loadFeatureStore]
  by_cases same : g = f
  · rw [if_pos same,same]
    cases known : (oneByOne initial loads)[f]? with
    | none => simpa using known
    | some store => exact Std.ExtTreeMap.getElem?_insert_self
  · rw [if_neg same]
    cases known : (oneByOne initial loads)[f]? with
    | none => rfl
    | some store => exact OrderedMap.insertOther same

theorem oneByOneUpdates (start : ∀ (f : String) store, initial[f]? = some store → store.isUptoDate = false) :
    ∀ (f : String) store, (oneByOne initial loads)[f]? = some store → store.isUptoDate = false := by
  induction loads with
  | nil => exact start
  | cons load loads ih =>
      intro f store known
      rw [oneByOneLast] at known
      split at known
      · obtain ⟨old,there,rfl⟩ := Option.map_eq_some_iff.mp known
        exact ih _ old there
      · exact ih f store known

end OneByOne

/- The features that are not being loaded are those of the loads so far, a feature that is
being loaded was known before. -/
structure Refines (initial : FeatureStoreManager) (s : Features) : Prop where
  quiet : ∀ f, Quiet f s.loading → s.stores[f]?.map (view s.contents) = (oneByOne initial s.loads)[f]?
  begun : ∀ load ∈ underWay s.loading, ∃ before store, s.loads = load :: before ∧
    (oneByOne initial before)[load.1]? = some store

section Steps
variable {a : Allocator} {base : List Nat} {initial : FeatureStoreManager} {s next : Features}

theorem sameStores (h : Refines initial s)
    (stores : ∀ f, Quiet f s.loading → next.stores[f]?.map (view next.contents) = s.stores[f]?.map (view s.contents))
    (loads : next.loads = s.loads) (loading : underWay next.loading = underWay s.loading) : Refines initial next := by
  refine ⟨fun f idle => ?_,fun load => ?_⟩
  · rw [Quiet,loading] at idle
    rw [stores f idle,loads]
    exact h.quiet f idle
  · rw [loads,loading]
    exact h.begun load

theorem relockedView {f g : String} {store : LockedFeature} (known : s.stores[f]? = some store) (m : SharedMutex) :
    (s.withStore f {store with m := m}).stores[g]?.map (view s.contents) = s.stores[g]?.map (view s.contents) := by
  by_cases same : g = f
  · rw [same,withStoreHere,known]
    rfl
  · rw [withStoreOther _ same]

theorem goRefines {t : Nat} {r : Reading} (h : Refines initial s) (taken : s.go t r = some next) : Refines initial next := by
  obtain ⟨r',-,rfl | ⟨f,store,m,known,rfl⟩⟩ := goEnds taken
  · exact ⟨h.quiet,h.begun⟩
  · exact sameStores h (fun g _ => relockedView known m) rfl rfl

theorem loadRefines {featureName : String} {featureData : FeatureData} (inv : Inv base s) (h : Refines initial s)
    (taken : s.load a featureName featureData = some next) : Refines initial next := by
  have quiet := h.quiet
  unfold Features.load at taken
  split at taken
  · rename_i idle unknown
    cases taken
    simp only [idle,Quiet,underWay,Option.not_mem_none,false_implies,implies_true,true_implies] at quiet
    refine ⟨fun g _ => ?_,fun load begun => by rw [idle] at begun; contradiction⟩
    rw [oneByOneLast,← quiet featureName,← quiet g,unknown]
    split
    · rename_i same
      rw [same,unknown]
      rfl
    · rfl
  · rename_i store idle known
    cases taken
    simp only [idle,Quiet,underWay,Option.not_mem_none,false_implies,implies_true,true_implies] at quiet
    refine ⟨fun g apart => ?_,fun load begun => ?_⟩
    · rw [oneByOneLast,if_neg (apart _ rfl).symm,← quiet g]
      refine Option.map_congr (fun found there => ?_)
      cases data : found.feature.data with
      | none => simp [view,data]
      | some p => simp [view,data,freshBuffer a inv there data]
    · cases begun
      have before := quiet featureName
      rw [known] at before
      exact ⟨s.loads,_,rfl,before.symm⟩
  · contradiction

theorem loadOnRefines (inv : Inv base s) (h : Refines initial s)
    (start : ∀ (f : String) store, initial[f]? = some store → store.isUptoDate = false)
    (taken : s.loadOn = some next) : Refines initial next := by
  have begun := inv.consistent.begun
  have other {f g : String} (store : LockedFeature) (apart : g ≠ f) :
      (s.withStore f store).stores[g]?.map (view s.contents) = s.stores[g]?.map (view s.contents) := by
    rw [withStoreOther store apart]
  unfold Features.loadOn at taken
  cases loading : s.loading with
  | idle => simp [loading] at taken
  | prepared f featureData new old =>
      simp only [loading,bind,Option.bind_eq_some_iff] at taken
      obtain ⟨store,known,m,-,taken⟩ := taken
      cases taken
      refine sameStores h (fun g quiet => other _ ?_) rfl (by rw [loading]; rfl)
      rw [loading] at quiet
      exact (quiet _ rfl).symm
  | locked f featureData new old done =>
      have under := h.begun
      simp only [loading,bind,Option.bind_eq_some_iff] at taken begun under
      obtain ⟨store,known,taken⟩ := taken
      obtain ⟨-,contents,found,known',assigned⟩ := begun
      cases known.symm.trans known'
      split at taken <;> cases taken
      · refine sameStores h (fun g quiet => other _ ?_) rfl (by rw [loading]; rfl)
        rw [loading] at quiet
        exact (quiet _ rfl).symm
      · obtain ⟨before,old',loads,there⟩ := under (f,featureData) rfl
        refine ⟨fun g _ => ?_,fun load none => by contradiction⟩
        show (s.withStore f {store with m := store.m.unlock}).stores[g]?.map (view s.contents) = (oneByOne initial s.loads)[g]?
        by_cases same : g = f
        · rw [same,withStoreHere,loads,oneByOneLast,if_pos rfl,there,Option.map_some,Option.map_some]
          have uptoDate := oneByOneUpdates start _ _ there
          have data := assigned.data
          rw [if_neg (by omega)] at data
          simp only [view,FeatureStore.loadFeatureStore,data,assigned.valid (by omega),Option.map_some,Option.getD_some,contents,
            assigned.dataType (by omega),assigned.byteLength (by omega),assigned.version (by omega),
            assigned.expiry (by omega),uptoDate]
        · rw [other _ same,loads,oneByOneLast,if_neg same]
          have quiet := h.quiet g (by
            rw [loading]
            rintro load ⟨⟩
            exact Ne.symm same)
          rwa [loads,oneByOneLast,if_neg same] at quiet
  | unlocked old =>
      simp only [loading,bind,Option.bind_eq_some_iff] at taken
      obtain ⟨heap,-,taken⟩ := taken
      cases taken
      exact sameStores h (fun g _ => rfl) rfl (by rw [loading]; rfl)

theorem stepRefines {act : Action} (start : ∀ (f : String) store, initial[f]? = some store → store.isUptoDate = false)
    (both : Inv base s ∧ Refines initial s) (taken : step a s act = some next) : Inv base next ∧ Refines initial next := by
  refine ⟨stepInv both.1 taken,?_⟩
  obtain ⟨inv,h⟩ := both
  cases act with
  | load featureName featureData => exact loadRefines inv h taken
  | loadOn => exact loadOnRefines inv h start taken
  | enter t featureNames =>
      simp only [step] at taken
      split at taken <;> cases taken
      exact ⟨h.quiet,h.begun⟩
  | leave t =>
      simp only [step] at taken
      split at taken <;> cases taken
      exact ⟨h.quiet,h.begun⟩
  | go t =>
      obtain ⟨before,there,taken⟩ := Option.bind_eq_some_iff.mp taken
      exact goRefines h taken

end Steps

section Runs
variable {a : Allocator} {featureStores : List String} {threads : Nat} {h : Heap} {actions : List Action} {s : Features}

def loadsOf (actions : List Action) : List (String × FeatureData) :=
  actions.filterMap (fun act => match act with
    | .load featureName featureData => some (featureName,featureData)
    | _ => none)

theorem goLoads {s next : Features} {t : Nat} {r : Reading} (taken : s.go t r = some next) : next.loads = s.loads := by
  obtain ⟨r',-,rfl | ⟨f,store,m,known,rfl⟩⟩ := goEnds taken <;> rfl

theorem loadOnLoads {s next : Features} (taken : s.loadOn = some next) : next.loads = s.loads := by
  unfold Features.loadOn at taken
  split at taken
  · contradiction
  · simp only [bind,Option.bind_eq_some_iff] at taken
    obtain ⟨store,-,m,-,taken⟩ := taken
    cases taken
    rfl
  · simp only [bind,Option.bind_eq_some_iff] at taken
    obtain ⟨store,-,taken⟩ := taken
    split at taken <;> cases taken <;> rfl
  · simp only [bind,Option.bind_eq_some_iff] at taken
    obtain ⟨heap,-,taken⟩ := taken
    cases taken
    rfl

theorem stepLoads {s next : Features} {act : Action} (taken : step a s act = some next) :
    next.loads = loadsOf [act] ++ s.loads := by
  cases act with
  | load featureName featureData =>
      simp only [step,Features.load] at taken
      split at taken <;> cases taken <;> rfl
  | loadOn => exact loadOnLoads taken
  | enter t featureNames =>
      simp only [step] at taken
      split at taken <;> cases taken
      rfl
  | leave t =>
      simp only [step] at taken
      split at taken <;> cases taken
      rfl
  | go t =>
      obtain ⟨before,_,taken⟩ := Option.bind_eq_some_iff.mp taken
      exact goLoads taken

theorem runLoads {s final : Features} (ok : run (step a) s actions = some final) :
    final.loads = (loadsOf actions).reverse ++ s.loads := by
  induction actions generalizing s with
  | nil =>
      cases ok
      rfl
  | cons act rest ih =>
      obtain ⟨next,taken,later⟩ := (runCons _).mp ok
      have split : loadsOf (act :: rest) = loadsOf [act] ++ loadsOf rest := List.filterMap_append (l := [act])
      have single : (loadsOf [act]).reverse = loadsOf [act] := by cases act <;> rfl
      rw [ih later,stepLoads taken,split,List.reverse_append,single,List.append_assoc]

theorem newFeatures (contents : Nat → Bytes) (names : List String) (f : String) :
    (names.foldl (fun featureMap featureName => featureMap.insert featureName .new) ∅ :
        StdMap LockedFeature)[f]?.map (view contents) = (FeatureStoreManager.new names)[f]? := by
  have all : ∀ (names : List String) (m : StdMap LockedFeature) (m' : FeatureStoreManager),
      (∀ f : String, m[f]?.map (view contents) = m'[f]?) → ∀ f : String,
        (names.foldl (fun featureMap featureName => featureMap.insert featureName .new) m)[f]?.map (view contents) =
          (names.foldl (fun featureMap featureName => featureMap.insert featureName .new) m')[f]? := by
    intro names
    induction names with
    | nil => exact fun m m' same => same
    | cons name rest ih =>
        refine fun m m' same => ih _ _ (fun f => ?_)
        rw [Std.ExtTreeMap.getElem?_insert,Std.ExtTreeMap.getElem?_insert]
        split
        · rfl
        · exact same f
  exact all names ∅ ∅ (fun f => by simp) f

theorem loadsOneByOne (ok : run (step a) (.start featureStores threads h) actions = some s) (idle : s.loading = .idle)
    (featureName : String) : s.stores[featureName]?.map (view s.contents) =
      (oneByOne (.new featureStores) (loadsOf actions).reverse)[featureName]? := by
  have start : ∀ (f : String) store, (FeatureStoreManager.new featureStores)[f]? = some store → store.isUptoDate = false := by
    intro f store known
    rw [← newFeatures (fun _ => [])] at known
    obtain ⟨_,_,rfl⟩ := Option.map_eq_some_iff.mp known
    rfl
  have first : Refines (.new featureStores) (.start featureStores threads h) :=
    ⟨fun f _ => newFeatures _ featureStores f,fun load begun => by contradiction⟩
  have all := runInvariant _ (fun _ _ _ => stepRefines start) ⟨startInv featureStores threads h,first⟩ ok
  have loads := runLoads ok
  rw [show (Features.start featureStores threads h).loads = [] from rfl,List.append_nil] at loads
  rw [← loads]
  refine all.2.quiet featureName ?_
  rw [idle]
  rintro load ⟨⟩

theorem citiesOneByOne : ∃ s, run (step nextAddress) (.start ["cities"] 1 noBlocks) (reloaded.take 19) = some s ∧
    s.loading = .idle ∧ s.stores["cities"]?.map (view s.contents) =
      (oneByOne (.new ["cities"]) (loadsOf (reloaded.take 19)).reverse)["cities"]? := by
  have runs : (run (step nextAddress) (.start ["cities"] 1 noBlocks) (reloaded.take 19)).map Features.loading =
      some .idle := by decide +kernel
  obtain ⟨s,ran,idle⟩ := Option.map_eq_some_iff.mp runs
  exact ⟨s,ran,idle,loadsOneByOne ran idle "cities"⟩

end Runs

end NimbleNet.FeatureLoads
