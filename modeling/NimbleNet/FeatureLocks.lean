import NimbleNet.HeapBlocks
import NimbleNet.OrderedMap
import NimbleNet.ResourceManagerStructs
import NimbleNet.SharedMutex
import NimbleNet.StepRuns
import NimbleNet.UserEventsStruct

/-! The bytes of the features and the locks around them: one thread loads, any number of
others read in calls of get_inference. Each field is assigned and copied in a step of its
own. new is taken to succeed. -/
namespace NimbleNet.FeatureLocks
open HeapBlocks StepRuns

structure Feature where
  dataType : Int
  data : Option Nat
  byteLength : Int
  version : String
  deriving DecidableEq

structure LockedFeature where
  m : SharedMutex
  valid : Bool
  feature : Feature
  expiry : Int

namespace LockedFeature

def new : LockedFeature := ⟨.new,false,⟨-1,none,0,""⟩,0⟩

def assign (featureData : FeatureData) (newBufferForFeature : Nat) (store : LockedFeature) : Nat → LockedFeature
  | 0 => {store with feature.data := some newBufferForFeature}
  | 1 => {store with feature.dataType := featureData.dataType}
  | 2 => {store with feature.byteLength := featureData.featureLength}
  | 3 => {store with feature.version := featureData.version}
  | 4 => {store with valid := true}
  | _ => {store with expiry := featureData.expiry}

end LockedFeature

def Feature.copy (source feature : Feature) : Nat → Feature
  | 0 => {feature with dataType := source.dataType}
  | 1 => {feature with data := source.data}
  | 2 => {feature with byteLength := source.byteLength}
  | _ => {feature with version := source.version}

/- Where load_feature_store is: `done` assignments are made. -/
inductive Loading where
  | idle
  | prepared (featureName : String) (featureData : FeatureData) (newBufferForFeature : Nat) (bufferToDelete : Option Nat)
  | locked (featureName : String) (featureData : FeatureData) (newBufferForFeature : Nat) (bufferToDelete : Option Nat) (done : Nat)
  | unlocked (bufferToDelete : Option Nat)
  deriving DecidableEq

/- Where a call of get_inference is. `rest`: the features of the inputs to come. `held`: the
features it has a lock on, each as it was copied. -/
inductive Reading where
  | idle
  | next (rest : List String) (held : List (String × Feature))
  | waiting (featureName : String) (rest : List String) (held : List (String × Feature))
  | copying (featureName : String) (rest : List String) (held : List (String × Feature)) (feature : Feature) (done : Nat)
  | running (held : List (String × Feature))
  | leaving (held : List (String × Feature))
  deriving DecidableEq

/- `loads`: what load_feature_store was called with, the last call first. -/
structure Features where
  stores : StdMap LockedFeature
  loading : Loading
  threads : List Reading
  heap : Heap
  contents : Nat → Bytes
  loads : List (String × FeatureData)

inductive Action where
  | load (featureName : String) (featureData : FeatureData)
  | loadOn
  | enter (thread : Nat) (featureNames : List String)
  | leave (thread : Nat)
  | go (thread : Nat)

namespace Features

def start (featureStores : List String) (threads : Nat) (h : Heap) : Features :=
  ⟨featureStores.foldl (fun featureMap featureName => featureMap.insert featureName .new) ∅,.idle,
    List.replicate threads .idle,h,fun _ => [],[]⟩

def goTo (s : Features) (thread : Nat) (r : Reading) : Features := {s with threads := s.threads.set thread r}

def withStore (s : Features) (featureName : String) (store : LockedFeature) : Features :=
  {s with stores := s.stores.insert featureName store}

def readable (s : Features) (feature : Feature) : Bool := feature.data.any (fun p => p ∈ s.heap.live)

def load (a : Allocator) (s : Features) (featureName : String) (featureData : FeatureData) : Option Features :=
  match s.loading,s.stores[featureName]? with
  | .idle,none => some {s with loads := (featureName,featureData) :: s.loads}
  | .idle,some store =>
      let (newBufferForFeature,heap) := malloc a s.heap
      some {s with
        loading := .prepared featureName featureData newBufferForFeature store.feature.data,
        heap := heap,
        contents := fun p => if p = newBufferForFeature then featureData.feature else s.contents p,
        loads := (featureName,featureData) :: s.loads}
  | _,_ => none

def loadOn (s : Features) : Option Features :=
  match s.loading with
  | .idle => none
  | .prepared featureName featureData newBufferForFeature bufferToDelete => do
      let store ← s.stores[featureName]?
      let m ← store.m.lock
      some {s.withStore featureName {store with m := m} with
        loading := .locked featureName featureData newBufferForFeature bufferToDelete 0}
  | .locked featureName featureData newBufferForFeature bufferToDelete done => do
      let store ← s.stores[featureName]?
      if done < 6 then
        some {s.withStore featureName (store.assign featureData newBufferForFeature done) with
          loading := .locked featureName featureData newBufferForFeature bufferToDelete (done + 1)}
      else some {s.withStore featureName {store with m := store.m.unlock} with loading := .unlocked bufferToDelete}
  | .unlocked bufferToDelete => do
      let heap ← freePointer bufferToDelete s.heap
      some {s with loading := .idle, heap := heap}

def go (s : Features) (thread : Nat) : Reading → Option Features
  | .idle => none
  | .next [] held => some (s.goTo thread (.running held))
  | .next (featureName :: rest) held =>
      if s.stores[featureName]?.any (·.valid) then some (s.goTo thread (.waiting featureName rest held))
      else some (s.goTo thread (.leaving held))
  | .waiting featureName rest held => do
      let store ← s.stores[featureName]?
      let m ← store.m.lockShared thread
      some ((s.withStore featureName {store with m := m}).goTo thread
        (.copying featureName rest held LockedFeature.new.feature 0))
  | .copying featureName rest held feature done => do
      let store ← s.stores[featureName]?
      if done < 4 then
        some (s.goTo thread (.copying featureName rest held (store.feature.copy feature done) (done + 1)))
      else some (s.goTo thread (.next rest (held ++ [(featureName,feature)])))
  | .running held => if held.all (fun entry => s.readable entry.2) then some (s.goTo thread (.leaving held)) else none
  | .leaving [] => some (s.goTo thread .idle)
  | .leaving ((featureName,_) :: held) => do
      let store ← s.stores[featureName]?
      let m ← store.m.unlockShared thread
      some ((s.withStore featureName {store with m := m}).goTo thread (.leaving held))

end Features

/- `leave`: the call fails for another reason, such as check_input. -/
def step (a : Allocator) (s : Features) : Action → Option Features
  | .load featureName featureData => s.load a featureName featureData
  | .loadOn => s.loadOn
  | .enter thread featureNames =>
      match s.threads[thread]? with
      | some .idle => some (s.goTo thread (.next featureNames []))
      | _ => none
  | .leave thread =>
      match s.threads[thread]? with
      | some (.next _ held) => some (s.goTo thread (.leaving held))
      | _ => none
  | .go thread => do
      let r ← s.threads[thread]?
      s.go thread r

namespace Reading

def held : Reading → List (String × Feature)
  | .idle => []
  | .next _ held => held
  | .waiting _ _ held => held
  | .copying _ _ held _ _ => held
  | .running held => held
  | .leaving held => held

def names : Reading → List String
  | .copying featureName _ held _ _ => featureName :: held.map Prod.fst
  | r => r.held.map Prod.fst

def needs : Reading → List String
  | .waiting featureName _ held => featureName :: held.map Prod.fst
  | r => r.names

def asks : Reading → List String
  | .next rest held => rest ++ held.map Prod.fst
  | .waiting featureName rest held => featureName :: (rest ++ held.map Prod.fst)
  | .copying featureName rest held _ _ => featureName :: (rest ++ held.map Prod.fst)
  | r => r.held.map Prod.fst

end Reading

namespace Loading

def Writes (featureName : String) : Loading → Prop
  | .locked name _ _ _ _ => name = featureName
  | _ => False

def blocks : Loading → List Nat
  | .idle => []
  | .prepared _ _ newBufferForFeature _ => [newBufferForFeature]
  | .locked _ _ newBufferForFeature bufferToDelete done => if done = 0 then [newBufferForFeature] else bufferToDelete.toList
  | .unlocked bufferToDelete => bufferToDelete.toList

end Loading

def CopiedUpTo (done : Nat) (source feature : Feature) : Prop :=
  (0 < done → feature.dataType = source.dataType) ∧ (1 < done → feature.data = source.data) ∧
    (2 < done → feature.byteLength = source.byteLength) ∧ (3 < done → feature.version = source.version)

theorem copyOn {done : Nat} {source feature : Feature} (before : CopiedUpTo done source feature) (more : done < 4) :
    CopiedUpTo (done + 1) source (source.copy feature done) := by
  obtain ⟨dataType,data,byteLength,version⟩ := before
  have cases : done = 0 ∨ done = 1 ∨ done = 2 ∨ done = 3 := by omega
  rcases cases with rfl | rfl | rfl | rfl <;> simp_all [CopiedUpTo,Feature.copy]

theorem copyDone {done : Nat} {source feature : Feature} (copied : CopiedUpTo done source feature) (all : ¬ done < 4) :
    feature = source := by
  obtain ⟨dataType,data,byteLength,version⟩ := copied
  obtain ⟨_,_,_,_⟩ := feature
  obtain ⟨_,_,_,_⟩ := source
  simp only [Feature.mk.injEq]
  exact ⟨dataType (by omega),data (by omega),byteLength (by omega),version (by omega)⟩

def OfLoad (s : Features) (featureName : String) (feature : Feature) : Prop :=
  ∃ (featureData : FeatureData) (p : Nat), (featureName,featureData) ∈ s.loads ∧ s.contents p = featureData.feature ∧
    feature = ⟨featureData.dataType,some p,featureData.featureLength,featureData.version⟩

structure AssignedUpTo (done : Nat) (featureData : FeatureData) (newBufferForFeature : Nat) (bufferToDelete : Option Nat)
    (store : LockedFeature) : Prop where
  data : store.feature.data = if done = 0 then bufferToDelete else some newBufferForFeature
  dataType : 1 < done → store.feature.dataType = featureData.dataType
  byteLength : 2 < done → store.feature.byteLength = featureData.featureLength
  version : 3 < done → store.feature.version = featureData.version
  valid : 4 < done → store.valid = true
  expiry : 5 < done → store.expiry = featureData.expiry

theorem assignOn {done new : Nat} {featureData : FeatureData} {old : Option Nat} {store : LockedFeature}
    (before : AssignedUpTo done featureData new old store) (more : done < 6) :
    AssignedUpTo (done + 1) featureData new old (store.assign featureData new done) := by
  obtain ⟨data,dataType,byteLength,version,valid,expiry⟩ := before
  have cases : done = 0 ∨ done = 1 ∨ done = 2 ∨ done = 3 ∨ done = 4 ∨ done = 5 := by omega
  rcases cases with rfl | rfl | rfl | rfl | rfl | rfl <;> constructor <;> simp_all [LockedFeature.assign]

theorem assignKeeps (featureData : FeatureData) (new done : Nat) (store : LockedFeature) :
    (store.assign featureData new done).m = store.m ∧ (store.valid = true → (store.assign featureData new done).valid = true) := by
  unfold LockedFeature.assign
  split <;> simp

theorem assignData (featureData : FeatureData) (new done : Nat) (store : LockedFeature) :
    (store.assign featureData new done).feature.data = if done = 0 then some new else store.feature.data := by
  unfold LockedFeature.assign
  split <;> simp_all

def Features.reading (s : Features) (thread : Nat) : Reading := s.threads.getD thread .idle

def Begun (s : Features) : Loading → Prop
  | .prepared featureName featureData new old => (featureName,featureData) ∈ s.loads ∧ s.contents new = featureData.feature ∧
      ∃ store, s.stores[featureName]? = some store ∧ store.feature.data = old
  | .locked featureName featureData new old done => (featureName,featureData) ∈ s.loads ∧
      s.contents new = featureData.feature ∧
      ∃ store, s.stores[featureName]? = some store ∧ AssignedUpTo done featureData new old store
  | _ => True

structure Consistent (s : Features) : Prop where
  locks : ∀ (f : String) store, s.stores[f]? = some store → ∀ t, store.m.readers.count t = (s.reading t).names.count f
  found : ∀ t, ∀ f ∈ (s.reading t).needs, ∃ store, s.stores[f]? = some store ∧ store.valid = true
  copies : ∀ t, ∀ entry ∈ (s.reading t).held, ∀ store, s.stores[entry.1]? = some store → entry.2 = store.feature
  partly : ∀ t f rest held feature done, s.reading t = .copying f rest held feature done →
    ∀ store, s.stores[f]? = some store → CopiedUpTo done store.feature feature
  writer : ∀ (f : String) store, s.stores[f]? = some store → (store.m.writer = true ↔ s.loading.Writes f)
  settled : ∀ (f : String) store, s.stores[f]? = some store → store.m.writer = false → store.valid = true →
    OfLoad s f store.feature
  begun : Begun s s.loading

section Frames
variable {s : Features} {t : Nat} {r before : Reading}

theorem readingSet (there : s.threads[t]? = some before) (other : Nat) :
    (s.goTo t r).reading other = if other = t then r else s.reading other := by
  obtain ⟨inside,-⟩ := List.getElem?_eq_some_iff.mp there
  simp only [Features.reading,Features.goTo,List.getD_eq_getElem?_getD,List.getElem?_set]
  split
  · rename_i same
    obtain rfl := same
    simp
  · rename_i apart
    simp [Ne.symm apart]

theorem readingHere (there : s.threads[t]? = some before) : s.reading t = before := by
  simp [Features.reading,there]

theorem namesInNeeds {f : String} (member : f ∈ r.names) : f ∈ r.needs := by
  cases r <;> first | exact member | exact List.mem_cons_of_mem _ member

theorem heldInNames {entry : String × Feature} (member : entry ∈ r.held) : entry.1 ∈ r.names := by
  have listed := List.mem_map_of_mem (f := Prod.fst) member
  cases r <;> first | exact listed | exact List.mem_cons_of_mem _ listed

theorem lockedUnwritten (h : Consistent s) {f : String} {store : LockedFeature} (known : s.stores[f]? = some store)
    (member : f ∈ (s.reading t).names) : store.m.writer = false := by
  have holds : 0 < store.m.readers.count t := by
    rw [h.locks f store known t]
    exact List.count_pos_iff.mpr member
  exact SharedMutex.readExcludes holds

structure Fits (s : Features) (r : Reading) : Prop where
  found : ∀ f ∈ r.needs, ∃ store, s.stores[f]? = some store ∧ store.valid = true
  copies : ∀ entry ∈ r.held, ∀ store, s.stores[entry.1]? = some store → entry.2 = store.feature
  partly : ∀ f rest held feature done, r = .copying f rest held feature done →
    ∀ store, s.stores[f]? = some store → CopiedUpTo done store.feature feature

theorem fitsHere (h : Consistent s) (t : Nat) : Fits s (s.reading t) := ⟨h.found t,h.copies t,h.partly t⟩

theorem threadMoves (h : Consistent s) (there : s.threads[t]? = some before)
    (names : ∀ f, r.names.count f = before.names.count f) (fits : Fits s r) : Consistent (s.goTo t r) := by
  have each (P : Reading → Prop) (new : P r) (old : ∀ other, P (s.reading other)) (other : Nat) :
      P ((s.goTo t r).reading other) := by
    rw [readingSet there]
    split
    · exact new
    · exact old other
  refine ⟨fun f store known other => ?_,?_,?_,?_,h.writer,h.settled,h.begun⟩
  · rw [h.locks f store known other,readingSet there]
    split
    · rename_i same
      rw [same,readingHere there,names]
    · rfl
  · exact each (fun r => ∀ f ∈ r.needs, ∃ store, s.stores[f]? = some store ∧ store.valid = true) fits.found h.found
  · exact each (fun r => ∀ entry ∈ r.held, ∀ store, s.stores[entry.1]? = some store → entry.2 = store.feature)
      fits.copies h.copies
  · exact each (fun r => ∀ f rest held feature done, r = .copying f rest held feature done →
      ∀ store, s.stores[f]? = some store → CopiedUpTo done store.feature feature) fits.partly h.partly

theorem withStoreFound {f g : String} {store found : LockedFeature} (known : (s.withStore f store).stores[g]? = some found) :
    (g = f ∧ found = store) ∨ (g ≠ f ∧ s.stores[g]? = some found) := OrderedMap.insertFound known

theorem withStoreHere (s : Features) (f : String) (store : LockedFeature) :
    (s.withStore f store).stores[f]? = some store := Std.ExtTreeMap.getElem?_insert_self

theorem withStoreOther {f g : String} (store : LockedFeature) (apart : g ≠ f) :
    (s.withStore f store).stores[g]? = s.stores[g]? := OrderedMap.insertOther apart

theorem foundStill {f g : String} {store store' : LockedFeature} (known : s.stores[f]? = some store)
    (valid : store.valid = true → store'.valid = true) (found : ∃ store, s.stores[g]? = some store ∧ store.valid = true) :
    ∃ found, (s.withStore f store').stores[g]? = some found ∧ found.valid = true := by
  obtain ⟨old,there,good⟩ := found
  by_cases same : g = f
  · obtain rfl := same
    cases known.symm.trans there
    exact ⟨store',withStoreHere s g store',valid good⟩
  · exact ⟨old,by rw [withStoreOther store' same,there],good⟩

theorem mutexMoves (h : Consistent s) (there : s.threads[t]? = some before) {f : String} {store : LockedFeature}
    {m : SharedMutex} (known : s.stores[f]? = some store) (writer : m.writer = store.m.writer)
    (counts : ∀ other, m.readers.count other = if other = t then r.names.count f else store.m.readers.count other)
    (others : ∀ g, g ≠ f → r.names.count g = before.names.count g) (fits : Fits s r) :
    Consistent ((s.withStore f {store with m := m}).goTo t r) := by
  have same {g : String} {found : LockedFeature} (there : (s.withStore f {store with m := m}).stores[g]? = some found) :
      ∃ old, s.stores[g]? = some old ∧ found.feature = old.feature ∧ found.valid = old.valid ∧
        found.m.writer = old.m.writer := by
    rcases withStoreFound there with ⟨rfl,rfl⟩ | ⟨_,old⟩
    · exact ⟨store,known,rfl,rfl,writer⟩
    · exact ⟨found,old,rfl,rfl,rfl⟩
  have middle : ∀ other, Fits s (((s.withStore f {store with m := m}).goTo t r).reading other) := by
    intro other
    rw [readingSet (s := s.withStore f {store with m := m}) there]
    split
    · exact fits
    · exact fitsHere h other
  refine ⟨fun g found known' other => ?_,fun other g needed => ?_,fun other entry member found known' => ?_,?_,?_,?_,?_⟩
  · rw [readingSet (s := s.withStore f {store with m := m}) there]
    rcases withStoreFound known' with ⟨rfl,rfl⟩ | ⟨apart,old⟩
    · rw [counts]
      split
      · rfl
      · exact h.locks g store known other
    · rw [h.locks g found old other]
      split
      · rename_i same
        rw [same,readingHere there,others g apart]
      · rfl
  · exact foundStill known id ((middle other).found g needed)
  · obtain ⟨old,known'',feature,-,-⟩ := same known'
    rw [feature]
    exact (middle other).copies entry member old known''
  · intro other g rest held feature done copying found known'
    obtain ⟨old,known'',same,-,-⟩ := same known'
    rw [same]
    exact (middle other).partly g rest held feature done copying old known''
  · intro g found known'
    obtain ⟨old,known'',-,-,writes⟩ := same known'
    rw [writes]
    exact h.writer g old known''
  · intro g found known' unwritten valid
    obtain ⟨old,known'',feature,valid',writes⟩ := same known'
    rw [feature]
    exact h.settled g old known'' (writes ▸ unwritten) (valid' ▸ valid)
  · have begun := h.begun
    show Begun _ s.loading
    cases loading : s.loading with
    | idle => trivial
    | prepared g featureData new old =>
        rw [loading] at begun
        obtain ⟨loads,contents,found,there,data⟩ := begun
        refine ⟨loads,contents,?_⟩
        by_cases eq : g = f
        · obtain rfl := eq
          cases known.symm.trans there
          exact ⟨_,withStoreHere s g _,data⟩
        · exact ⟨found,by rw [← there]; exact withStoreOther _ eq,data⟩
    | locked g featureData new old done =>
        rw [loading] at begun
        obtain ⟨loads,contents,found,there,assigned⟩ := begun
        refine ⟨loads,contents,?_⟩
        by_cases eq : g = f
        · obtain rfl := eq
          cases known.symm.trans there
          exact ⟨_,withStoreHere s g _,⟨assigned.data,assigned.dataType,assigned.byteLength,assigned.version,assigned.valid,assigned.expiry⟩⟩
        · exact ⟨found,by rw [← there]; exact withStoreOther _ eq,assigned⟩
    | unlocked old => trivial

theorem writerMoves (h : Consistent s) {f : String} {store store' : LockedFeature} {loading : Loading}
    (known : s.stores[f]? = some store) (unread : ∀ t, store.m.readers.count t = 0) (readers : store'.m.readers = store.m.readers)
    (valid : store.valid = true → store'.valid = true) (writer : store'.m.writer = true ↔ loading.Writes f)
    (others : ∀ g, g ≠ f → (s.loading.Writes g ↔ loading.Writes g))
    (settled : store'.m.writer = false → store'.valid = true → OfLoad s f store'.feature)
    (begun : Begun {s.withStore f store' with loading := loading} loading) :
    Consistent {s.withStore f store' with loading := loading} := by
  have apart {t : Nat} {g : String} (member : g ∈ (s.reading t).names) : g ≠ f := by
    rintro rfl
    have count := h.locks g store known t
    rw [unread t] at count
    exact absurd (List.count_pos_iff.mpr member) (by omega)
  refine ⟨?_,?_,?_,?_,?_,?_,begun⟩
  · intro g found known' t
    rcases withStoreFound known' with ⟨rfl,rfl⟩ | ⟨_,old⟩
    · rw [readers]
      exact h.locks g store known t
    · exact h.locks g found old t
  · exact fun t g needed => foundStill known valid (h.found t g needed)
  · intro t entry member found known'
    have other := apart (heldInNames member)
    rcases withStoreFound known' with ⟨same,_⟩ | ⟨_,old⟩
    · exact absurd same other
    · exact h.copies t entry member found old
  · intro t g rest held feature done copying found known'
    have other : g ≠ f := @apart t g (by
      rw [show s.reading t = _ from copying]
      exact List.mem_cons_self)
    rcases withStoreFound known' with ⟨same,_⟩ | ⟨_,old⟩
    · exact absurd same other
    · exact h.partly t g rest held feature done copying found old
  · intro g found known'
    rcases withStoreFound known' with ⟨rfl,rfl⟩ | ⟨other,old⟩
    · exact writer
    · exact (h.writer g found old).trans (others g other)
  · intro g found known' unwritten valid'
    rcases withStoreFound known' with ⟨rfl,rfl⟩ | ⟨other,old⟩
    · exact settled unwritten valid'
    · exact h.settled g found old unwritten valid'

end Frames

def dataBlocks (stores : StdMap LockedFeature) : List Nat := stores.toList.filterMap (fun entry => entry.2.feature.data)

def Features.blocks (s : Features) : List Nat := dataBlocks s.stores ++ s.loading.blocks

section Ledger
variable {s : Features} {f : String} {store store' : LockedFeature}

theorem dataTaken {stores : StdMap LockedFeature} (known : stores[f]? = some store) :
    (dataBlocks stores).Perm (store.feature.data.toList ++ dataBlocks (stores.erase f)) := by
  have split := (OrderedMap.listedPerm known).filterMap (fun entry : String × LockedFeature => entry.2.feature.data)
  rw [List.filterMap_cons] at split
  unfold dataBlocks
  revert split
  cases store.feature.data <;> exact id

theorem dataSet (stores : StdMap LockedFeature) (f : String) (store' : LockedFeature) :
    (dataBlocks (stores.insert f store')).Perm (store'.feature.data.toList ++ dataBlocks (stores.erase f)) := by
  have known : (stores.insert f store')[f]? = some store' := Std.ExtTreeMap.getElem?_insert_self
  have split := dataTaken known
  rwa [OrderedMap.eraseInsert] at split

theorem dataKept {stores : StdMap LockedFeature} (known : stores[f]? = some store) (store' : LockedFeature)
    (data : store'.feature.data = store.feature.data) : (dataBlocks (stores.insert f store')).Perm (dataBlocks stores) := by
  have set := dataSet stores f store'
  rw [data] at set
  exact set.trans (dataTaken known).symm

theorem dataMember {p : Nat} (known : s.stores[f]? = some store) (data : store.feature.data = some p) :
    p ∈ dataBlocks s.stores :=
  List.mem_filterMap.mpr ⟨(f,store),Std.ExtTreeMap.mem_toList_iff_getElem?_eq_some.mpr known,data⟩

end Ledger

structure Inv (base : List Nat) (s : Features) : Prop where
  consistent : Consistent s
  held : Holds s.heap (s.blocks ++ base)

section Steps
variable {a : Allocator} {base : List Nat} {s next : Features}

theorem freshBuffer (a : Allocator) (inv : Inv base s) {f : String} {store : LockedFeature} (known : s.stores[f]? = some store)
    {p : Nat} (data : store.feature.data = some p) : p ≠ a.pick s.heap.live := by
  rintro rfl
  have block := dataMember known data
  exact a.fresh s.heap.live (inv.held.mem_iff.mpr (by simp [Features.blocks,block]))

theorem loadInv {featureName : String} {featureData : FeatureData} (inv : Inv base s)
    (taken : s.load a featureName featureData = some next) : Inv base next := by
  unfold Features.load at taken
  split at taken
  · rename_i idle _
    cases taken
    obtain ⟨h,held⟩ := inv
    refine ⟨⟨h.locks,h.found,h.copies,h.partly,h.writer,fun g found known' unwritten valid => ?_,?_⟩,held⟩
    · obtain ⟨loaded,p,member,contents,same⟩ := h.settled g found known' unwritten valid
      exact ⟨loaded,p,List.mem_cons_of_mem _ member,contents,same⟩
    · rw [idle]
      trivial
  · rename_i store idle known
    cases taken
    obtain ⟨h,held⟩ := inv
    refine ⟨⟨h.locks,h.found,h.copies,h.partly,?_,?_,?_⟩,?_⟩
    · intro g found known'
      have writes := h.writer g found known'
      rw [idle] at writes
      exact writes
    · intro g found known' unwritten valid
      obtain ⟨loaded,p,member,contents,same⟩ := h.settled g found known' unwritten valid
      refine ⟨loaded,p,List.mem_cons_of_mem _ member,?_,same⟩
      rw [← contents]
      exact if_neg (freshBuffer a ⟨h,held⟩ known' (by rw [same]))
    · exact ⟨List.mem_cons_self,if_pos rfl,store,known,rfl⟩
    · have grown := mallocHolds a held
      refine holdsPerm grown (List.perm_iff_count.mpr (fun x => ?_))
      simp only [Features.blocks,Loading.blocks,idle,malloc,List.count_cons,List.count_append,List.count_nil]
      omega
  · contradiction

theorem oldHeld {old : Option Nat} (inv : Inv base s) (loading : s.loading = .unlocked old) :
    Holds s.heap (old.toList ++ (dataBlocks s.stores ++ base)) := by
  refine holdsPerm inv.held ?_
  simp only [Features.blocks,loading,Loading.blocks,List.append_assoc]
  exact List.perm_append_comm_assoc _ _ _

theorem loadOnInv (inv : Inv base s) (taken : s.loadOn = some next) : Inv base next := by
  obtain ⟨h,held⟩ := inv
  have begun := h.begun
  unfold Features.loadOn at taken
  cases loading : s.loading with
  | idle => simp [loading] at taken
  | prepared f featureData new old =>
      simp only [loading,bind,Option.bind_eq_some_iff] at taken begun
      obtain ⟨store,known,m,locked,taken⟩ := taken
      obtain ⟨unwritten,unread,writes,none⟩ := SharedMutex.lockTaken locked
      obtain ⟨loads,contents,found,known',data⟩ := begun
      cases known.symm.trans known'
      cases taken
      refine ⟨writerMoves h known (by simp [unread]) (by simp [unread,none]) id (by simp [writes,Loading.Writes]) ?_ ?_ ?_,?_⟩
      · intro g apart
        simp [loading,Loading.Writes,Ne.symm apart]
      · intro free
        simp [writes] at free
      · exact ⟨loads,contents,_,withStoreHere s f _,⟨by simpa using data,by simp,by simp,by simp,by simp,by simp⟩⟩
      · refine holdsPerm held (List.Perm.append_right base ?_)
        simp only [Features.blocks,loading,Loading.blocks,if_true]
        exact List.Perm.append_right _ (dataKept known {store with m := m} rfl).symm
  | locked f featureData new old done =>
      simp only [loading,bind,Option.bind_eq_some_iff] at taken begun
      obtain ⟨store,known,taken⟩ := taken
      obtain ⟨loads,contents,found,known',assigned⟩ := begun
      cases known.symm.trans known'
      have writes : store.m.writer = true := (h.writer f store known).mpr (by rw [loading]; rfl)
      have unread : store.m.readers = [] := store.m.exclusive writes
      split at taken <;> rename_i more
      · cases taken
        obtain ⟨sameMutex,valid⟩ := assignKeeps featureData new done store
        refine ⟨writerMoves h known (by simp [unread]) (by rw [sameMutex]) valid ?_ ?_ ?_ ?_,?_⟩
        · rw [sameMutex]
          exact iff_of_true writes rfl
        · intro g apart
          simp [loading,Loading.Writes]
        · intro free
          rw [sameMutex,writes] at free
          contradiction
        · exact ⟨loads,contents,_,withStoreHere s f _,assignOn assigned more⟩
        · refine holdsPerm held (List.Perm.append_right base ?_)
          simp only [Features.blocks,loading,Loading.blocks,Nat.add_one_ne_zero,if_false]
          have after := dataSet s.stores f (store.assign featureData new done)
          rw [assignData] at after
          by_cases first : done = 0
          · simp only [first,if_true,Option.toList_some] at after ⊢
            have before := dataTaken known
            rw [assigned.data,if_pos first] at before
            refine (List.Perm.append_right [new] before).trans (List.Perm.trans ?_ (List.Perm.append_right old.toList after.symm))
            refine List.perm_iff_count.mpr (fun x => ?_)
            simp only [List.count_append]
            omega
          · simp only [if_neg first] at after ⊢
            exact List.Perm.append_right _ ((dataTaken known).trans after.symm)
      · cases taken
        have all : done ≠ 0 := by omega
        refine ⟨writerMoves h known (by simp [unread]) rfl id (by simp [SharedMutex.unlock,Loading.Writes]) ?_ ?_ trivial,?_⟩
        · intro g apart
          simp [loading,Loading.Writes,Ne.symm apart]
        · refine fun _ _ => ⟨featureData,new,loads,contents,?_⟩
          have data := assigned.data
          rw [if_neg all] at data
          simp only [← data,← assigned.dataType (by omega),← assigned.byteLength (by omega),← assigned.version (by omega)]
        · refine holdsPerm held (List.Perm.append_right base ?_)
          simp only [Features.blocks,loading,Loading.blocks,if_neg all]
          exact List.Perm.append_right _ (dataKept known {store with m := store.m.unlock} rfl).symm
  | unlocked old =>
      simp only [loading,bind,Option.bind_eq_some_iff] at taken
      obtain ⟨heap,freed,taken⟩ := taken
      cases taken
      obtain ⟨heap',freed',rest⟩ := freePointerHolds (oldHeld ⟨h,held⟩ loading)
      cases freed.symm.trans freed'
      refine ⟨⟨h.locks,h.found,h.copies,h.partly,?_,h.settled,trivial⟩,by simpa [Features.blocks,Loading.blocks] using rest⟩
      intro g found known
      have writes := h.writer g found known
      rwa [loading] at writes

theorem goEnds {t : Nat} {r : Reading} (taken : s.go t r = some next) :
    ∃ r' : Reading, (∀ f, r'.asks.count f ≤ r.asks.count f) ∧ (next = s.goTo t r' ∨
      ∃ (f : String) (store : LockedFeature) (m : SharedMutex), s.stores[f]? = some store ∧
        next = (s.withStore f {store with m := m}).goTo t r') := by
  unfold Features.go at taken
  split at taken
  · contradiction
  · cases taken
    exact ⟨_,fun f => by simp [Reading.asks,Reading.held],.inl rfl⟩
  · split at taken <;> cases taken
    · refine ⟨_,?_,.inl rfl⟩
      exact fun f => le_rfl
    · refine ⟨_,fun f => ?_,.inl rfl⟩
      simp only [Reading.asks,Reading.held,List.count_append]
      omega
  · simp only [bind,Option.bind_eq_some_iff] at taken
    obtain ⟨store,known,m,-,taken⟩ := taken
    cases taken
    refine ⟨_,?_,.inr ⟨_,store,m,known,rfl⟩⟩
    exact fun f => le_rfl
  · simp only [bind,Option.bind_eq_some_iff] at taken
    obtain ⟨store,known,taken⟩ := taken
    split at taken <;> cases taken
    · refine ⟨_,?_,.inl rfl⟩
      exact fun f => le_rfl
    · refine ⟨_,fun f => ?_,.inl rfl⟩
      simp only [Reading.asks,List.map_append,List.map_cons,List.map_nil,List.count_append,List.count_cons,List.count_nil]
      omega
  · split at taken <;> cases taken
    refine ⟨_,?_,.inl rfl⟩
    exact fun f => le_rfl
  · cases taken
    exact ⟨_,fun f => by simp [Reading.asks,Reading.held],.inl rfl⟩
  · simp only [bind,Option.bind_eq_some_iff] at taken
    obtain ⟨store,known,m,-,taken⟩ := taken
    cases taken
    refine ⟨_,fun f => ?_,.inr ⟨_,store,m,known,rfl⟩⟩
    simp only [Reading.asks,Reading.held,List.map_cons,List.count_cons]
    omega

theorem movesInv {t : Nat} {before r : Reading} (inv : Inv base s) (there : s.threads[t]? = some before)
    (names : ∀ f, r.names.count f = before.names.count f) (fits : Fits s r) : Inv base (s.goTo t r) :=
  ⟨threadMoves inv.consistent there names fits,inv.held⟩

theorem mutexInv {t : Nat} {before r : Reading} {f : String} {store : LockedFeature} {m : SharedMutex} (inv : Inv base s)
    (there : s.threads[t]? = some before) (known : s.stores[f]? = some store) (writer : m.writer = store.m.writer)
    (counts : ∀ other, m.readers.count other = if other = t then r.names.count f else store.m.readers.count other)
    (others : ∀ g, g ≠ f → r.names.count g = before.names.count g) (fits : Fits s r) :
    Inv base ((s.withStore f {store with m := m}).goTo t r) := by
  refine ⟨mutexMoves inv.consistent there known writer counts others fits,holdsPerm inv.held ?_⟩
  exact List.Perm.append_right base (List.Perm.append_right _ (dataKept known {store with m := m} rfl).symm)

theorem goInv {t : Nat} {before : Reading} (inv : Inv base s) (there : s.threads[t]? = some before)
    (taken : s.go t before = some next) : Inv base next := by
  have fits := fitsHere inv.consistent t
  rw [readingHere there] at fits
  have locks {f : String} {store : LockedFeature} (known : s.stores[f]? = some store) :
      store.m.readers.count t = before.names.count f := by rw [inv.consistent.locks f store known t,readingHere there]
  cases before with
  | idle => cases taken
  | next rest held =>
      cases rest with
      | nil =>
          cases taken
          exact movesInv inv there (fun _ => rfl) ⟨fits.found,fits.copies,by simp⟩
      | cons f rest =>
          simp only [Features.go] at taken
          split at taken <;> cases taken
          · rename_i valid
            obtain ⟨store,known,valid⟩ := (Option.any_eq_true _ _).mp valid
            have found := List.forall_mem_cons.mpr ⟨⟨store,known,valid⟩,fits.found⟩
            exact movesInv inv there (fun _ => rfl) ⟨found,fits.copies,by simp⟩
          · exact movesInv inv there (fun _ => rfl) ⟨fits.found,fits.copies,by simp⟩
  | waiting f rest held =>
      simp only [Features.go,bind,Option.bind_eq_some_iff] at taken
      obtain ⟨store,known,m,locked,taken⟩ := taken
      obtain ⟨unwritten,free,readers⟩ := SharedMutex.lockSharedTaken locked
      cases taken
      refine mutexInv inv there known (free.trans unwritten.symm) (fun other => ?_) (fun g apart => ?_)
        ⟨fits.found,fits.copies,?_⟩
      · rw [readers,List.count_cons]
        by_cases same : other = t
        · rw [same,locks known]
          simp [Reading.names,Reading.held]
        · simp [same,Ne.symm same]
      · simp [Reading.names,Reading.held,Ne.symm apart]
      · rintro _ _ _ _ _ ⟨⟩ store' _
        simp [CopiedUpTo]
  | copying f rest held feature done =>
      simp only [Features.go,bind,Option.bind_eq_some_iff] at taken
      obtain ⟨store,known,taken⟩ := taken
      split at taken <;> rename_i more <;> cases taken
      · refine movesInv inv there (fun _ => rfl) ⟨fits.found,fits.copies,?_⟩
        rintro _ _ _ _ _ ⟨⟩ store' known'
        cases known.symm.trans known'
        exact copyOn (fits.partly _ _ _ _ _ rfl store known) more
      · refine movesInv inv there (fun g => ?_) ⟨fun g needed => ?_,fun entry member store' known' => ?_,by simp⟩
        · simp only [Reading.names,Reading.held,List.map_append,List.map_cons,List.map_nil,List.count_append,
            List.count_cons,List.count_nil]
          omega
        · refine fits.found g ?_
          simp only [Reading.needs,Reading.names,Reading.held,List.map_append,List.map_cons,List.map_nil,List.mem_append,
            List.mem_cons,List.not_mem_nil,or_false] at needed ⊢
          exact needed.symm
        · rcases List.mem_append.mp member with old | new
          · exact fits.copies entry old store' known'
          · obtain rfl := List.mem_singleton.mp new
            exact copyDone (fits.partly _ _ _ _ _ rfl store' known') more
  | running held =>
      simp only [Features.go] at taken
      split at taken <;> cases taken
      exact movesInv inv there (fun _ => rfl) ⟨fits.found,fits.copies,by simp⟩
  | leaving held =>
      cases held with
      | nil =>
          cases taken
          exact movesInv inv there (fun _ => rfl) ⟨fits.found,fits.copies,by simp⟩
      | cons entry held =>
          simp only [Features.go,bind,Option.bind_eq_some_iff] at taken
          obtain ⟨store,known,m,unlocked,taken⟩ := taken
          obtain ⟨writer,readers⟩ := SharedMutex.unlockSharedTaken unlocked
          cases taken
          refine mutexInv inv there known writer (fun other => ?_) (fun g apart => ?_)
            ⟨fun g needed => fits.found g (List.mem_cons_of_mem _ needed),
              fun entry member => fits.copies entry (List.mem_cons_of_mem _ member),by simp⟩
          · rw [readers]
            split
            · rename_i same
              rw [same,locks known]
              simp [Reading.names,Reading.held]
            · rfl
          · simp [Reading.names,Reading.held,Ne.symm apart]

theorem stepInv {act : Action} (inv : Inv base s) (taken : step a s act = some next) : Inv base next := by
  cases act with
  | load featureName featureData => exact loadInv inv taken
  | loadOn => exact loadOnInv inv taken
  | enter t featureNames =>
      simp only [step] at taken
      split at taken <;> cases taken
      rename_i there
      exact movesInv inv there (fun _ => rfl) ⟨by simp [Reading.needs,Reading.names,Reading.held],by simp [Reading.held],by simp⟩
  | leave t =>
      simp only [step] at taken
      split at taken <;> cases taken
      rename_i there
      have fits := fitsHere inv.consistent t
      rw [readingHere there] at fits
      exact movesInv inv there (fun _ => rfl) ⟨fits.found,fits.copies,by simp⟩
  | go t =>
      obtain ⟨before,there,taken⟩ := Option.bind_eq_some_iff.mp taken
      exact goInv inv there taken

theorem newStores {featureStores : List String} {f : String} {store : LockedFeature}
    (known : (featureStores.foldl (fun featureMap featureName => featureMap.insert featureName .new) ∅ :
      StdMap LockedFeature)[f]? = some store) : store = .new := by
  have all : ∀ (names : List String) (m : StdMap LockedFeature), (∀ (f : String) store, m[f]? = some store → store = .new) →
      ∀ (f : String) store, (names.foldl (fun featureMap featureName => featureMap.insert featureName .new) m)[f]? = some store →
        store = .new := by
    intro names
    induction names with
    | nil => exact fun m each => each
    | cons name rest ih =>
        refine fun m each => ih _ (fun f store found => ?_)
        rcases OrderedMap.insertFound found with ⟨_,rfl⟩ | ⟨_,old⟩
        · rfl
        · exact each f store old
  exact all featureStores ∅ (by simp) f store known

theorem startInv (featureStores : List String) (threads : Nat) (h : Heap) : Inv h.live (.start featureStores threads h) := by
  have idle (t : Nat) : (Features.start featureStores threads h).reading t = .idle := by
    simp only [Features.reading,Features.start,List.getD_eq_getElem?_getD,List.getElem?_replicate]
    split <;> rfl
  refine ⟨⟨?_,?_,?_,?_,?_,?_,trivial⟩,?_⟩
  · intro f store known t
    rw [newStores known,idle t]
    rfl
  · intro t f needed
    rw [idle t] at needed
    contradiction
  · intro t entry member
    rw [idle t] at member
    contradiction
  · intro t f rest held feature done copying
    rw [idle t] at copying
    contradiction
  · intro f store known
    rw [newStores known]
    simp [LockedFeature.new,SharedMutex.new,Features.start,Loading.Writes]
  · intro f store known _ valid
    rw [newStores known] at valid
    contradiction
  · have none : dataBlocks (Features.start featureStores threads h).stores = [] := by
      refine List.filterMap_eq_nil_iff.mpr (fun entry member => ?_)
      rw [newStores (Std.ExtTreeMap.mem_toList_iff_getElem?_eq_some.mp member)]
      rfl
    rw [Features.blocks,none]
    exact List.Perm.refl _

end Steps

section Rest
variable {a : Allocator} {base : List Nat} {s next : Features}

def Action.asksOnce : Action → Prop
  | .enter _ featureNames => featureNames.Nodup
  | _ => True

def Distinct (s : Features) : Prop := ∀ t, (s.reading t).asks.Nodup

theorem distinctMoves (d : Distinct s) {t : Nat} {before r : Reading} (there : s.threads[t]? = some before)
    (less : ∀ f, r.asks.count f ≤ before.asks.count f) : Distinct (s.goTo t r) := by
  intro other
  rw [readingSet there]
  split
  · have once := d t
    rw [readingHere there,List.nodup_iff_count_le_one] at once
    exact List.nodup_iff_count_le_one.mpr (fun f => (less f).trans (once f))
  · exact d other

theorem stepDistinct {act : Action} (d : Distinct s) (once : act.asksOnce) (taken : step a s act = some next) : Distinct next := by
  cases act with
  | load featureName featureData =>
      simp only [step,Features.load] at taken
      split at taken <;> cases taken <;> exact d
  | loadOn =>
      simp only [step,Features.loadOn] at taken
      split at taken
      · contradiction
      · simp only [bind,Option.bind_eq_some_iff] at taken
        obtain ⟨store,-,m,-,taken⟩ := taken
        cases taken
        exact d
      · simp only [bind,Option.bind_eq_some_iff] at taken
        obtain ⟨store,-,taken⟩ := taken
        split at taken <;> cases taken <;> exact d
      · simp only [bind,Option.bind_eq_some_iff] at taken
        obtain ⟨heap,-,taken⟩ := taken
        cases taken
        exact d
  | enter t featureNames =>
      simp only [step] at taken
      split at taken <;> cases taken
      intro other
      rename_i there
      rw [readingSet there]
      split
      · have once : featureNames.Nodup := once
        simpa [Reading.asks] using once
      · exact d other
  | leave t =>
      simp only [step] at taken
      split at taken <;> cases taken
      rename_i rest held there
      exact distinctMoves d there (fun f => by simp [Reading.asks,Reading.held])
  | go t =>
      obtain ⟨before,there,taken⟩ := Option.bind_eq_some_iff.mp taken
      obtain ⟨r',less,rfl | ⟨f,store,m,-,rfl⟩⟩ := goEnds taken
      · exact distinctMoves d there less
      · exact distinctMoves (s := s.withStore f {store with m := m}) d there less

theorem startDistinct (featureStores : List String) (threads : Nat) (h : Heap) : Distinct (.start featureStores threads h) := by
  intro t
  simp only [Features.reading,Features.start,List.getD_eq_getElem?_getD,List.getElem?_replicate]
  split <;> exact List.nodup_nil

def Reading.weight : Reading → Nat
  | .idle => 0
  | .next rest held => 3 + held.length + 8 * rest.length
  | .waiting _ rest held => 10 + held.length + 8 * rest.length
  | .copying _ rest held _ done => 5 + held.length + 8 * rest.length + (4 - done)
  | .running held => 2 + held.length
  | .leaving held => 1 + held.length

def Loading.weight : Loading → Nat
  | .idle => 0
  | .prepared _ _ _ _ => 9
  | .locked _ _ _ _ done => 2 + (6 - done)
  | .unlocked _ => 1

def Features.weight (s : Features) : Nat := s.loading.weight + (s.threads.map Reading.weight).sum

theorem goToWeight {t : Nat} {before r : Reading} (there : s.threads[t]? = some before) (less : r.weight < before.weight) :
    (s.goTo t r).weight < s.weight := by
  have set : ∀ (threads : List Reading) (t : Nat), threads[t]? = some before →
      ((threads.set t r).map Reading.weight).sum < (threads.map Reading.weight).sum := by
    intro threads
    induction threads with
    | nil => simp
    | cons first rest ih =>
        intro t there
        cases t with
        | zero =>
            cases there
            simpa using less
        | succ t => simpa using ih t there
  exact Nat.add_lt_add_left (set s.threads t there) _

theorem readableHeld (inv : Inv base s) (t : Nat) (entry : String × Feature) (member : entry ∈ (s.reading t).held) :
    s.readable entry.2 = true ∧ OfLoad s entry.1 entry.2 ∧ s.stores[entry.1]?.map LockedFeature.feature = some entry.2 := by
  obtain ⟨h,held⟩ := inv
  obtain ⟨store,known,valid⟩ := h.found t entry.1 (namesInNeeds (heldInNames member))
  have same := h.copies t entry member store known
  have load := h.settled entry.1 store known (lockedUnwritten h known (heldInNames member)) valid
  refine ⟨?_,same ▸ load,by rw [known,same]; rfl⟩
  obtain ⟨featureData,p,-,-,feature⟩ := load
  have block := dataMember known (by rw [feature])
  have used : p ∈ s.heap.live := held.mem_iff.mpr (by simp [Features.blocks,block])
  simp [Features.readable,same,feature,used]

theorem goProgress (inv : Inv base s) (d : Distinct s) {t : Nat} {r : Reading} (there : s.threads[t]? = some r) (busy : r ≠ .idle)
    (unwritten : ∀ (f : String) store, s.stores[f]? = some store → store.m.writer = false) :
    ∃ next, step a s (.go t) = some next ∧ next.weight < s.weight := by
  have fits := fitsHere inv.consistent t
  have readable := fun entry => readableHeld inv t entry
  rw [readingHere there] at fits readable
  have goesTo {r' : Reading} (s' : Features) (threads : s'.threads = s.threads) (weight : s'.weight = s.weight)
      (less : r'.weight < r.weight) : (s'.goTo t r').weight < s.weight :=
    weight ▸ goToWeight (threads ▸ there) less
  simp only [step,there,bind,Option.bind_some]
  cases r with
  | idle => contradiction
  | next rest held =>
      cases rest with
      | nil => exact ⟨_,rfl,goesTo s rfl rfl (by simp only [Reading.weight]; omega)⟩
      | cons f rest =>
          simp only [Features.go]
          split
          · exact ⟨_,rfl,goesTo s rfl rfl (by simp only [Reading.weight,List.length_cons]; omega)⟩
          · exact ⟨_,rfl,goesTo s rfl rfl (by simp only [Reading.weight,List.length_cons]; omega)⟩
  | waiting f rest held =>
      obtain ⟨store,known,-⟩ := fits.found f List.mem_cons_self
      have once := d t
      rw [readingHere there] at once
      have unheld : store.m.readers.count t = 0 := by
        rw [inv.consistent.locks f store known t,readingHere there,List.count_eq_zero]
        exact fun member => (List.nodup_cons.mp once).1 (List.mem_append_right _ member)
      obtain ⟨m,locked⟩ := Option.isSome_iff_exists.mp
        ((SharedMutex.lockSharedIff store.m t).mpr ⟨unwritten f store known,unheld⟩)
      simp only [Features.go,known,bind,Option.bind_some,locked]
      exact ⟨_,rfl,goesTo (s.withStore f _) rfl rfl (by simp only [Reading.weight]; omega)⟩
  | copying f rest held feature done =>
      obtain ⟨store,known,-⟩ := fits.found f List.mem_cons_self
      simp only [Features.go,known,bind,Option.bind_some]
      split
      · exact ⟨_,rfl,goesTo s rfl rfl (by simp only [Reading.weight]; omega)⟩
      · exact ⟨_,rfl,goesTo s rfl rfl (by simp only [Reading.weight,List.length_append,List.length_singleton]; omega)⟩
  | running held =>
      have all : held.all (fun entry => s.readable entry.2) = true :=
        List.all_eq_true.mpr (fun entry member => (readable entry member).1)
      simp only [Features.go,all,if_true]
      exact ⟨_,rfl,goesTo s rfl rfl (by simp only [Reading.weight]; omega)⟩
  | leaving held =>
      cases held with
      | nil => exact ⟨_,rfl,goesTo s rfl rfl (by simp only [Reading.weight]; omega)⟩
      | cons entry held =>
          obtain ⟨store,known,-⟩ := fits.found entry.1 List.mem_cons_self
          have locked := inv.consistent.locks entry.1 store known t
          rw [readingHere there] at locked
          have holds : 0 < store.m.readers.count t := by
            rw [locked]
            exact List.count_pos_iff.mpr List.mem_cons_self
          obtain ⟨m,unlocked⟩ := Option.isSome_iff_exists.mp ((SharedMutex.unlockSharedIff store.m t).mpr holds)
          simp only [Features.go,known,bind,Option.bind_some,unlocked]
          exact ⟨_,rfl,goesTo (s.withStore entry.1 _) rfl rfl (by simp only [Reading.weight,List.length_cons]; omega)⟩

def Action.goesOn : Action → Bool
  | .loadOn => true
  | .go _ => true
  | _ => false

def Loading.WaitsFor (featureName : String) : Loading → Prop
  | .prepared name _ _ _ => name = featureName
  | _ => False

/- What every shared mutex lets through: it may keep a reader behind a writer that waits. -/
def Admitted (s : Features) : Action → Prop
  | .go thread => ∀ featureName rest held, s.reading thread = .waiting featureName rest held → ¬ s.loading.WaitsFor featureName
  | _ => True

def Features.atRest (s : Features) : Prop := s.loading = .idle ∧ ∀ r ∈ s.threads, r = .idle

theorem progress (inv : Inv base s) (d : Distinct s) (busy : ¬ s.atRest) :
    ∃ act next, act.goesOn = true ∧ Admitted s act ∧ step a s act = some next ∧ next.weight < s.weight := by
  have begun := inv.consistent.begun
  have loadsOn {s' : Features} (loading : Loading) (less : loading.weight < s.loading.weight) (threads : s'.threads = s.threads)
      (there : s'.loading = loading) : s'.weight < s.weight := by
    rw [Features.weight,Features.weight,threads,there]
    exact Nat.add_lt_add_right less _
  have calls (writes : ∀ f, ¬ s.loading.Writes f) {t : Nat} {r : Reading} (there : s.threads[t]? = some r) (active : r ≠ .idle)
      (admitted : ∀ f rest held, r = .waiting f rest held → ¬ s.loading.WaitsFor f) :
      ∃ act next, act.goesOn = true ∧ Admitted s act ∧ step a s act = some next ∧ next.weight < s.weight := by
    obtain ⟨next,taken,less⟩ := goProgress (a := a) inv d there active (fun f store known => by
      simpa using mt (inv.consistent.writer f store known).mp (writes f))
    exact ⟨.go t,next,rfl,by rwa [Admitted,readingHere there],taken,less⟩
  cases loading : s.loading with
  | locked f featureData new old done =>
      rw [loading] at begun loadsOn
      obtain ⟨-,-,store,known,-⟩ := begun
      refine ⟨.loadOn,?_⟩
      simp only [step,Features.loadOn,loading,known,bind,Option.bind_some]
      split
      · exact ⟨_,rfl,trivial,rfl,loadsOn (.locked f featureData new old (done + 1)) (by simp only [Loading.weight]; omega) rfl rfl⟩
      · exact ⟨_,rfl,trivial,rfl,loadsOn (.unlocked old) (by simp only [Loading.weight]; omega) rfl rfl⟩
  | unlocked old =>
      rw [loading] at loadsOn
      obtain ⟨heap,freed,-⟩ := freePointerHolds (oldHeld inv loading)
      refine ⟨.loadOn,?_⟩
      simp only [step,Features.loadOn,loading,freed,bind,Option.bind_some]
      exact ⟨_,rfl,trivial,rfl,loadsOn .idle (by simp [Loading.weight]) rfl rfl⟩
  | idle =>
      simp only [Features.atRest,loading,true_and,not_forall] at busy
      obtain ⟨r,member,active⟩ := busy
      obtain ⟨t,there⟩ := List.mem_iff_getElem?.mp member
      exact calls (by simp [loading,Loading.Writes]) there active (by simp [loading,Loading.WaitsFor])
  | prepared f featureData new old =>
      rw [loading] at begun loadsOn
      obtain ⟨-,-,store,known,-⟩ := begun
      -- the calls that wait for the same feature have no lock on it
      by_cases waiting : ∀ (t : Nat) r, s.threads[t]? = some r → r = .idle ∨ ∃ rest held, r = .waiting f rest held
      · have unread (t : Nat) : store.m.readers.count t = 0 := by
          rw [inv.consistent.locks f store known t]
          have once := d t
          rw [Features.reading,List.getD_eq_getElem?_getD] at once ⊢
          cases there : s.threads[t]? with
          | none => rfl
          | some r =>
              rw [there,Option.getD_some] at once
              rcases waiting t r there with rfl | ⟨rest,held,rfl⟩
              · rfl
              · exact List.count_eq_zero.mpr (fun member => (List.nodup_cons.mp once).1 (List.mem_append_right _ member))
        have unwritten : store.m.writer = false := by
          simpa using mt (inv.consistent.writer f store known).mp (by simp [loading,Loading.Writes])
        obtain ⟨m,locked⟩ := Option.isSome_iff_exists.mp (SharedMutex.lockIff.mpr ⟨unwritten,unread⟩)
        refine ⟨.loadOn,?_⟩
        simp only [step,Features.loadOn,loading,known,bind,Option.bind_some,locked]
        exact ⟨_,rfl,trivial,rfl,loadsOn (.locked f featureData new old 0) (by simp [Loading.weight]) rfl rfl⟩
      · simp only [not_forall,not_or] at waiting
        obtain ⟨t,r,there,active,elsewhere⟩ := waiting
        refine calls (by simp [loading,Loading.Writes]) there active (fun g rest held same => ?_)
        rw [loading]
        rintro rfl
        exact elsewhere ⟨rest,held,same⟩

theorem rests (n : Nat) : ∀ s : Features, s.weight = n → Inv base s → Distinct s →
    ∃ actions final, (∀ act ∈ actions, act.goesOn = true) ∧ Guarded (step a) Admitted s actions ∧
      run (step a) s actions = some final ∧ final.atRest := by
  induction n using Nat.strongRecOn with
  | ind n ih =>
      rintro s rfl inv d
      by_cases rest : s.atRest
      · exact ⟨[],s,by simp,trivial,rfl,rest⟩
      · obtain ⟨act,next,goesOn,admitted,taken,less⟩ := progress (a := a) inv d rest
        have once : act.asksOnce := by cases act <;> trivial
        obtain ⟨actions,final,all,guarded,ran,rested⟩ :=
          ih next.weight less next rfl (stepInv inv taken) (stepDistinct d once taken)
        refine ⟨act :: actions,final,List.forall_mem_cons.mpr ⟨goesOn,all⟩,⟨admitted,fun other same => ?_⟩,
          (runCons _).mpr ⟨next,taken,ran⟩,rested⟩
        cases taken.symm.trans same
        exact guarded

end Rest

section Runs
variable {a : Allocator} {featureStores : List String} {threads : Nat} {h : Heap} {actions : List Action} {s : Features}

theorem runInv (ok : run (step a) (.start featureStores threads h) actions = some s) : Inv h.live s :=
  runInvariant _ (fun _ _ _ => stepInv) (startInv featureStores threads h) ok

theorem runReadsOneLoad (ok : run (step a) (.start featureStores threads h) actions = some s) {t : Nat}
    {held : List (String × Feature)} (running : s.reading t = .running held) {featureName : String} {feature : Feature}
    (member : (featureName,feature) ∈ held) :
    s.readable feature = true ∧ OfLoad s featureName feature ∧
      s.stores[featureName]?.map LockedFeature.feature = some feature :=
  readableHeld (runInv ok) t (featureName,feature) (by rwa [running])

theorem buffersHeld (ok : run (step a) (.start featureStores threads h) actions = some s) :
    s.heap.live.Perm (s.blocks ++ h.live) := (runInv ok).held

/- Where the models have each feature in one input, calls and load can all come to their end
from every state reached, also with a mutex that keeps readers behind a waiting load. -/
theorem comesToRest (ok : run (step a) (.start featureStores threads h) actions = some s)
    (once : ∀ act ∈ actions, act.asksOnce) :
    ∃ later final, (∀ act ∈ later, act.goesOn = true) ∧ Guarded (step a) Admitted s later ∧
      run (step a) s later = some final ∧ final.atRest := by
  have d : Distinct s := guardedInvariant (fun _ _ _ => stepDistinct) (startDistinct featureStores threads h)
    (guardedOfAll (fun _ => once)) ok
  exact rests s.weight s rfl (runInv ok) d

end Runs

section Cities

def citiesData (version : String) (bytes : Bytes) : FeatureData := ⟨true,bytes,bytes.length,version,6,100⟩

def reloaded : List Action :=
  [.load "cities" (citiesData "1" [7])] ++ List.replicate 9 .loadOn ++ [.enter 0 ["cities"]] ++ List.replicate 8 (.go 0) ++
    [.load "cities" (citiesData "2" [8,9])]

def noBlocks : Heap := ⟨[],List.nodup_nil⟩

theorem citiesRead : ∃ s, run (step nextAddress) (.start ["cities"] 1 noBlocks) reloaded = some s ∧
    s.reading 0 = .running [("cities",⟨6,some 1,1,"1"⟩)] ∧ s.readable ⟨6,some 1,1,"1"⟩ = true ∧
    OfLoad s "cities" ⟨6,some 1,1,"1"⟩ ∧ s.stores["cities"]?.map LockedFeature.feature = some ⟨6,some 1,1,"1"⟩ := by
  have runs : (run (step nextAddress) (.start ["cities"] 1 noBlocks) reloaded).map (fun s => s.reading 0) =
      some (.running [("cities",⟨6,some 1,1,"1"⟩)]) := by decide +kernel
  obtain ⟨s,ran,running⟩ := Option.map_eq_some_iff.mp runs
  exact ⟨s,ran,running,runReadsOneLoad ran running List.mem_cons_self⟩

theorem citiesBuffers : ∃ s, run (step nextAddress) (.start ["cities"] 1 noBlocks) reloaded = some s ∧
    s.heap.live.Perm (s.blocks ++ []) := by
  have runs : (run (step nextAddress) (.start ["cities"] 1 noBlocks) reloaded).isSome = true := by decide +kernel
  obtain ⟨s,ran⟩ := Option.isSome_iff_exists.mp runs
  exact ⟨s,ran,buffersHeld ran⟩

theorem citiesRest : ∃ s later final, run (step nextAddress) (.start ["cities"] 1 noBlocks) reloaded = some s ∧
    (∀ act ∈ later, act.goesOn = true) ∧ Guarded (step nextAddress) Admitted s later ∧
    run (step nextAddress) s later = some final ∧ final.atRest := by
  have runs : (run (step nextAddress) (.start ["cities"] 1 noBlocks) reloaded).isSome = true := by decide +kernel
  obtain ⟨s,ran⟩ := Option.isSome_iff_exists.mp runs
  have once : ∀ act ∈ reloaded, act.asksOnce := by simp [reloaded,Action.asksOnce]
  obtain ⟨later,final,rested⟩ := comesToRest ran once
  exact ⟨s,later,final,ran,rested⟩

example : ((run (step nextAddress) (.start ["cities"] 1 noBlocks) reloaded).bind (fun s => s.loadOn)).isNone = true := by
  decide +kernel

end Cities

end NimbleNet.FeatureLocks
