import NimbleNet.RollingWindow

/-! A preprocessor: for every group one feature vector, kept by the rolling windows
one after the other. A group key is built from an event of the table or from a
request. -/
namespace NimbleNet
open AggregateColumn

structure PreProcessor (T : Type) where
  id : Nat
  groupIds : List Nat
  columnIds : List Nat
  isUseless : Bool
  info : PreProcessorInfo T
  defaultFeature : List T
  rollingWindows : List (RollingWindow T)
  groupWiseFeatureMap : StdMap (List T)

namespace PreProcessor
variable {T : Type} [Scalar T]

def defaultFeatureOf (info : PreProcessorInfo T) : List T :=
  (List.range (info.rollingWindowsInSecs.length * info.columnsToAggregate.length)).map
    (fun i => info.defaultVector.getD (i % info.columnsToAggregate.length) 0)

def new (id : Nat) (info : PreProcessorInfo T) (groupIds columnIds : List Nat) : PreProcessor T where
  id := id
  groupIds := groupIds
  columnIds := columnIds
  isUseless := false
  info := info
  defaultFeature := defaultFeatureOf info
  rollingWindows := info.rollingWindowsInSecs.map (RollingWindow.new id info)
  groupWiseFeatureMap := ∅

def getGroupFromEvent (p : PreProcessor T) (e : TableEvent) : String :=
  p.groupIds.foldl (fun group groupId => group ++ (e.columnAt groupId ++ "+")) ""

/- A cell of the row is `none` when the request left the column out. -/
def getGroupFromRow (p : PreProcessor T) (row : List (Option String)) : String :=
  (p.groupIds.foldlM (fun group groupId => ((row.getD groupId none).map (fun value => group ++ (value ++ "+")))) "").getD ""

def createColumnsForGroup (p : PreProcessor T) (group : String) :
    Nat → List (RollingWindow T) → List (RollingWindow T) × Bool
  | _,[] => ([],true)
  | i,window :: rest =>
      let (window',isSuccess) := window.createAggregateColumnsForGroup group p.columnIds p.defaultFeature
        (i * p.info.columnsToAggregate.length)
      let (rest',others) := createColumnsForGroup p group (i + 1) rest
      (window' :: rest',isSuccess && others)

def openGroup (p : PreProcessor T) (group : String) : PreProcessor T :=
  if p.groupWiseFeatureMap.contains group then p
  else
    let (windows,isSuccess) := createColumnsForGroup p group 0 p.rollingWindows
    {p with
      groupWiseFeatureMap := p.groupWiseFeatureMap.insert group p.defaultFeature,
      rollingWindows := windows,
      isUseless := p.isUseless || !isSuccess}

def addToWindows (clock : Nat → Int) (event : TableEvent) (newEventIndex : Nat) :
    Nat → List (RollingWindow T) → StdMap (List T) → List (RollingWindow T) × StdMap (List T)
  | _,[],features => ([],features)
  | i,window :: rest,features =>
      let (window',features') := window.addEvent (clock i) features event newEventIndex
      let (rest',features'') := addToWindows clock event newEventIndex (i + 1) rest features'
      (window' :: rest',features'')

-- `clock i`: the reading made by the i-th window
def addEvent (clock : Nat → Int) (p : PreProcessor T) (event : TableEvent) (newEventIndex : Nat) : PreProcessor T :=
  let p := p.openGroup (event.groupAt p.id)
  let (windows,features) := addToWindows clock event newEventIndex 0 p.rollingWindows p.groupWiseFeatureMap
  {p with rollingWindows := windows, groupWiseFeatureMap := features}

def updateWindows (clock : Nat → Nat → Int) (allEvents : List TableEvent) :
    Nat → List (RollingWindow T) → StdMap (List T) → Option (List (RollingWindow T) × StdMap (List T))
  | _,[],features => some ([],features)
  | i,window :: rest,features => do
      let (window',features') ← window.updateWindow (clock i) features allEvents
      let (rest',features'') ← updateWindows clock allEvents (i + 1) rest features'
      some (window' :: rest',features'')

/- `clock i j`: the reading the i-th window makes for the j-th event. The outer
`none` is undefined behaviour, the inner one the null pointer. The buffer's
element count is narrowed to an int. -/
def getModelInput (clock : Nat → Nat → Int) (p : PreProcessor T) (groups : List String)
    (allEvents : List TableEvent) : Option (PreProcessor T × Option (ModelInput T)) :=
  if p.isUseless then some (p,none)
  else do
    let (windows,features) ← updateWindows clock allEvents 0 p.rollingWindows p.groupWiseFeatureMap
    let inputData := groups.flatMap (fun group => features.getD group p.defaultFeature)
    some ({p with rollingWindows := windows, groupWiseFeatureMap := features},
      some ⟨inputData,MachineNumbers.wrap32 (groups.length * p.defaultFeature.length)⟩)

theorem modelInputEnds {clock : Nat → Nat → Int} {p p' : PreProcessor T} {groups : List String}
    {allEvents : List TableEvent} {result : Option (ModelInput T)}
    (ok : p.getModelInput clock groups allEvents = some (p',result)) :
    (p.isUseless = true ∧ p' = p ∧ result = none) ∨
    (p.isUseless = false ∧ ∃ windows features,
      updateWindows clock allEvents 0 p.rollingWindows p.groupWiseFeatureMap = some (windows,features) ∧
      p' = {p with rollingWindows := windows, groupWiseFeatureMap := features} ∧
      result = some ⟨groups.flatMap (fun group => features.getD group p.defaultFeature),
        MachineNumbers.wrap32 (groups.length * p.defaultFeature.length)⟩) := by
  unfold getModelInput at ok
  split at ok
  · rename_i useless
    cases ok
    exact .inl ⟨useless,rfl,rfl⟩
  · rename_i useful
    simp only [bind,Option.bind_eq_some_iff] at ok
    obtain ⟨⟨windows,features⟩,ran,ok⟩ := ok
    cases ok
    exact .inr ⟨Bool.not_eq_true _ ▸ useful,windows,features,ran,rfl,rfl⟩

end PreProcessor
end NimbleNet
