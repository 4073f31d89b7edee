import NimbleNet.AggregateColumn

/-! A time-based rolling window: for every group one list of aggregate columns,
writing into the feature vector of that group. `time(NULL)` is read afresh for
every event that is looked at, so a reading is a function of the index. -/
namespace NimbleNet
open AggregateColumn MachineNumbers

structure RollingWindow (T : Type) where
  preprocessorId : Nat
  preprocessorInfo : PreProcessorInfo T
  groupWiseAggregatedColumnMap : StdMap (List (Column T))
  oldestIndex : Int
  windowTime : ℚ

namespace RollingWindow
variable {T : Type} [Scalar T]

def new (preprocessorId : Nat) (info : PreProcessorInfo T) (windowTime : ℚ) : RollingWindow T :=
  ⟨preprocessorId,info,∅,-1,windowTime⟩

-- `time(NULL) - timestamp > _windowTime`, compared as floats
def expired (now timestamp : Int) (windowTime : ℚ) : Bool := windowTime < toFloat32 (now - timestamp : Int)

/- The columns of one group from the i-th operator on; an unknown operator ends
the loop with the columns made so far. -/
def createColumns (preprocessorId : Nat) (group : String) (columnIds : List Nat) (features : List T) (start : Nat) :
    Nat → List (Operation T) → List (Column T) × Bool
  | _,[] => ([],true)
  | i,operation :: rest =>
      match kindOfOperator operation.operator with
      | none => ([],false)
      | some kind =>
          let (columns,isSuccess) := createColumns preprocessorId group columnIds features start (i + 1) rest
          (create kind preprocessorId (columnIds.getD i 0) group (start + i) (features.getD (start + i) 0) :: columns,
            isSuccess)

def createAggregateColumnsForGroup (window : RollingWindow T) (group : String) (columnIds : List Nat)
    (features : List T) (start : Nat) : RollingWindow T × Bool :=
  let (columns,isSuccess) :=
    createColumns window.preprocessorId group columnIds features start 0 window.preprocessorInfo.operations
  ({window with groupWiseAggregatedColumnMap := window.groupWiseAggregatedColumnMap.insert group columns},isSuccess)

def overColumns (op : Column T → T → Column T × T) : List (Column T) → List T → List (Column T) × List T
  | [],features => ([],features)
  | col :: rest,features =>
      let (col',cell) := op col (features.getD col.config.storeSlot 0)
      let (rest',features') := overColumns op rest (features.set col.config.storeSlot cell)
      (col' :: rest',features')

def addEvent (now : Int) (window : RollingWindow T) (features : StdMap (List T)) (event : TableEvent)
    (newEventIndex : Nat) : RollingWindow T × StdMap (List T) :=
  if expired now event.timestamp window.windowTime then (window,features)
  else
    let group := event.groupAt window.preprocessorId
    let oldest := if window.oldestIndex = -1 then (newEventIndex : Int) else window.oldestIndex
    let (columns,cells) := overColumns (fun col stored => AggregateColumn.addEvent col stored event newEventIndex)
      (window.groupWiseAggregatedColumnMap.getD group []) (features.getD group [])
    ({window with
        oldestIndex := oldest,
        groupWiseAggregatedColumnMap := window.groupWiseAggregatedColumnMap.insert group columns},
      features.insert group cells)

/- The loop of update_window from index `i` on: the new oldest index, and whether
the loop came to the end of the events. -/
def scan (clock : Nat → Int) (windowTime : ℚ) : Nat → List TableEvent → Nat × Bool
  | i,[] => (i,true)
  | i,event :: rest => if expired (clock i) event.timestamp windowTime then scan clock windowTime (i + 1) rest else (i,false)

def removeFromGroup (allEvents : List TableEvent) (oldest : Int) :
    List (Column T) → List T → List (Column T) × List T :=
  overColumns (fun col stored => AggregateColumn.removeEvents col stored allEvents oldest)

/- The loop over all groups. The groups have separate feature vectors, so each
is treated alone. `none`: some column reads outside `allEvents`. -/
def removeFromAll (window : RollingWindow T) (features : StdMap (List T)) (allEvents : List TableEvent) (oldest : Int) :
    Option (RollingWindow T × StdMap (List T)) :=
  let columnMap := window.groupWiseAggregatedColumnMap
  if columnMap.toList.all (fun (_,columns) => columns.all (fun col => readsInside col allEvents.length oldest)) then
    some ({window with
        oldestIndex := oldest,
        groupWiseAggregatedColumnMap := columnMap.map (fun group columns =>
          (removeFromGroup allEvents oldest columns (features.getD group [])).1)},
      features.map (fun group cells => (removeFromGroup allEvents oldest (columnMap.getD group []) cells).2))
  else none

/- `i < allEvents.size()` is an unsigned comparison: from -1 the loop is skipped.
A live event ends the whole function. -/
def updateWindow (clock : Nat → Int) (window : RollingWindow T) (features : StdMap (List T))
    (allEvents : List TableEvent) : Option (RollingWindow T × StdMap (List T)) :=
  if window.oldestIndex < 0 then removeFromAll window features allEvents window.oldestIndex
  else
    let start := window.oldestIndex.toNat
    match scan clock window.windowTime start (allEvents.drop start) with
    | (oldest,false) => some ({window with oldestIndex := oldest},features)
    | (oldest,true) => removeFromAll window features allEvents oldest

end RollingWindow

section OverColumns
open RollingWindow
variable {T : Type} [Scalar T] {op : Column T → T → Column T × T}

theorem overColumnsLength (columns : List (Column T)) (features : List T) :
    (overColumns op columns features).2.length = features.length := by
  induction columns generalizing features with
  | nil => rfl
  | cons col rest ih => simp only [overColumns,ih,List.length_set]

theorem overColumnsFrame {slot : Nat} {columns : List (Column T)} (other : ∀ col ∈ columns, col.config.storeSlot ≠ slot)
    (features : List T) : (overColumns op columns features).2.getD slot 0 = features.getD slot 0 := by
  induction columns generalizing features with
  | nil => rfl
  | cons col rest ih =>
      have here := other col List.mem_cons_self
      simp only [overColumns,ih (fun c h => other c (List.mem_cons_of_mem _ h)),List.getD_eq_getElem?_getD]
      rw [List.getElem?_set_ne here]

def separate (columns : List (Column T)) : Prop := (columns.map (fun col => col.config.storeSlot)).Nodup

theorem overColumnsColumns {columns : List (Column T)} (apart : separate columns) (features : List T) :
    (overColumns op columns features).1 =
      columns.map (fun col => (op col (features.getD col.config.storeSlot 0)).1) := by
  induction columns generalizing features with
  | nil => rfl
  | cons col rest ih =>
      have ⟨fresh,tail⟩ := List.nodup_cons.mp apart
      simp only [overColumns,List.map_cons,ih tail,List.cons.injEq,true_and]
      refine List.map_congr_left (fun c member => ?_)
      have other : col.config.storeSlot ≠ c.config.storeSlot := fun same =>
        fresh (List.mem_map.mpr ⟨c,member,same.symm⟩)
      simp only [List.getD_eq_getElem?_getD,List.getElem?_set_ne other]

theorem overColumnsCell {columns : List (Column T)} (apart : separate columns) {features : List T}
    {col : Column T} (member : col ∈ columns) (inside : col.config.storeSlot < features.length) :
    (overColumns op columns features).2.getD col.config.storeSlot 0 =
      (op col (features.getD col.config.storeSlot 0)).2 := by
  induction columns generalizing features with
  | nil => cases member
  | cons first rest ih =>
      have ⟨fresh,tail⟩ := List.nodup_cons.mp apart
      have others : ∀ c ∈ rest, c.config.storeSlot ≠ first.config.storeSlot := fun c h same =>
        fresh (List.mem_map.mpr ⟨c,h,same⟩)
      simp only [overColumns]
      rcases List.mem_cons.mp member with rfl | later
      · rw [overColumnsFrame others]
        simp [List.getD_eq_getElem?_getD,inside]
      · rw [ih tail later (by simpa using inside)]
        simp only [List.getD_eq_getElem?_getD,List.getElem?_set_ne (others col later).symm]

end OverColumns

end NimbleNet
