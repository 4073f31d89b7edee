import NimbleNet.LogSuffix
import NimbleNet.UserEventsStruct

/-! The five aggregate columns. A column owns its bookkeeping and writes one cell
of the feature vector of its group, so each operation maps the column and the
cell to the column and the cell. A read of `allEvents` outside the vector is
undefined behaviour and is decided by `readsInside`. -/
namespace NimbleNet.AggregateColumn
open LogSuffix

inductive ColumnKind where
  | sum | count | min | max | average
  deriving DecidableEq, Repr

def kindOfOperator : String → Option ColumnKind
  | "Sum" => some .sum
  | "Count" => some .count
  | "Min" => some .min
  | "Max" => some .max
  | "Avg" => some .average
  | _ => none

structure ColumnConfig (T : Type) where
  kind : ColumnKind
  preprocessorId : Nat
  columnId : Nat
  group : String
  storeSlot : Nat
  defaultValue : T
  deriving DecidableEq, Repr

structure Column (T : Type) where
  config : ColumnConfig T
  totalCount : Int
  oldestIndex : Int
  sum : T
  deriving DecidableEq, Repr

variable {T : Type} [Scalar T]

namespace ColumnConfig

def inGroup (config : ColumnConfig T) (e : TableEvent) : Bool :=
  e.groupAt config.preprocessorId == config.group

def valueOf (config : ColumnConfig T) (e : TableEvent) : T :=
  Scalar.getAs (e.columnAt config.columnId)

end ColumnConfig

-- `_defaultValue = *storePtr`
def create (kind : ColumnKind) (preprocessorId columnId : Nat) (group : String) (storeSlot : Nat)
    (stored : T) : Column T :=
  ⟨⟨kind,preprocessorId,columnId,group,storeSlot,stored⟩,0,-1,0⟩

def addWith (first : T → T) (later : T → T → T) (col : Column T) (stored : T)
    (event : TableEvent) (newEventIndex : Nat) : Column T × T :=
  if col.config.inGroup event then
    let counted := {col with totalCount := col.totalCount + 1}
    if col.oldestIndex = -1 then
      ({counted with oldestIndex := newEventIndex},first (col.config.valueOf event))
    else (counted,later stored (col.config.valueOf event))
  else (col,stored)

def indices (start stop : Int) : List Int :=
  (List.range (stop - start).toNat).map (fun k : Nat => start + (k : Int))

def eventAt (allEvents : List TableEvent) (i : Int) : TableEvent := allEvents.getD i.toNat default

def retireWith (retire : Column T → T → T → Column T × T) (allEvents : List TableEvent)
    (range : List Int) (state : Column T × T) : Column T × T :=
  range.foldl (fun (col,stored) i =>
    let event := eventAt allEvents i
    if col.config.inGroup event then retire col stored (col.config.valueOf event) else (col,stored)) state

def removeWith (retire : Column T → T → T → Column T × T) (settle : Column T → T → T)
    (col : Column T) (stored : T) (allEvents : List TableEvent) (oldestValidIndex : Int) : Column T × T :=
  let (left,value) := retireWith retire allEvents (indices col.oldestIndex oldestValidIndex) (col,stored)
  if left.totalCount = 0 then ({left with oldestIndex := -1, sum := 0},left.config.defaultValue)
  else ({left with oldestIndex := oldestValidIndex},settle left value)

namespace SumColumn

def addEvent : Column T → T → TableEvent → Nat → Column T × T := addWith id (· + ·)

def retire (col : Column T) (stored value : T) : Column T × T :=
  ({col with totalCount := col.totalCount - 1},stored - value)

def removeEvents : Column T → T → List TableEvent → Int → Column T × T :=
  removeWith retire (fun _ stored => stored)

end SumColumn

namespace CountColumn

def addEvent : Column T → T → TableEvent → Nat → Column T × T := addWith (fun _ => 1) (fun stored _ => stored + 1)

def retire (col : Column T) (stored _value : T) : Column T × T :=
  ({col with totalCount := col.totalCount - 1},stored - 1)

def removeEvents : Column T → T → List TableEvent → Int → Column T × T :=
  removeWith retire (fun _ stored => stored)

end CountColumn

namespace AverageColumn

def addEvent (col : Column T) (stored : T) (event : TableEvent) (newEventIndex : Nat) : Column T × T :=
  if col.config.inGroup event then
    let total := col.totalCount + 1
    let oldest := if col.oldestIndex = -1 then (newEventIndex : Int) else col.oldestIndex
    let sum := col.sum + col.config.valueOf event
    (⟨col.config,total,oldest,sum⟩,Scalar.divCount sum total)
  else (col,stored)

def retire (col : Column T) (stored value : T) : Column T × T :=
  ({col with totalCount := col.totalCount - 1, sum := col.sum - value},stored)

def removeEvents : Column T → T → List TableEvent → Int → Column T × T :=
  removeWith retire (fun col _ => Scalar.divCount col.sum col.totalCount)

end AverageColumn

namespace ExtremeColumn
variable (pick : T → T → T)

/- The loop of remove_events. `i` is compared with `allEvents.size()` as an
unsigned number, so a negative index ends it. On meeting the stored extreme it
restarts at `oldestValidIndex` and counts the live events afresh. -/
def removeLoop (allEvents : List TableEvent) (oldestValidIndex : Int) (i : Int) (isChanged : Bool)
    (col : Column T) (stored : T) : Column T × T :=
  if inside : 0 ≤ i ∧ i < allEvents.length then
    if isChanged = false ∧ oldestValidIndex ≤ i then (col,stored)
    else
      let event := eventAt allEvents i
      if col.config.inGroup event then
        let value := col.config.valueOf event
        if isChanged then
          if col.totalCount = 0 then
            removeLoop allEvents oldestValidIndex (i + 1) isChanged
              {col with totalCount := col.totalCount + 1, oldestIndex := i} value
          else
            removeLoop allEvents oldestValidIndex (i + 1) isChanged
              {col with totalCount := col.totalCount + 1} (pick stored value)
        else if value = stored then
          removeLoop allEvents oldestValidIndex (oldestValidIndex - 1 + 1) true
            {col with totalCount := 0} col.config.defaultValue
        else
          removeLoop allEvents oldestValidIndex (i + 1) isChanged
            {col with totalCount := col.totalCount - 1} stored
      else removeLoop allEvents oldestValidIndex (i + 1) isChanged col stored
  else (col,stored)
termination_by (if isChanged then 0 else 1, (allEvents.length - i).toNat)
decreasing_by all_goals simp_all [Prod.lex_def]; try omega

def removeEvents (col : Column T) (stored : T) (allEvents : List TableEvent) (oldestValidIndex : Int) :
    Column T × T :=
  let (left,value) := removeLoop pick allEvents oldestValidIndex col.oldestIndex false col stored
  if left.totalCount = 0 then ({left with oldestIndex := -1},left.config.defaultValue)
  else ({left with oldestIndex := oldestValidIndex},value)

end ExtremeColumn

namespace MaxColumn
def addEvent : Column T → T → TableEvent → Nat → Column T × T := addWith id max
def removeEvents : Column T → T → List TableEvent → Int → Column T × T := ExtremeColumn.removeEvents max
end MaxColumn

namespace MinColumn
def addEvent : Column T → T → TableEvent → Nat → Column T × T := addWith id min
def removeEvents : Column T → T → List TableEvent → Int → Column T × T := ExtremeColumn.removeEvents min
end MinColumn

def addEvent (col : Column T) : T → TableEvent → Nat → Column T × T :=
  match col.config.kind with
  | .sum => SumColumn.addEvent col
  | .count => CountColumn.addEvent col
  | .min => MinColumn.addEvent col
  | .max => MaxColumn.addEvent col
  | .average => AverageColumn.addEvent col

def removeEvents (col : Column T) : T → List TableEvent → Int → Column T × T :=
  match col.config.kind with
  | .sum => SumColumn.removeEvents col
  | .count => CountColumn.removeEvents col
  | .min => MinColumn.removeEvents col
  | .max => MaxColumn.removeEvents col
  | .average => AverageColumn.removeEvents col

/- Every index at which remove_events reads `allEvents` is an index of it. The
loop of a Min or Max column tests the index itself. -/
def readsInside (col : Column T) (size : Nat) (oldestValidIndex : Int) : Prop :=
  col.config.kind = .min ∨ col.config.kind = .max ∨
    ∀ i ∈ indices col.oldestIndex oldestValidIndex, 0 ≤ i ∧ i < size
instance (col : Column T) (size oldestValidIndex) : Decidable (readsInside col size oldestValidIndex) := by
  unfold readsInside; infer_instance

end NimbleNet.AggregateColumn
