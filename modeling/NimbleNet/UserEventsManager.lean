import NimbleNet.TableStore

/-! The manager routes events and requests to the table stores. SQLite, the JSON
parser and printer and the clock are arguments: `exec` is what sqlite3_exec
answers to a statement, `select` what a query delivers to its callback. Creating
the database tables is not modelled here. -/
namespace NimbleNet

structure UserEventsManager (V : ElementType → Type) where
  tableStoreMap : StdMap (TableStore V)
  modelInputToTableNameMap : StdMap String

structure SelectResult where
  rows : List (List (String × Option String))
  isOk : Bool

namespace UserEventsManager
variable {V : ElementType → Type} [∀ d, Scalar (V d)]

-- `std::stoll`: at least one digit must follow the blanks and the sign
def stoll (text : String) : Option Int :=
  let digits := match text.toList.dropWhile isSpace with
    | '-' :: rest => rest
    | '+' :: rest => rest
    | rest => rest
  let value := leadingInt text.toList
  if digits.headD ' ' |>.isDigit then
    if -2 ^ 63 ≤ value ∧ value < 2 ^ 63 then some value else none
  else none

/- The cells of one delivered row; a null TIMESTAMP or one that stoll rejects ends
the callback with an exception. -/
def readCells (cells : List (String × Option String)) : Option (Option Int × StdMap String) :=
  cells.foldlM (fun (timestamp,row) (name,value) =>
    if name = "TIMESTAMP" then (value.bind stoll).map (fun t => (some t,row))
    else some (timestamp,row.insert name (value.getD "NULL"))) (none,∅)

def addRowsToTableStore (clock : Nat → Nat → Int) (tableStore : TableStore V)
    (cells : List (String × Option String)) : Option (TableStore V) := do
  let (timestamp,row) ← readCells cells
  match timestamp with
  | some t => some (tableStore.addRow clock ⟨t,row⟩)
  | none => some tableStore

def deliver (clock : Nat → Nat → Nat → Int) :
    Nat → TableStore V → List (List (String × Option String)) → Option (TableStore V)
  | _,tableStore,[] => some tableStore
  | r,tableStore,cells :: rest => do
      let tableStore' ← addRowsToTableStore (clock r) tableStore cells
      deliver clock (r + 1) tableStore' rest

def selectAll (tableName : String) : String := "SELECT * from " ++ tableName ++ " ORDER BY TIMESTAMP"

structure FillClock where
  rows : Nat → Nat → Nat → Int
  events : Nat → Nat → Int

/- From the point where the table is filled: the route is set first. -/
def registerPreprocessor (clock : Nat → Nat → Int) (m : UserEventsManager V) (d : ElementType)
    (modelInputIdentifier : String) (info : PreProcessorInfo (V d)) (tableStore : TableStore V) :
    UserEventsManager V × Bool :=
  let (tableStore',ret) := tableStore.createPreprocessor clock d modelInputIdentifier info
  (⟨m.tableStoreMap.insert info.tableName tableStore',
    m.modelInputToTableNameMap.insert modelInputIdentifier info.tableName⟩,ret)

def createPreprocessor (clock : FillClock) (select : String → SelectResult) (m : UserEventsManager V) (d : ElementType)
    (modelInputIdentifier : String) (preprocessorJson : Json) : Option (UserEventsManager V × Bool) :=
  match PreProcessorInfo.fromJson preprocessorJson with
  | none => some (m,false)
  | some info =>
      match m.tableStoreMap[info.tableName]? with
      | none => some (m,false)
      | some tableStore =>
          if tableStore.isReadyToBeFilled then
            some (m.registerPreprocessor clock.events d modelInputIdentifier info tableStore)
          else do
            let result := select (selectAll info.tableName)
            let filled ← deliver clock.rows 0 tableStore.setToFillInMemory result.rows
            if result.isOk then some (m.registerPreprocessor clock.events d modelInputIdentifier info filled)
            else some ({m with tableStoreMap := m.tableStoreMap.insert info.tableName filled},false)

section AddEvent
variable (dump : Json → String)

def getValueAsString : Json → String
  | .string s => s
  | j => dump j

/- The loop over the items of the event: for each the key and the text of its
value; `none` is the type_error of `eventMapTable[key]`. -/
def columnsOfEvent (eventMap : Json) : Option (List (String × String)) :=
  eventMap.items.mapM (fun (key,_) => (eventMap.member key).map (fun value => (key,getValueAsString dump value)))

-- what "%s" prints of `c_str()`
def cString (s : String) : String := String.ofList (s.toList.takeWhile (· ≠ '\x00'))

def insertCommand (tableName : String) (now : Int) (columns : List (String × String)) : String :=
  let tableColumnFields := columns.foldl (fun text (key,_) => text ++ (" ," ++ key ++ " ")) ""
  let tableValueFields := columns.foldl (fun text (_,value) => text ++ (", '" ++ value ++ "' ")) ""
  "INSERT INTO " ++ cString tableName ++ " (TIMESTAMP " ++ cString tableColumnFields ++ ") VALUES ('" ++ toString now ++
    "' " ++ cString tableValueFields ++ ");"

inductive AddEventResult (V : ElementType → Type) where
  | threw
  | returned (ok : Bool) (m : UserEventsManager V)

/- `stamp` and `insertTime` are the two readings of time(NULL): the first goes to
the row kept in memory, the second into the statement. -/
def addEvent (parse : String → Option Json) (exec : String → Bool) (clock : Nat → Nat → Int) (stamp insertTime : Int)
    (m : UserEventsManager V) (eventMapJsonString tableName : String) : AddEventResult V :=
  match m.tableStoreMap[tableName]? with
  | none => .returned false m
  | some tableStore =>
      match parse eventMapJsonString with
      | none => .returned false m
      | some eventMapTable =>
          match columnsOfEvent dump eventMapTable with
          | none => .threw
          | some columns =>
              let r : TableRow := ⟨stamp,columns.foldl (fun row (key,value) => row.insert key value) ∅⟩
              if !tableStore.checkColumnsOfRow r then .returned false m
              else if exec (insertCommand tableName insertTime columns) then
                .returned true {m with tableStoreMap := m.tableStoreMap.insert tableName (tableStore.addRow clock r)}
              else .returned false m

end AddEvent

def getModelInput (clock : Nat → Nat → Int) (m : UserEventsManager V) (modelInputIdentifier : String)
    (preprocessorInput : List (List (String × String))) : Option (UserEventsManager V × Option (AnyModelInput V)) :=
  match m.modelInputToTableNameMap[modelInputIdentifier]? with
  | none => some (m,none)
  | some tableName =>
      match m.tableStoreMap[tableName]? with
      | none => some (m,none)
      | some tableStore => do
          let (tableStore',result) ← tableStore.getModelInput clock modelInputIdentifier preprocessorInput
          some ({m with tableStoreMap := m.tableStoreMap.insert tableName tableStore'},result)

end UserEventsManager
end NimbleNet
