import NimbleNet.PreProcessor

/-! The in-memory store of one table: its events and the preprocessors fed with
them. `V` gives the values of each element type. The dispatch through
BasePreProcessor is a pair of an element type and a preprocessor over it. -/
namespace NimbleNet

structure AnyPreProcessor (V : ElementType → Type) where
  elementType : ElementType
  preprocessor : PreProcessor (V elementType)

structure AnyModelInput (V : ElementType → Type) where
  elementType : ElementType
  input : ModelInput (V elementType)

structure TableStore (V : ElementType → Type) where
  tableName : String
  allEvents : List TableEvent
  preprocessors : List (AnyPreProcessor V)
  modelInputPreprocessorIdMap : StdMap Nat
  columnToIdMap : StdMap Nat
  columns : List String
  tableInfo : TableInfo
  isReadyToBeFilled : Bool

namespace TableStore
variable {V : ElementType → Type} [∀ d, Scalar (V d)]

-- The ids count the keys of the schema in the order of the map.
def new (tableInfo : TableInfo) : TableStore V where
  tableName := tableInfo.name
  allEvents := []
  preprocessors := []
  modelInputPreprocessorIdMap := ∅
  columnToIdMap := .ofList tableInfo.schema.keys.zipIdx
  columns := tableInfo.schema.keys
  tableInfo := tableInfo
  isReadyToBeFilled := false

def setToFillInMemory (s : TableStore V) : TableStore V := {s with isReadyToBeFilled := true}

def checkColumnsOfRow (s : TableStore V) (r : TableRow) : Bool :=
  r.row.keys.all (s.columnToIdMap.contains ·) && s.columnToIdMap.keys.all (r.row.contains ·)

/- The loop over the preprocessors, from the j-th on: each appends the event's
group key under it and takes the event in. -/
def feed (clock : Nat → Nat → Int) (index : Nat) :
    Nat → List (AnyPreProcessor V) → TableEvent → List (AnyPreProcessor V) × TableEvent
  | _,[],e => ([],e)
  | j,⟨d,p⟩ :: rest,e =>
      let e' := {e with groups := e.groups ++ [p.getGroupFromEvent e]}
      let (rest',e'') := feed clock index (j + 1) rest e'
      (⟨d,p.addEvent (clock j) e' index⟩ :: rest',e'')

-- `clock j i`: the reading made by the i-th window of the j-th preprocessor
def addRow (clock : Nat → Nat → Int) (s : TableStore V) (r : TableRow) : TableStore V :=
  if !s.isReadyToBeFilled then s
  else if !r.row.keys.all (s.columnToIdMap.contains ·) then s
  else
    let e : TableEvent := ⟨[],r.timestamp,r.row.toList.map Prod.snd⟩
    let (preprocessors,e') := feed clock s.allEvents.length 0 s.preprocessors e
    {s with allEvents := s.allEvents ++ [e'], preprocessors := preprocessors}

-- `transform(.., ::tolower)` and `find("varchar") != npos`
def isVarchar (dataType : String) : Bool := "varchar".toList <:+: dataType.toLower.toList

def columnIdFor {T : Type} (s : TableStore V) (operation : Operation T) : Option Nat :=
  match s.columnToIdMap[operation.columnName]? with
  | none => none
  | some columnId =>
      if operation.operator ≠ "Count" ∧ isVarchar (s.tableInfo.schema.getD operation.columnName "") then none
      else some columnId

def backfill {T : Type} [Scalar T] (clock : Nat → Nat → Int) :
    Nat → PreProcessor T → List TableEvent → PreProcessor T × List TableEvent
  | _,p,[] => (p,[])
  | i,p,e :: rest =>
      let e' := {e with groups := e.groups ++ [p.getGroupFromEvent e]}
      let (p',rest') := backfill clock (i + 1) (p.addEvent (clock i) e' i) rest
      (p',e' :: rest')

-- `clock i w`: the reading made by the w-th window for the i-th event
def createPreprocessor (clock : Nat → Nat → Int) (s : TableStore V) (d : ElementType) (modelInputIdentifier : String)
    (info : PreProcessorInfo (V d)) : TableStore V × Bool :=
  match info.groupColumns.mapM (s.columnToIdMap[·]?),info.operations.mapM s.columnIdFor with
  | some groupIds,some columnIds =>
      let newPreprocessorId := s.preprocessors.length
      let (p,allEvents) := backfill clock 0 (PreProcessor.new newPreprocessorId info groupIds columnIds) s.allEvents
      ({s with
        allEvents := allEvents,
        modelInputPreprocessorIdMap := s.modelInputPreprocessorIdMap.insert modelInputIdentifier newPreprocessorId,
        preprocessors := s.preprocessors ++ [⟨d,p⟩]},true)
  | _,_ => (s,false)

/- One request row: later keys win, keys that are no columns are skipped. -/
def rowOfInput (s : TableStore V) (input : List (String × String)) : List (Option String) :=
  input.foldl (fun row (key,value) =>
    match s.columnToIdMap[key]? with
    | none => row
    | some columnIndex => row.set columnIndex (some value)) (List.replicate s.columns.length none)

def groupOfInput {T : Type} [Scalar T] (s : TableStore V) (p : PreProcessor T) (input : List (String × String)) :
    Option String :=
  let group := p.getGroupFromRow (s.rowOfInput input)
  if group = "" then none else some group

def getModelInput (clock : Nat → Nat → Int) (s : TableStore V) (modelInputIdentifier : String)
    (preprocessorInput : List (List (String × String))) : Option (TableStore V × Option (AnyModelInput V)) :=
  match s.modelInputPreprocessorIdMap[modelInputIdentifier]? with
  | none => some (s,none)
  | some preprocessorIndex => do
      let ⟨d,p⟩ ← s.preprocessors[preprocessorIndex]?
      match preprocessorInput.mapM (s.groupOfInput p) with
      | none => some (s,none)
      | some groups => do
          let (p',result) ← p.getModelInput clock groups s.allEvents
          some ({s with preprocessors := s.preprocessors.set preprocessorIndex ⟨d,p'⟩},result.map (⟨d,·⟩))

theorem modelInputCases {clock : Nat → Nat → Int} {s s' : TableStore V} {name : String}
    {rows : List (List (String × String))} {result : Option (AnyModelInput V)}
    (ok : s.getModelInput clock name rows = some (s',result)) :
    (s.modelInputPreprocessorIdMap[name]? = none ∧ s' = s ∧ result = none) ∨
    ∃ i d p, s.modelInputPreprocessorIdMap[name]? = some i ∧ s.preprocessors[i]? = some ⟨d,p⟩ ∧
      ((rows.mapM (s.groupOfInput p) = none ∧ s' = s ∧ result = none) ∨
      ∃ groups p' made, rows.mapM (s.groupOfInput p) = some groups ∧
        p.getModelInput clock groups s.allEvents = some (p',made) ∧
        s' = {s with preprocessors := s.preprocessors.set i ⟨d,p'⟩} ∧ result = made.map (⟨d,·⟩)) := by
  unfold getModelInput at ok
  split at ok
  · rename_i unknown
    cases ok
    exact .inl ⟨unknown,rfl,rfl⟩
  · rename_i i route
    simp only [bind,Option.bind_eq_some_iff] at ok
    obtain ⟨⟨d,p⟩,here,ok⟩ := ok
    refine .inr ⟨i,d,p,route,here,?_⟩
    split at ok
    · rename_i missing
      cases ok
      exact .inl ⟨missing,rfl,rfl⟩
    · rename_i groups keys
      obtain ⟨⟨p',made⟩,ran,ok⟩ := Option.bind_eq_some_iff.mp ok
      cases ok
      exact .inr ⟨groups,p',made,keys,ran,rfl,rfl⟩

end TableStore
end NimbleNet
