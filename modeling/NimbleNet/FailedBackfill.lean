import NimbleNet.TableFilling

/-! What a create_preprocessor that returns false leaves behind: the flag of the table,
the events that the SELECT delivered before it failed, and the route of the model
input. -/
namespace NimbleNet.FailedBackfill
open TableFilling UserEventsManager

variable {V : ElementType → Type} [∀ d, Scalar (V d)]

def filling (m : UserEventsManager V) (tableName : String) : Option (Bool × List TableEvent) :=
  m.tableStoreMap[tableName]?.map (fun s => (s.isReadyToBeFilled,s.allEvents))

def AsBefore (m m' : UserEventsManager V) : Prop :=
  (∀ tableName, filling m' tableName = filling m tableName) ∧ m'.modelInputToTableNameMap = m.modelInputToTableNameMap

/- The call does not come to the table, or the table was filled already and the model
input has its route to it. -/
def LeavesAlone (m : UserEventsManager V) (d : ElementType) (modelInputIdentifier : String) (preprocessorJson : Json) : Prop :=
  ∀ info : PreProcessorInfo (V d), PreProcessorInfo.fromJson preprocessorJson = some info →
    ∀ tableStore, m.tableStoreMap[info.tableName]? = some tableStore →
      tableStore.isReadyToBeFilled = true ∧ m.modelInputToTableNameMap[modelInputIdentifier]? = some info.tableName

theorem createRefused {clock : Nat → Nat → Int} {s : TableStore V} {d : ElementType} {name : String}
    {info : PreProcessorInfo (V d)} (refused : (s.createPreprocessor clock d name info).2 = false) :
    (s.createPreprocessor clock d name info).1 = s := by
  unfold TableStore.createPreprocessor at refused ⊢
  split
  · rename_i groups columns
    simp only [groups,columns] at refused
    contradiction
  · rfl

theorem deliverReady {clock : Nat → Nat → Nat → Int} {r : Nat} {s filled : TableStore V}
    {rows : List (List (String × Option String))} (delivered : deliver clock r s rows = some filled) :
    filled.isReadyToBeFilled = s.isReadyToBeFilled := by
  induction rows generalizing r s with
  | nil =>
      cases delivered
      rfl
  | cons cells rest ih =>
      simp only [deliver,bind,Option.bind_eq_some_iff] at delivered
      obtain ⟨s',added,later⟩ := delivered
      refine (ih later).trans ?_
      simp only [addRowsToTableStore,bind,Option.bind_eq_some_iff] at added
      obtain ⟨⟨timestamp,row⟩,_,added⟩ := added
      cases timestamp with
      | none =>
          cases added
          rfl
      | some t =>
          cases added
          exact addRowReady (clock r) s ⟨t,row⟩

section Calls
variable {clock : FillClock} {select : String → SelectResult} {m m' : UserEventsManager V} {d : ElementType}
  {modelInputIdentifier : String} {preprocessorJson : Json}

omit [∀ d, Scalar (V d)] in
theorem madeReady {tableName : String} {tableStore after : TableStore V} {routes : StdMap String}
    (there : m.tableStoreMap[tableName]? = some tableStore) (unready : tableStore.isReadyToBeFilled = false)
    (ready : after.isReadyToBeFilled = true) : ¬ AsBefore m ⟨m.tableStoreMap.insert tableName after,routes⟩ := by
  rintro ⟨fillings,_⟩
  have here := fillings tableName
  simp only [filling,Std.ExtTreeMap.getElem?_insert_self,there,Option.map_some,Option.some.injEq,Prod.mk.injEq,ready,
    unready] at here
  exact Bool.false_ne_true here.1.symm

theorem failedAlone (alone : LeavesAlone m d modelInputIdentifier preprocessorJson)
    (ran : m.createPreprocessor clock select d modelInputIdentifier preprocessorJson = some (m',false)) : m' = m := by
  unfold UserEventsManager.createPreprocessor at ran
  split at ran
  · cases ran
    rfl
  · rename_i info parsed
    split at ran
    · cases ran
      rfl
    · rename_i tableStore there
      obtain ⟨ready,route⟩ := alone info parsed tableStore there
      rw [if_pos ready,Option.some.injEq,registerPreprocessor,Prod.mk.injEq] at ran
      obtain ⟨rfl,refused⟩ := ran
      rw [createRefused refused,OrderedMap.insertSame there,OrderedMap.insertSame route]

theorem failedChanged (touched : ¬ LeavesAlone m d modelInputIdentifier preprocessorJson)
    (ran : m.createPreprocessor clock select d modelInputIdentifier preprocessorJson = some (m',false)) : ¬ AsBefore m m' := by
  unfold LeavesAlone at touched
  push Not at touched
  obtain ⟨info,parsed,tableStore,there,route⟩ := touched
  simp only [UserEventsManager.createPreprocessor,parsed,there] at ran
  cases ready : tableStore.isReadyToBeFilled with
  | true =>
      rw [if_pos ready,Option.some.injEq,registerPreprocessor,Prod.mk.injEq] at ran
      obtain ⟨rfl,_⟩ := ran
      rintro ⟨_,routes⟩
      have here := congrArg (fun map : StdMap String => map[modelInputIdentifier]?) routes
      simp only [Std.ExtTreeMap.getElem?_insert_self] at here
      exact route ready here.symm
  | false =>
      simp only [ready,Bool.false_eq_true,if_false,bind,Option.bind_eq_some_iff] at ran
      obtain ⟨filled,delivered,ran⟩ := ran
      have filledReady : filled.isReadyToBeFilled = true := deliverReady delivered
      split at ran
      · rw [Option.some.injEq,registerPreprocessor,Prod.mk.injEq] at ran
        obtain ⟨rfl,refused⟩ := ran
        rw [createRefused refused]
        exact madeReady there ready filledReady
      · cases ran
        exact madeReady there ready filledReady

theorem failedWhenAlone (ran : m.createPreprocessor clock select d modelInputIdentifier preprocessorJson = some (m',false)) :
    (AsBefore m m' ↔ LeavesAlone m d modelInputIdentifier preprocessorJson) ∧ (AsBefore m m' → m' = m) := by
  have same : AsBefore m m' → LeavesAlone m d modelInputIdentifier preprocessorJson := fun before => by
    by_contra touched
    exact failedChanged touched ran before
  refine ⟨⟨same,fun alone => ?_⟩,fun before => failedAlone (same before) ran⟩
  rw [failedAlone alone ran]
  exact ⟨fun _ => rfl,rfl⟩

end Calls

theorem retryableIff (clock : FillClock) (select : String → SelectResult) (m m' : UserEventsManager V) (d : ElementType)
    (modelInputIdentifier : String) (preprocessorJson : Json)
    (ran : m.createPreprocessor clock select d modelInputIdentifier preprocessorJson = some (m',false)) :
    (AsBefore m m' ↔ LeavesAlone m d modelInputIdentifier preprocessorJson) ∧ (AsBefore m m' → m' = m) :=
  failedWhenAlone ran

def ordersJson : Json := .object [("rollingWindowsInSecs",.array [.integer 60]),("operations",.array []),
  ("tableName",.string "orders"),("groupBy",.array [])]

def ordersManager : UserEventsManager IntValues :=
  ⟨(∅ : StdMap (TableStore IntValues)).insert "orders" (.new ⟨"orders",∅,60⟩),∅⟩

def still : FillClock := ⟨fun _ _ _ => 0,fun _ _ => 0⟩

def byCityJson : Json := .object [("rollingWindowsInSecs",.array [.integer 60]),("operations",.array []),
  ("tableName",.string "orders"),("groupBy",.array [.string "city"])]

theorem retryableUnread : ∃ m m' : UserEventsManager IntValues,
    ordersManager.createPreprocessor still (fun _ => ⟨[],true⟩) .int32 "ranker" ordersJson = some (m,true) ∧
    m.createPreprocessor still (fun _ => ⟨[],true⟩) .int32 "ranker" byCityJson = some (m',false) ∧
    (AsBefore m m' ↔ LeavesAlone m .int32 "ranker" byCityJson) ∧ (AsBefore m m' → m' = m) := by
  have ended : ((ordersManager.createPreprocessor still (fun _ => ⟨[],true⟩) .int32 "ranker" ordersJson).bind (fun first =>
      (first.1.createPreprocessor still (fun _ => ⟨[],true⟩) .int32 "ranker" byCityJson).map (fun second =>
        (first.2,second.2)))) = some (true,false) := by decide +kernel
  obtain ⟨⟨m,registered⟩,first,later⟩ := Option.bind_eq_some_iff.mp ended
  obtain ⟨⟨m',refused⟩,second,same⟩ := Option.map_eq_some_iff.mp later
  cases same
  exact ⟨m,m',first,second,retryableIff still (fun _ => ⟨[],true⟩) m m' .int32 "ranker" byCityJson second⟩

theorem failedSelectFills : ¬ ∀ (select : String → SelectResult) (m m' : UserEventsManager IntValues) (json : Json),
    m.createPreprocessor still select .int32 "ranker" json = some (m',false) → AsBefore m m' := by
  intro claim
  have there : ordersManager.tableStoreMap["orders"]? = some (.new ⟨"orders",∅,60⟩) := by simp [ordersManager]
  have parsed : (PreProcessorInfo.fromJson ordersJson : Option (PreProcessorInfo Int)) =
      some ⟨[MachineNumbers.toFloat32 60],[],[],"orders"⟩ := by decide +kernel
  have ran : ordersManager.createPreprocessor still (fun _ => ⟨[],false⟩) .int32 "ranker" ordersJson =
      some ({ordersManager with tableStoreMap :=
        ordersManager.tableStoreMap.insert "orders" (TableStore.new ⟨"orders",∅,60⟩).setToFillInMemory},false) := by
    simp only [UserEventsManager.createPreprocessor,parsed,there]
    rfl
  exact madeReady there rfl rfl (claim _ _ _ _ ran)

end NimbleNet.FailedBackfill
