import NimbleNet.InferenceBody
import NimbleNet.ModelOwnership

/-! What a load_plan that returns false leaves behind in the user events manager, and
what later calls can notice of it. The constructor registers the preprocessors of
the new version one by one; nothing takes a registration back. -/
namespace NimbleNet.FailedLoad
open ONNXExecutor ONNXModel

variable {V : ElementType → Type} [∀ d, Scalar (V d)] (dump : Json → String) (parse : String → Option Json)

inductive Later where
  | addEvent (exec : String → Bool) (clock : Nat → Nat → Int) (stamp insertTime : Int) (event tableName : String)
  | createPreprocessor (clock : UserEventsManager.FillClock) (select : String → SelectResult) (d : ElementType)
      (identifier : String) (preprocessorJson : Json)
  | getModelInput (clock : Nat → Nat → Int) (identifier : String) (rows : List (List (String × String)))

def laterStep (m : UserEventsManager V) : Later → Option (UserEventsManager V × List (Option (AnyModelInput V)))
  | .addEvent exec clock stamp insertTime event tableName =>
      match m.addEvent dump parse exec clock stamp insertTime event tableName with
      | .threw => some (m,[])
      | .returned _ m' => some (m',[])
  | .createPreprocessor clock select d identifier preprocessorJson =>
      (m.createPreprocessor clock select d identifier preprocessorJson).map (fun r => (r.1,[]))
  | .getModelInput clock identifier rows => (m.getModelInput clock identifier rows).map (fun r => (r.1,[r.2]))

def answers (m : UserEventsManager V) : List Later → Option (List (Option (AnyModelInput V)))
  | [] => some []
  | a :: rest => do
      let (m',here) ← laterStep dump parse m a
      let others ← answers m' rest
      some (here ++ others)

def SameAnswers (m m' : UserEventsManager V) : Prop := ∀ later, answers dump parse m later = answers dump parse m' later

def Lost (m : UserEventsManager V) (identifier : String) : Prop :=
  ∀ tableName ∈ m.modelInputToTableNameMap[identifier]?, ∀ tableStore ∈ m.tableStoreMap[tableName]?,
    tableStore.modelInputPreprocessorIdMap[identifier]? = none

theorem lostAnswer {m : UserEventsManager V} {identifier : String} (lost : Lost m identifier) (clock : Nat → Nat → Int)
    (rows : List (List (String × String))) : m.getModelInput clock identifier rows = some (m,none) := by
  unfold UserEventsManager.getModelInput
  split
  · rfl
  · rename_i tableName route
    split
    · rfl
    · rename_i tableStore table
      simp only [TableStore.getModelInput,lost tableName route tableStore table,bind,Option.bind_some,OrderedMap.insertSame table]

/- The same tables, and the same routes wherever a route leads to a preprocessor. -/
structure Alike (m m' : UserEventsManager V) : Prop where
  tables : m'.tableStoreMap = m.tableStoreMap
  routes : ∀ identifier : String, m'.modelInputToTableNameMap[identifier]? = m.modelInputToTableNameMap[identifier]? ∨
    (Lost m identifier ∧ Lost m' identifier)

omit [∀ d, Scalar (V d)] in
theorem alikeRefl (m : UserEventsManager V) : Alike m m := ⟨rfl,fun _ => .inl rfl⟩

section Updates
variable {m m' : UserEventsManager V} {tableName : String} {tableStore tableStore' : TableStore V}

omit [∀ d, Scalar (V d)]

theorem lostUpdate {routes : StdMap String} {identifier : String} (lost : Lost m identifier)
    (old : m.tableStoreMap[tableName]? = some tableStore)
    (keeps : tableStore.modelInputPreprocessorIdMap[identifier]? = none →
      tableStore'.modelInputPreprocessorIdMap[identifier]? = none)
    (same : routes[identifier]? = m.modelInputToTableNameMap[identifier]?) :
    Lost ⟨m.tableStoreMap.insert tableName tableStore',routes⟩ identifier := by
  intro name route other table
  have route' : m.modelInputToTableNameMap[identifier]? = some name := same ▸ route
  rcases OrderedMap.insertFound table with ⟨rfl,rfl⟩ | ⟨_,there⟩
  · exact keeps (lost name route' tableStore old)
  · exact lost name route' other there

theorem alikeUpdate (h : Alike m m') (old : m.tableStoreMap[tableName]? = some tableStore)
    (keeps : tableStore'.modelInputPreprocessorIdMap = tableStore.modelInputPreprocessorIdMap) :
    Alike {m with tableStoreMap := m.tableStoreMap.insert tableName tableStore'}
      {m' with tableStoreMap := m'.tableStoreMap.insert tableName tableStore'} := by
  refine ⟨by rw [h.tables],fun identifier => ?_⟩
  rcases h.routes identifier with same | ⟨lost,lost'⟩
  · exact .inl same
  · exact .inr ⟨lostUpdate lost old (fun none => keeps ▸ none) rfl,
      lostUpdate lost' (h.tables ▸ old) (fun none => keeps ▸ none) rfl⟩

theorem alikeRegister (h : Alike m m') (old : m.tableStoreMap[tableName]? = some tableStore) {identifier : String}
    (keeps : ∀ other, other ≠ identifier → tableStore'.modelInputPreprocessorIdMap[other]? =
      tableStore.modelInputPreprocessorIdMap[other]?) :
    Alike ⟨m.tableStoreMap.insert tableName tableStore',m.modelInputToTableNameMap.insert identifier tableName⟩
      ⟨m'.tableStoreMap.insert tableName tableStore',m'.modelInputToTableNameMap.insert identifier tableName⟩ := by
  refine ⟨by rw [h.tables],fun other => ?_⟩
  by_cases here : other = identifier
  · exact .inl (by simp [here])
  · rcases h.routes other with same | ⟨lost,lost'⟩
    · exact .inl (by simpa only [OrderedMap.insertOther here] using same)
    · exact .inr ⟨lostUpdate lost old (fun none => (keeps other here).trans none) (OrderedMap.insertOther here),
        lostUpdate lost' (h.tables ▸ old) (fun none => (keeps other here).trans none) (OrderedMap.insertOther here)⟩

end Updates

section Identifiers

theorem addRowIdentifiers (clock : Nat → Nat → Int) (s : TableStore V) (r : TableRow) :
    (s.addRow clock r).modelInputPreprocessorIdMap = s.modelInputPreprocessorIdMap := by
  unfold TableStore.addRow
  split
  · rfl
  · split <;> rfl

theorem deliverIdentifiers {clock : Nat → Nat → Nat → Int} {r : Nat} {s s' : TableStore V}
    {rows : List (List (String × Option String))} (ok : UserEventsManager.deliver clock r s rows = some s') :
    s'.modelInputPreprocessorIdMap = s.modelInputPreprocessorIdMap := by
  induction rows generalizing r s with
  | nil =>
      cases ok
      rfl
  | cons cells rest ih =>
      simp only [UserEventsManager.deliver,bind,Option.bind_eq_some_iff] at ok
      obtain ⟨middle,added,ok⟩ := ok
      rw [ih ok]
      simp only [UserEventsManager.addRowsToTableStore,bind,Option.bind_eq_some_iff] at added
      obtain ⟨⟨timestamp,row⟩,_,added⟩ := added
      cases timestamp <;> cases added
      · rfl
      · exact addRowIdentifiers _ _ _

theorem createIdentifiers (clock : Nat → Nat → Int) (s : TableStore V) (d : ElementType) (identifier : String)
    (info : PreProcessorInfo (V d)) {other : String} (different : other ≠ identifier) :
    (s.createPreprocessor clock d identifier info).1.modelInputPreprocessorIdMap[other]? =
      s.modelInputPreprocessorIdMap[other]? := by
  unfold TableStore.createPreprocessor
  split
  · exact OrderedMap.insertOther different
  · rfl

theorem answerIdentifiers {clock : Nat → Nat → Int} {s : TableStore V} {identifier : String}
    {rows : List (List (String × String))} {result : TableStore V × Option (AnyModelInput V)}
    (answered : s.getModelInput clock identifier rows = some result) :
    result.1.modelInputPreprocessorIdMap = s.modelInputPreprocessorIdMap := by
  obtain ⟨s',made⟩ := result
  rcases TableStore.modelInputCases answered with ⟨_,rfl,_⟩ | ⟨_,_,_,_,_,⟨_,rfl,_⟩ | ⟨_,_,_,_,_,rfl,_⟩⟩
  · rfl
  · rfl
  · rfl

end Identifiers

section Later
variable {m m' : UserEventsManager V}

theorem addEventAlike (h : Alike m m') (exec : String → Bool) (clock : Nat → Nat → Int) (stamp insertTime : Int)
    (event tableName : String) :
    (m.addEvent dump parse exec clock stamp insertTime event tableName = .threw ∧
      m'.addEvent dump parse exec clock stamp insertTime event tableName = .threw) ∨
    ∃ ok n n', m.addEvent dump parse exec clock stamp insertTime event tableName = .returned ok n ∧
      m'.addEvent dump parse exec clock stamp insertTime event tableName = .returned ok n' ∧ Alike n n' := by
  simp only [UserEventsManager.addEvent,h.tables]
  cases table : m.tableStoreMap[tableName]? with
  | none => exact .inr ⟨_,_,_,rfl,rfl,h⟩
  | some tableStore =>
      simp only
      cases parse event with
      | none => exact .inr ⟨_,_,_,rfl,rfl,h⟩
      | some eventMap =>
          simp only
          cases UserEventsManager.columnsOfEvent dump eventMap with
          | none => exact .inl ⟨rfl,rfl⟩
          | some columns =>
              right
              simp only
              generalize (⟨stamp,columns.foldl (fun row x => row.insert x.1 x.2) ∅⟩ : TableRow) = r
              cases tableStore.checkColumnsOfRow r with
              | false => exact ⟨_,_,_,rfl,rfl,h⟩
              | true =>
                  cases exec (UserEventsManager.insertCommand tableName insertTime columns) with
                  | true =>
                      refine ⟨_,_,_,rfl,rfl,?_⟩
                      have updated := alikeUpdate h table (addRowIdentifiers clock tableStore r)
                      rwa [h.tables] at updated
                  | false => exact ⟨_,_,_,rfl,rfl,h⟩

theorem registerAlike {d : ElementType} (h : Alike m m') {info : PreProcessorInfo (V d)} {tableStore filled : TableStore V}
    (old : m.tableStoreMap[info.tableName]? = some tableStore)
    (same : filled.modelInputPreprocessorIdMap = tableStore.modelInputPreprocessorIdMap) (clock : Nat → Nat → Int)
    (identifier : String) :
    (m.registerPreprocessor clock d identifier info filled).2 = (m'.registerPreprocessor clock d identifier info filled).2 ∧
      Alike (m.registerPreprocessor clock d identifier info filled).1
        (m'.registerPreprocessor clock d identifier info filled).1 :=
  ⟨rfl,alikeRegister h old (fun _ different => (createIdentifiers clock filled d identifier info different).trans
    (by rw [same]))⟩

theorem createAlike (h : Alike m m') (clock : UserEventsManager.FillClock) (select : String → SelectResult)
    (d : ElementType) (identifier : String) (preprocessorJson : Json) :
    (m.createPreprocessor clock select d identifier preprocessorJson = none ∧
      m'.createPreprocessor clock select d identifier preprocessorJson = none) ∨
    ∃ ok n n', m.createPreprocessor clock select d identifier preprocessorJson = some (n,ok) ∧
      m'.createPreprocessor clock select d identifier preprocessorJson = some (n',ok) ∧ Alike n n' := by
  unfold UserEventsManager.createPreprocessor
  cases (PreProcessorInfo.fromJson preprocessorJson : Option (PreProcessorInfo (V d))) with
  | none => exact .inr ⟨_,_,_,rfl,rfl,h⟩
  | some info =>
      simp only [h.tables]
      cases table : m.tableStoreMap[info.tableName]? with
      | none => exact .inr ⟨_,_,_,rfl,rfl,h⟩
      | some tableStore =>
          simp only
          split
          · have registered := registerAlike h table rfl clock.events identifier
            exact .inr ⟨_,_,_,rfl,rfl,registered.2⟩
          · cases filled : UserEventsManager.deliver clock.rows 0 tableStore.setToFillInMemory
                (select (UserEventsManager.selectAll info.tableName)).rows with
            | none => exact .inl ⟨rfl,rfl⟩
            | some full =>
                have same := deliverIdentifiers filled
                simp only [bind,Option.bind_some]
                split
                · have registered := registerAlike h table same clock.events identifier
                  exact .inr ⟨_,_,_,rfl,rfl,registered.2⟩
                · refine .inr ⟨_,_,_,rfl,rfl,?_⟩
                  have updated := alikeUpdate h table same
                  rwa [h.tables] at updated

theorem getModelInputAlike (h : Alike m m') (clock : Nat → Nat → Int) (identifier : String)
    (rows : List (List (String × String))) :
    (m.getModelInput clock identifier rows = none ∧ m'.getModelInput clock identifier rows = none) ∨
    ∃ answer n n', m.getModelInput clock identifier rows = some (n,answer) ∧
      m'.getModelInput clock identifier rows = some (n',answer) ∧ Alike n n' := by
  rcases h.routes identifier with same | ⟨lost,lost'⟩
  · simp only [UserEventsManager.getModelInput,same,h.tables]
    cases m.modelInputToTableNameMap[identifier]? with
    | none => exact .inr ⟨_,_,_,rfl,rfl,h⟩
    | some tableName =>
        simp only
        cases table : m.tableStoreMap[tableName]? with
        | none => exact .inr ⟨_,_,_,rfl,rfl,h⟩
        | some tableStore =>
            simp only
            cases answered : tableStore.getModelInput clock identifier rows with
            | none => exact .inl ⟨rfl,rfl⟩
            | some result =>
                refine .inr ⟨_,_,_,rfl,rfl,?_⟩
                have updated := alikeUpdate h table (answerIdentifiers answered)
                rwa [h.tables] at updated
  · exact .inr ⟨_,_,_,lostAnswer lost clock rows,lostAnswer lost' clock rows,h⟩

theorem laterAlike (h : Alike m m') (a : Later) :
    (laterStep dump parse m a = none ∧ laterStep dump parse m' a = none) ∨
    ∃ here n n', laterStep dump parse m a = some (n,here) ∧ laterStep dump parse m' a = some (n',here) ∧ Alike n n' := by
  cases a with
  | addEvent exec clock stamp insertTime event tableName =>
      rcases addEventAlike dump parse h exec clock stamp insertTime event tableName with
        ⟨left,right⟩ | ⟨ok,n,n',left,right,alike⟩
      · exact .inr ⟨[],m,m',by simp [laterStep,left],by simp [laterStep,right],h⟩
      · exact .inr ⟨[],n,n',by simp [laterStep,left],by simp [laterStep,right],alike⟩
  | createPreprocessor clock select d identifier preprocessorJson =>
      rcases createAlike h clock select d identifier preprocessorJson with ⟨left,right⟩ | ⟨ok,n,n',left,right,alike⟩
      · exact .inl ⟨by simp [laterStep,left],by simp [laterStep,right]⟩
      · exact .inr ⟨[],n,n',by simp [laterStep,left],by simp [laterStep,right],alike⟩
  | getModelInput clock identifier rows =>
      rcases getModelInputAlike h clock identifier rows with ⟨left,right⟩ | ⟨answer,n,n',left,right,alike⟩
      · exact .inl ⟨by simp [laterStep,left],by simp [laterStep,right]⟩
      · exact .inr ⟨[answer],n,n',by simp [laterStep,left],by simp [laterStep,right],alike⟩

theorem alikeAnswers (h : Alike m m') : SameAnswers dump parse m m' := by
  intro later
  induction later generalizing m m' with
  | nil => rfl
  | cons a rest ih =>
      rcases laterAlike dump parse h a with ⟨left,right⟩ | ⟨here,n,n',left,right,alike⟩
      · simp only [answers,left,right]
      · simp only [answers,left,right,bind,Option.bind_some,ih alike]

end Later

section Loading
variable {m : UserEventsManager V} {l : Loading}

/- An input at which the constructor stops without a trace: its type, its description or
its table is not known, or the table is in memory, a column is not accepted, and the
route that is set all the same changes nothing. -/
def Rejects (m : UserEventsManager V) (identifier : String) (input : TensorInfo) : Prop :=
  ∀ d ∈ elementTypeOf input.dataType, ∀ info ∈ (PreProcessorInfo.fromJson input.preprocessorJson :
    Option (PreProcessorInfo (V d))), ∀ tableStore ∈ m.tableStoreMap[info.tableName]?,
      tableStore.isReadyToBeFilled = true ∧
      (info.groupColumns.mapM (tableStore.columnToIdMap[·]?) = none ∨ info.operations.mapM tableStore.columnIdFor = none) ∧
      (m.modelInputToTableNameMap[identifier]? = some info.tableName ∨
        (Lost m identifier ∧ tableStore.modelInputPreprocessorIdMap[identifier]? = none))

def RegistersNothing (parse : String → Option Json) (l : Loading) (m : UserEventsManager V) (modelId : String)
    (planData : PlanData) : Prop :=
  ∀ info ∈ (parse planData.extraFields).bind ONNXModelInfo.fromJson, l.runtime.createsSession = true →
    ∀ input ∈ info.inputs.find? TensorInfo.toPreprocess, Rejects m (modelId ++ input.name) input

theorem rejectedAlike {identifier : String} {input : TensorInfo} {d : ElementType}
    (type : elementTypeOf input.dataType = some d) (rejects : Rejects m identifier input)
    (clock : UserEventsManager.FillClock) (select : String → SelectResult) :
    ∃ m', m.createPreprocessor clock select d identifier input.preprocessorJson = some (m',false) ∧ Alike m m' := by
  unfold UserEventsManager.createPreprocessor
  cases described : (PreProcessorInfo.fromJson input.preprocessorJson : Option (PreProcessorInfo (V d))) with
  | none => exact ⟨m,rfl,alikeRefl m⟩
  | some info =>
      simp only
      cases table : m.tableStoreMap[info.tableName]? with
      | none => exact ⟨m,rfl,alikeRefl m⟩
      | some tableStore =>
          obtain ⟨ready,columns,route⟩ := rejects d type info described tableStore table
          have refused : tableStore.createPreprocessor clock.events d identifier info = (tableStore,false) := by
            unfold TableStore.createPreprocessor
            rcases columns with none | none <;> rw [none]
            cases info.groupColumns.mapM (tableStore.columnToIdMap[·]?) <;> rfl
          simp only [ready,if_true,UserEventsManager.registerPreprocessor,refused,OrderedMap.insertSame table]
          refine ⟨_,rfl,rfl,fun other => ?_⟩
          by_cases here : other = identifier
          · subst here
            rcases route with same | ⟨lost,unknown⟩
            · exact .inl (by simp [same])
            · refine .inr ⟨lost,fun name set other' there => ?_⟩
              simp only [Std.ExtTreeMap.getElem?_insert_self,Option.mem_some_iff] at set
              subst set
              cases table.symm.trans there
              exact unknown
          · exact .inl (OrderedMap.insertOther here)

theorem constructAlike {modelId : String} {items : List (TensorInfo × Nat)} {s : ONNXModel × UserEventsManager V}
    (named : s.1.modelId = modelId) (same : s.2 = m)
    (rejects : ∀ item ∈ items.find? (fun item => item.1.toPreprocess), Rejects m (modelId ++ item.1.name) item.1) :
    (Flow.loop (constructInput l) s items).Ends (fun s' => Alike m s'.2) := by
  induction items generalizing s with
  | nil =>
      change Alike m s.2
      exact same ▸ alikeRefl m
  | cons item rest ih =>
      obtain ⟨input,i⟩ := item
      simp only [Flow.loop,constructInput]
      cases processed : input.toPreprocess with
      | true =>
          simp only [if_true]
          simp only [List.find?_cons,processed,Option.mem_some_iff,forall_eq'] at rejects
          cases type : elementTypeOf input.dataType with
          | none =>
              change Alike m s.2
              exact same ▸ alikeRefl m
          | some d =>
              obtain ⟨m',refused,alike⟩ := rejectedAlike type rejects (l.clock i) (l.select i)
              simp only [same,named,refused]
              exact alike
      | false =>
          simp only [List.find?_cons,processed] at rejects
          exact ih named same rejects

theorem findFirst (inputs : List TensorInfo) (p : TensorInfo → Bool) :
    (inputs.zipIdx.find? (fun item => p item.1)).map Prod.fst = inputs.find? p := by
  conv_rhs => rw [← List.zipIdx_map_fst 0 inputs]
  rw [List.find?_map]
  rfl

theorem failedLoadUnnoticed {parse : String → Option Json} {s s' : ONNXExecutor V} {modelId : String} {planData : PlanData}
    (failed : s.loadPlan parse l modelId planData = some (s',false))
    (nothing : RegistersNothing parse l s.manager modelId planData) : SameAnswers dump parse s.manager s'.manager := by
  apply alikeAnswers
  simp only [ONNXExecutor.loadPlan,bind,Option.bind_eq_some_iff] at failed
  obtain ⟨⟨built,address⟩,ran,failed⟩ := failed
  cases address with
  | some address => cases failed
  | none =>
      cases failed
      unfold ONNXExecutor.buildModel at ran
      split at ran
      · cases ran
        exact alikeRefl _
      · rename_i info described
        have rejects := nothing info described
        split at ran
        · contradiction
        · rename_i manager constructed
          cases ran
          unfold construct at constructed
          split at constructed
          · cases constructed
            exact alikeRefl _
          · rename_i session
            have loop : (Flow.loop (constructInput l) (⟨modelId,planData.version,info,[],[],∅⟩,s.manager)
                info.inputs.zipIdx).Ends (fun s' => Alike s.manager s'.2) :=
              constructAlike rfl rfl (fun item found => rejects (by simpa using session) item.1 (by
                rw [← findFirst,found]
                rfl))
            split at constructed
            · contradiction
            · rename_i left ended
              rw [ended] at loop
              cases constructed
              exact loop
            · rename_i left ended
              rw [ended] at loop
              split at constructed
              · contradiction
              · cases constructed
                exact loop
              · cases constructed
        · cases ran

end Loading

section Ranker
open ModelOwnership

/- The ranker's own description, one whose totals start at another default before an
input of an unsupported type, and one over a table that does not exist. -/
def totalsFrom (default : Int) (tableName : String) : Json :=
  .object [("rollingWindowsInSecs",.array [.integer 10]),
    ("operations",.array [.object [("columnName",.string "amount"),("operator",.string "Sum"),
      ("default",.integer default)]]),
    ("tableName",.string tableName),("groupBy",.array [.string "user"])]

def rankerInfo (default : Int) (tableName : String) (others : List Json) : Json :=
  .object [("inputs",.array (.object [("name",.string "totals"),("dataType",.integer 6),
      ("processor",totalsFrom default tableName),("shape",.array [.integer 1,.integer 1])] :: others)),
    ("outputs",.array [])]

def textInput : Json := .object [("name",.string "text"),("dataType",.integer 8),("shape",.array [.integer 1])]

def infoParse (text : String) : Option Json :=
  if text = "changed default" then some (rankerInfo 1 "orders" [textInput])
  else if text = "unknown table" then some (rankerInfo 0 "visits" [])
  else some (rankerInfo 0 "orders" [])

def planOf (extraFields : String) : PlanData := ⟨true,"1.0.0",[],extraFields,0⟩

def load (s : ONNXExecutor IntValues) (extraFields : String) : Option (ONNXExecutor IntValues × Bool) :=
  s.loadPlan infoParse rankerLoading "ranker" (planOf extraFields)

def askAnn : Later := .getModelInput (fun _ _ => 0) "rankertotals" [userNamed "ann"]

def annTotals (m : UserEventsManager IntValues) : List (List Int) :=
  ((answers (fun _ => "") infoParse m [askAnn]).getD []).filterMap (fun r => r.map (fun i => i.input.data))

def serving : Option (ONNXExecutor IntValues × Bool) := load (.new 1 ordersOnly) ""

theorem unknownTableUnnoticed : ∃ s s', serving = some (s,true) ∧ load s "unknown table" = some (s',false) ∧
    SameAnswers (fun _ => "") infoParse s.manager s'.manager := by
  have steps : serving.map (fun r => (r.2,(load r.1 "unknown table").map Prod.snd,
      (r.1.manager.tableStoreMap["visits"]?).isNone)) = some (true,some false,true) := by decide +kernel
  obtain ⟨⟨s,ok⟩,served,facts⟩ := Option.map_eq_some_iff.mp steps
  simp only [Prod.mk.injEq,Option.map_eq_some_iff,Option.isNone_iff_eq_none] at facts
  obtain ⟨rfl,⟨⟨s',ok'⟩,failed,rfl⟩,noTable⟩ := facts
  refine ⟨s,s',served,failed,failedLoadUnnoticed _ failed ?_⟩
  have visits : (infoParse "unknown table").bind ONNXModelInfo.fromJson =
      some ⟨[⟨"totals",6,"",false,[1,1],1,totalsFrom 0 "visits",true⟩],[],[]⟩ := rfl
  intro info described session input found d type pre readable tableStore table
  cases visits.symm.trans described
  cases found
  cases type
  cases readable
  exact absurd (noTable.symm.trans table) (by simp)

theorem servedTotalsReplaced : ¬ ∀ (dump : Json → String) (parse : String → Option Json) (l : Loading)
    (s s' : ONNXExecutor IntValues) (modelId : String) (planData : PlanData),
    s.loadPlan parse l modelId planData = some (s',false) → SameAnswers dump parse s.manager s'.manager := by
  intro claim
  have steps : serving.bind (fun r => (load r.1 "changed default").map (fun r' =>
      (r'.2,annTotals r.1.manager,annTotals r'.1.manager))) = some (false,[[0]],[[1]]) := by
    decide +kernel
  obtain ⟨⟨s,ok⟩,served,facts⟩ := Option.bind_eq_some_iff.mp steps
  obtain ⟨⟨s',ok'⟩,failed,facts⟩ := Option.map_eq_some_iff.mp facts
  simp only [Prod.mk.injEq] at facts
  obtain ⟨rfl,before,after⟩ := facts
  have same := claim (fun _ => "") infoParse rankerLoading s s' "ranker" (planOf "changed default") failed [askAnn]
  rw [annTotals,same,← annTotals,after] at before
  contradiction

end Ranker
end NimbleNet.FailedLoad
