import NimbleNet.FailedBackfill
import NimbleNet.ONNXModel

/-! Which table and which preprocessor get_model_input uses for an input of a model. Both
maps are keyed by the model id and the input name, one behind the other. -/
namespace NimbleNet.ModelInputRoutes
open ONNXModel StepRuns TableFilling UserEventsManager

variable {V : ElementType → Type} [∀ d, Scalar (V d)]

def resolves (m : UserEventsManager V) (modelInputIdentifier : String) : Option (String × Nat) := do
  let tableName ← m.modelInputToTableNameMap[modelInputIdentifier]?
  let tableStore ← m.tableStoreMap[tableName]?
  let preprocessorIndex ← tableStore.modelInputPreprocessorIdMap[modelInputIdentifier]?
  some (tableName,preprocessorIndex)

/- One input of a model, registered by the constructor as its i-th. -/
def register (l : Loading) (i : Nat) (modelId : String) (input : TensorInfo) (m : UserEventsManager V) :
    Option (UserEventsManager V × Bool) :=
  match elementTypeOf input.dataType with
  | none => some (m,false)
  | some d => m.createPreprocessor (l.clock i) (l.select i) d (modelId ++ input.name) input.preprocessorJson

theorem constructRegisters (l : Loading) (model : ONNXModel) (m : UserEventsManager V) (input : TensorInfo) (i : Nat)
    (toPreprocess : input.toPreprocess = true) {m' : UserEventsManager V} {ok : Bool}
    (ran : register l i model.modelId input m = some (m',ok)) :
    ∃ model', constructInput l (model,m) (input,i) = if ok then .proceed (model',m') else .leave (model',m') () := by
  unfold register at ran
  unfold constructInput
  simp only [toPreprocess,if_true]
  cases type : elementTypeOf input.dataType with
  | none =>
      rw [type] at ran
      cases ran
      exact ⟨model,rfl⟩
  | some d =>
      rw [type] at ran
      simp only at ran
      simp only [ran]
      cases ok <;> exact ⟨_,rfl⟩

inductive Action where
  | addEvent (exec : String → Bool) (clock : Nat → Nat → Int) (stamp insertTime : Int) (event tableName : String)
  | register (l : Loading) (i : Nat) (modelId : String) (input : TensorInfo)
  | getModelInput (clock : Nat → Nat → Int) (modelInputIdentifier : String) (rows : List (List (String × String)))

variable (dump : Json → String) (parse : String → Option Json)

def step (m : UserEventsManager V) : Action → Option (UserEventsManager V)
  | .addEvent exec clock stamp insertTime event tableName =>
      match m.addEvent dump parse exec clock stamp insertTime event tableName with
      | .threw => some m
      | .returned _ m' => some m'
  | .register l i modelId input => (register l i modelId input m).map Prod.fst
  | .getModelInput clock modelInputIdentifier rows => (m.getModelInput clock modelInputIdentifier rows).map Prod.fst

def start (tables : List TableInfo) : UserEventsManager V :=
  ⟨tables.foldl (fun map info => map.insert info.name (TableStore.new info)) ∅,∅⟩

def Inside (m : UserEventsManager V) : Prop := ∀ (tableName : String) (tableStore : TableStore V) (name : String) (i : Nat),
  m.tableStoreMap[tableName]? = some tableStore → tableStore.modelInputPreprocessorIdMap[name]? = some i →
    i < tableStore.preprocessors.length

def Refuses {T : Type} (s : TableStore V) (info : PreProcessorInfo T) : Prop :=
  info.groupColumns.mapM (s.columnToIdMap[·]?) = none ∨ info.operations.mapM s.columnIdFor = none

/- A registration that comes to its table is refused there, and the name led there before. -/
def RefusalKeeps (m : UserEventsManager V) (d : ElementType) (select : String → SelectResult) (name : String)
    (preprocessorJson : Json) : Prop :=
  ∀ info : PreProcessorInfo (V d), PreProcessorInfo.fromJson preprocessorJson = some info →
    ∀ tableStore, m.tableStoreMap[info.tableName]? = some tableStore →
      (tableStore.isReadyToBeFilled = true ∨ (select (selectAll info.tableName)).isOk = true) →
        Refuses tableStore info ∧
          resolves m name = tableStore.modelInputPreprocessorIdMap[name]?.map (fun i => (info.tableName,i))

structure SameRoutes (s s' : TableStore V) : Prop where
  map : s'.modelInputPreprocessorIdMap = s.modelInputPreprocessorIdMap
  length : s'.preprocessors.length = s.preprocessors.length
  columns : s'.columnToIdMap = s.columnToIdMap
  tableInfo : s'.tableInfo = s.tableInfo

section Stores

omit [∀ d, Scalar (V d)] in
theorem sameRoutesRefl (s : TableStore V) : SameRoutes s s := ⟨rfl,rfl,rfl,rfl⟩

omit [∀ d, Scalar (V d)] in
theorem sameRoutesTrans {s s' s'' : TableStore V} (first : SameRoutes s s') (second : SameRoutes s' s'') : SameRoutes s s'' :=
  ⟨second.map.trans first.map,second.length.trans first.length,second.columns.trans first.columns,
    second.tableInfo.trans first.tableInfo⟩

omit [∀ d, Scalar (V d)] in
theorem sameRefuses {T : Type} {s s' : TableStore V} {info : PreProcessorInfo T} (same : SameRoutes s s') :
    Refuses s' info ↔ Refuses s info := by
  have columnIds : s'.columnIdFor (T := T) = s.columnIdFor := by
    funext operation
    simp only [TableStore.columnIdFor,same.columns,same.tableInfo]
  rw [Refuses,Refuses,same.columns,columnIds]

theorem refusedIff {clock : Nat → Nat → Int} {s : TableStore V} {d : ElementType} {name : String}
    {info : PreProcessorInfo (V d)} : (s.createPreprocessor clock d name info).2 = false ↔ Refuses s info := by
  unfold TableStore.createPreprocessor Refuses
  split
  · rename_i groups columns
    simp [groups,columns]
  · rename_i neither
    refine iff_of_true rfl ?_
    by_contra none
    rw [not_or] at none
    obtain ⟨groupIds,groups⟩ := Option.ne_none_iff_exists'.mp none.1
    obtain ⟨columnIds,columns⟩ := Option.ne_none_iff_exists'.mp none.2
    exact neither groupIds columnIds groups columns

theorem addRowRoutes (clock : Nat → Nat → Int) (s : TableStore V) (r : TableRow) : SameRoutes s (s.addRow clock r) := by
  unfold TableStore.addRow
  split
  · exact sameRoutesRefl s
  · split
    · exact sameRoutesRefl s
    · refine ⟨rfl,?_,rfl,rfl⟩
      exact TableStoreInvariant.signatureLength (TableStoreInvariant.feedSignature _ _ _ _ _)

theorem deliverRoutes {clock : Nat → Nat → Nat → Int} {r : Nat} {s filled : TableStore V}
    {rows : List (List (String × Option String))} (delivered : deliver clock r s rows = some filled) :
    SameRoutes s filled := by
  induction rows generalizing r s with
  | nil =>
      cases delivered
      exact sameRoutesRefl _
  | cons cells rest ih =>
      simp only [deliver,bind,Option.bind_eq_some_iff] at delivered
      obtain ⟨s',added,later⟩ := delivered
      refine sameRoutesTrans ?_ (ih later)
      simp only [addRowsToTableStore,bind,Option.bind_eq_some_iff] at added
      obtain ⟨⟨timestamp,row⟩,_,added⟩ := added
      cases timestamp with
      | none =>
          cases added
          exact sameRoutesRefl s
      | some t =>
          cases added
          exact addRowRoutes (clock r) s ⟨t,row⟩

theorem createRoutes {clock : Nat → Nat → Int} {s s' : TableStore V} {d : ElementType} {name : String}
    {info : PreProcessorInfo (V d)} (created : s.createPreprocessor clock d name info = (s',true)) :
    s'.modelInputPreprocessorIdMap = s.modelInputPreprocessorIdMap.insert name s.preprocessors.length ∧
      s'.preprocessors.length = s.preprocessors.length + 1 := by
  unfold TableStore.createPreprocessor at created
  split at created
  · cases created
    exact ⟨rfl,List.length_append⟩
  · exact absurd (congrArg Prod.snd created) Bool.false_ne_true

theorem modelInputRoutes {clock : Nat → Nat → Int} {s s' : TableStore V} {name : String}
    {rows : List (List (String × String))} {result : Option (AnyModelInput V)}
    (ran : s.getModelInput clock name rows = some (s',result)) : SameRoutes s s' := by
  rcases TableStore.modelInputCases ran with ⟨_,rfl,_⟩ | ⟨_,_,_,_,_,⟨_,rfl,_⟩ | ⟨_,_,_,_,_,rfl,_⟩⟩
  · exact sameRoutesRefl _
  · exact sameRoutesRefl _
  · exact ⟨rfl,List.length_set,rfl,rfl⟩

end Stores

section Managers
variable {m m' : UserEventsManager V}

omit [∀ d, Scalar (V d)] in
theorem insideInsert (inside : Inside m) {tableName : String} {tableStore : TableStore V} {routes : StdMap String}
    (here : ∀ (name : String) (i : Nat), tableStore.modelInputPreprocessorIdMap[name]? = some i →
      i < tableStore.preprocessors.length) : Inside ⟨m.tableStoreMap.insert tableName tableStore,routes⟩ := by
  intro other store name i there registered
  rcases OrderedMap.insertFound there with ⟨_,rfl⟩ | ⟨_,before⟩
  · exact here name i registered
  · exact inside other store name i before registered

omit [∀ d, Scalar (V d)] in
theorem sameRoutesInside (inside : Inside m) {tableName : String} {s s' : TableStore V}
    (there : m.tableStoreMap[tableName]? = some s) (same : SameRoutes s s') (name : String) (i : Nat)
    (registered : s'.modelInputPreprocessorIdMap[name]? = some i) : i < s'.preprocessors.length := by
  rw [same.map] at registered
  rw [same.length]
  exact inside tableName s name i there registered

inductive Created (m : UserEventsManager V) (d : ElementType) (select : String → SelectResult) (name : String)
    (preprocessorJson : Json) : UserEventsManager V → Bool → Prop where
  | unparsed (unread : (PreProcessorInfo.fromJson preprocessorJson : Option (PreProcessorInfo (V d))) = none) :
      Created m d select name preprocessorJson m false
  | unknown {info : PreProcessorInfo (V d)} (parsed : PreProcessorInfo.fromJson preprocessorJson = some info)
      (absent : m.tableStoreMap[info.tableName]? = none) : Created m d select name preprocessorJson m false
  | unfilled {info : PreProcessorInfo (V d)} {s filled : TableStore V}
      (parsed : PreProcessorInfo.fromJson preprocessorJson = some info)
      (there : m.tableStoreMap[info.tableName]? = some s) (same : SameRoutes s filled)
      (failed : s.isReadyToBeFilled = false ∧ (select (selectAll info.tableName)).isOk = false) :
      Created m d select name preprocessorJson ⟨m.tableStoreMap.insert info.tableName filled,m.modelInputToTableNameMap⟩ false
  | refused {info : PreProcessorInfo (V d)} {s filled : TableStore V}
      (parsed : PreProcessorInfo.fromJson preprocessorJson = some info)
      (there : m.tableStoreMap[info.tableName]? = some s) (same : SameRoutes s filled)
      (came : s.isReadyToBeFilled = true ∨ (select (selectAll info.tableName)).isOk = true) (refuses : Refuses s info) :
      Created m d select name preprocessorJson ⟨m.tableStoreMap.insert info.tableName filled,
        m.modelInputToTableNameMap.insert name info.tableName⟩ false
  | registered {info : PreProcessorInfo (V d)} {s s' : TableStore V}
      (parsed : PreProcessorInfo.fromJson preprocessorJson = some info)
      (there : m.tableStoreMap[info.tableName]? = some s)
      (came : s.isReadyToBeFilled = true ∨ (select (selectAll info.tableName)).isOk = true) (takes : ¬ Refuses s info)
      (map : s'.modelInputPreprocessorIdMap = s.modelInputPreprocessorIdMap.insert name s.preprocessors.length)
      (length : s'.preprocessors.length = s.preprocessors.length + 1) :
      Created m d select name preprocessorJson ⟨m.tableStoreMap.insert info.tableName s',
        m.modelInputToTableNameMap.insert name info.tableName⟩ true

theorem registerCreated {select : String → SelectResult} {clock : Nat → Nat → Int} {d : ElementType} {name : String}
    {preprocessorJson : Json} {info : PreProcessorInfo (V d)} {s filled : TableStore V} {ok : Bool}
    (parsed : PreProcessorInfo.fromJson preprocessorJson = some info)
    (there : m.tableStoreMap[info.tableName]? = some s) (same : SameRoutes s filled)
    (came : s.isReadyToBeFilled = true ∨ (select (selectAll info.tableName)).isOk = true)
    (ran : m.registerPreprocessor clock d name info filled = (m',ok)) : Created m d select name preprocessorJson m' ok := by
  rw [registerPreprocessor,Prod.mk.injEq] at ran
  obtain ⟨rfl,result⟩ := ran
  cases ok with
  | false =>
      rw [FailedBackfill.createRefused result]
      exact .refused parsed there same came ((sameRefuses same).mp (refusedIff.mp result))
  | true =>
      obtain ⟨map,length⟩ := createRoutes (Prod.ext rfl result)
      rw [same.map,same.length] at map
      rw [same.length] at length
      have takes : ¬ Refuses s info := fun refuses =>
        Bool.false_ne_true ((refusedIff.mpr ((sameRefuses same).mpr refuses)).symm.trans result)
      exact .registered parsed there came takes map length

theorem createCreated {clock : FillClock} {select : String → SelectResult} {d : ElementType} {name : String}
    {preprocessorJson : Json} {ok : Bool} (ran : m.createPreprocessor clock select d name preprocessorJson = some (m',ok)) :
    Created m d select name preprocessorJson m' ok := by
  unfold UserEventsManager.createPreprocessor at ran
  split at ran
  · rename_i unread
    cases ran
    exact .unparsed unread
  · rename_i info parsed
    split at ran
    · rename_i absent
      cases ran
      exact .unknown parsed absent
    · rename_i s there
      split at ran
      · rename_i ready
        exact registerCreated parsed there (sameRoutesRefl s) (.inl ready) (Option.some.inj ran)
      · rename_i unready
        simp only [bind,Option.bind_eq_some_iff] at ran
        obtain ⟨filled,delivered,ran⟩ := ran
        have kept := deliverRoutes delivered
        have same : SameRoutes s filled := ⟨kept.map,kept.length,kept.columns,kept.tableInfo⟩
        split at ran
        · rename_i isOk
          exact registerCreated parsed there same (.inr isOk) (Option.some.inj ran)
        · rename_i failed
          cases ran
          exact .unfilled parsed there same ⟨by simpa using unready,by simpa using failed⟩

theorem createdInside {d : ElementType} {select : String → SelectResult} {name : String} {preprocessorJson : Json}
    {ok : Bool} (inside : Inside m) (created : Created m d select name preprocessorJson m' ok) : Inside m' := by
  cases created with
  | unparsed _ => exact inside
  | unknown _ _ => exact inside
  | unfilled _ there same _ => exact insideInsert inside (sameRoutesInside inside there same)
  | refused _ there same _ _ => exact insideInsert inside (sameRoutesInside inside there same)
  | registered _ there _ _ map length =>
      refine insideInsert inside (fun other i found => ?_)
      rw [map] at found
      rw [length]
      rcases OrderedMap.insertFound found with ⟨_,rfl⟩ | ⟨_,before⟩
      · exact Nat.lt_succ_self _
      · exact Nat.lt_succ_of_lt (inside _ _ other i there before)

omit [∀ d, Scalar (V d)] in
theorem resolvesInsert {tableName name : String} {s s' : TableStore V} {routes : StdMap String}
    (there : m.tableStoreMap[tableName]? = some s)
    (same : s'.modelInputPreprocessorIdMap[name]? = s.modelInputPreprocessorIdMap[name]?)
    (route : routes[name]? = m.modelInputToTableNameMap[name]?) :
    resolves ⟨m.tableStoreMap.insert tableName s',routes⟩ name = resolves m name := by
  unfold resolves
  rw [route]
  refine Option.bind_congr (fun other _ => ?_)
  by_cases here : other = tableName
  · subst here
    simp only [Std.ExtTreeMap.getElem?_insert_self,there,bind,Option.bind_some,same]
  · rw [OrderedMap.insertOther here]

omit [∀ d, Scalar (V d)] in
theorem resolvesHere {tableName name : String} {s : TableStore V} :
    resolves ⟨m.tableStoreMap.insert tableName s,m.modelInputToTableNameMap.insert name tableName⟩ name =
      s.modelInputPreprocessorIdMap[name]?.map (fun i => (tableName,i)) := by
  simp only [resolves,Std.ExtTreeMap.getElem?_insert_self,bind,Option.bind_some]
  cases s.modelInputPreprocessorIdMap[name]? <;> rfl

theorem otherResolves {d : ElementType} {select : String → SelectResult} {name other : String} {preprocessorJson : Json}
    {ok : Bool} (apart : other ≠ name) (created : Created m d select name preprocessorJson m' ok) :
    resolves m' other = resolves m other := by
  cases created with
  | unparsed _ => rfl
  | unknown _ _ => rfl
  | unfilled _ there same _ => exact resolvesInsert there (by rw [same.map]) rfl
  | refused _ there same _ _ => exact resolvesInsert there (by rw [same.map]) (OrderedMap.insertOther apart)
  | registered _ there _ _ map _ =>
      exact resolvesInsert there (by rw [map,OrderedMap.insertOther apart]) (OrderedMap.insertOther apart)

theorem sameResolves {d : ElementType} {select : String → SelectResult} {name : String} {preprocessorJson : Json} {ok : Bool}
    (inside : Inside m) (created : Created m d select name preprocessorJson m' ok) :
    resolves m' name = resolves m name ↔ RefusalKeeps m d select name preprocessorJson := by
  cases created with
  | unparsed unread =>
      refine iff_of_true rfl (fun info parsed => ?_)
      rw [unread] at parsed
      contradiction
  | unknown parsed absent =>
      refine iff_of_true rfl (fun info' parsed' s there => ?_)
      cases parsed.symm.trans parsed'
      rw [absent] at there
      contradiction
  | unfilled parsed there same failed =>
      refine iff_of_true (resolvesInsert there (by rw [same.map]) rfl) (fun info' parsed' s' there' came => ?_)
      cases parsed.symm.trans parsed'
      cases there.symm.trans there'
      rw [failed.1,failed.2] at came
      simp at came
  | refused parsed there same came refuses =>
      rw [resolvesHere,same.map]
      refine ⟨fun here info' parsed' s' there' _ => ?_,fun keeps => (keeps _ parsed _ there came).2.symm⟩
      cases parsed.symm.trans parsed'
      cases there.symm.trans there'
      exact ⟨refuses,here.symm⟩
  | registered parsed there came takes map length =>
      refine iff_of_false (fun here => ?_) (fun keeps => takes (keeps _ parsed _ there came).1)
      rw [resolvesHere,map,Std.ExtTreeMap.getElem?_insert_self,Option.map_some] at here
      have before := here.symm
      simp only [resolves,bind,Option.bind_eq_some_iff,Option.some.injEq,Prod.mk.injEq] at before
      obtain ⟨tableName,_,s',there',i,found,rfl,rfl⟩ := before
      cases there.symm.trans there'
      exact Nat.lt_irrefl _ (inside _ _ _ _ there found)

end Managers

section Runs
variable {m m' : UserEventsManager V} {dump parse}

theorem registerCases {l : Loading} {i : Nat} {modelId : String} {input : TensorInfo} {returned : Bool}
    (ran : register l i modelId input m = some (m',returned)) :
    (elementTypeOf input.dataType = none ∧ m' = m ∧ returned = false) ∨ ∃ d, elementTypeOf input.dataType = some d ∧
      Created m d (l.select i) (modelId ++ input.name) input.preprocessorJson m' returned := by
  unfold register at ran
  split at ran
  · rename_i none
    cases ran
    exact .inl ⟨none,rfl,rfl⟩
  · rename_i d some
    exact .inr ⟨d,some,createCreated ran⟩

omit [∀ d, Scalar (V d)] in
theorem startInside (tables : List TableInfo) : Inside (start (V := V) tables) := by
  have general : ∀ map : StdMap (TableStore V), Inside ⟨map,∅⟩ →
      Inside ⟨tables.foldl (fun map info => map.insert info.name (TableStore.new info)) map,∅⟩ := by
    induction tables with
    | nil => exact fun _ inside => inside
    | cons info rest ih =>
        intro map inside
        refine ih _ (@insideInsert V ⟨map,∅⟩ inside _ _ _ (fun name i found => ?_))
        simp [TableStore.new] at found
  refine general ∅ (fun tableName s name i there => ?_)
  simp at there

theorem stepInside {a : Action} (inside : Inside m) (taken : step dump parse m a = some m') : Inside m' := by
  cases a with
  | addEvent exec clock stamp insertTime event tableName =>
      simp only [step,addEvent] at taken
      cases there : m.tableStoreMap[tableName]? with
      | none =>
          simp only [there] at taken
          cases taken
          exact inside
      | some s =>
          simp only [there] at taken
          split at taken
          · cases taken
            exact inside
          · rename_i returned ended
            cases taken
            split at ended
            · cases ended
              exact inside
            · split at ended
              · contradiction
              · split at ended
                · cases ended
                  exact inside
                · split at ended
                  · cases ended
                    exact insideInsert inside (sameRoutesInside inside there (addRowRoutes clock s _))
                  · cases ended
                    exact inside
  | register l i modelId input =>
      simp only [step] at taken
      obtain ⟨⟨m'',returned⟩,ran,rfl⟩ := Option.map_eq_some_iff.mp taken
      rcases registerCases ran with ⟨_,rfl,_⟩ | ⟨d,_,created⟩
      · exact inside
      · exact createdInside inside created
  | getModelInput clock name rows =>
      simp only [step] at taken
      obtain ⟨⟨m'',result⟩,ran,rfl⟩ := Option.map_eq_some_iff.mp taken
      unfold UserEventsManager.getModelInput at ran
      split at ran
      · cases ran
        exact inside
      · split at ran
        · cases ran
          exact inside
        · rename_i s there
          simp only [bind,Option.bind_eq_some_iff] at ran
          obtain ⟨⟨s',made⟩,asked,ran⟩ := ran
          cases ran
          exact insideInsert inside (sameRoutesInside inside there (modelInputRoutes asked))

theorem registeredResolves (inside : Inside m) {l : Loading} {i : Nat} {modelId : String} {input : TensorInfo}
    {returned : Bool} (ran : register l i modelId input m = some (m',returned)) (other : String) :
    resolves m' other = resolves m other ↔ modelId ++ input.name ≠ other ∨
      ∀ d ∈ elementTypeOf input.dataType, RefusalKeeps m d (l.select i) (modelId ++ input.name) input.preprocessorJson := by
  rcases registerCases ran with ⟨none,rfl,rfl⟩ | ⟨d,some,created⟩
  · simp [none]
  · simp only [some,Option.mem_some_iff,forall_eq']
    by_cases same : modelId ++ input.name = other
    · subst same
      rw [sameResolves inside created]
      simp
    · exact iff_of_true (otherResolves (Ne.symm same) created) (.inl same)

theorem unshadowedIff (dump : Json → String) (parse : String → Option Json) (tables : List TableInfo)
    (actions : List Action) (m m' : UserEventsManager V) (reached : run (step dump parse) (start tables) actions = some m)
    (l : Loading) (i : Nat) (modelId : String) (input : TensorInfo) (returned : Bool)
    (ran : register l i modelId input m = some (m',returned)) (otherModelId otherInputName : String) :
    resolves m' (otherModelId ++ otherInputName) = resolves m (otherModelId ++ otherInputName) ↔
      modelId ++ input.name ≠ otherModelId ++ otherInputName ∨ ∀ d ∈ elementTypeOf input.dataType,
        RefusalKeeps m d (l.select i) (modelId ++ input.name) input.preprocessorJson :=
  registeredResolves (runInvariant _ (fun _ _ _ inside taken => stepInside inside taken) (startInside tables) reached) ran _

def loading : Loading := ⟨⟨true,fun _ => true,fun _ _ => true⟩,fun _ => FailedBackfill.still,fun _ _ => ⟨[],true⟩⟩

def sessions (name : String) : TensorInfo := ⟨name,6,"",false,[1],1,FailedBackfill.ordersJson,true⟩

def ordersTable : List TableInfo := [⟨"orders",∅,60⟩]

def rLoaded : List Action := [.register loading 0 "r" (sessions "anker")]

theorem sessionsRegistered : ∃ m m' : UserEventsManager IntValues,
    run (step (fun _ => "") (fun _ => none)) (start ordersTable) rLoaded = some m ∧
    register loading 0 "rank" (sessions "er") m = some (m',true) ∧
    resolves m ("r" ++ "anker") = some ("orders",0) ∧ resolves m' ("r" ++ "anker") = some ("orders",1) := by
  have ended : ((run (step (V := IntValues) (fun _ => "") (fun _ => none)) (start ordersTable) rLoaded).bind (fun m =>
      (register loading 0 "rank" (sessions "er") m).map (fun next =>
        (next.2,resolves m ("r" ++ "anker"),resolves next.1 ("r" ++ "anker"))))) =
      some (true,some ("orders",0),some ("orders",1)) := by decide +kernel
  obtain ⟨m,reached,last⟩ := Option.bind_eq_some_iff.mp ended
  obtain ⟨⟨m',returned⟩,ran,same⟩ := Option.map_eq_some_iff.mp last
  simp only [Prod.mk.injEq] at same
  obtain ⟨rfl,first,second⟩ := same
  exact ⟨m,m',reached,ran,first,second⟩

theorem unshadowedSessions : ∃ m m' : UserEventsManager IntValues,
    run (step (fun _ => "") (fun _ => none)) (start ordersTable) rLoaded = some m ∧
    (resolves m' ("r" ++ "anker") = resolves m ("r" ++ "anker") ↔
      "rank" ++ (sessions "er").name ≠ "r" ++ "anker" ∨ ∀ d ∈ elementTypeOf (sessions "er").dataType,
        RefusalKeeps m d (loading.select 0) ("rank" ++ (sessions "er").name) (sessions "er").preprocessorJson) := by
  obtain ⟨m,m',reached,ran,-,-⟩ := sessionsRegistered
  exact ⟨m,m',reached,unshadowedIff (fun _ => "") (fun _ => none) ordersTable rLoaded m m' reached loading 0 "rank"
    (sessions "er") true ran "r" "anker"⟩

/- The model rank with the input er is loaded after the model r with the input anker. -/
theorem joinedNamesMeet : ¬ ∀ (tables : List TableInfo) (actions : List Action) (m m' : UserEventsManager IntValues)
    (l : Loading) (i : Nat) (modelId otherModelId otherInputName : String) (input : TensorInfo) (returned : Bool),
    (modelId,input.name) ≠ (otherModelId,otherInputName) →
      run (step (fun _ => "") (fun _ => none)) (start tables) actions = some m →
      register l i modelId input m = some (m',returned) →
      resolves m' (otherModelId ++ otherInputName) = resolves m (otherModelId ++ otherInputName) := by
  intro claim
  obtain ⟨m,m',reached,ran,first,second⟩ := sessionsRegistered
  have same := claim ordersTable rLoaded m m' loading 0 "rank" "r" "anker" (sessions "er") true (by decide) reached ran
  rw [first,second] at same
  exact absurd same (by decide)

end Runs
end NimbleNet.ModelInputRoutes
