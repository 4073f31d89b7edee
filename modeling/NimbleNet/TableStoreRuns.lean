import NimbleNet.PartialMaps
import NimbleNet.PreProcessorTracking
import NimbleNet.TableStoreInvariant

/-! Runs of a table store over an integer element type, with one clock reading an
operation and readings that never decrease: what a request is answered with,
in terms of the rows given to the store. -/
namespace NimbleNet.TableStoreRuns
open AggregateColumn ColumnTracking LogSuffix PartialMaps PreProcessorTracking RollingWindow StepRuns TableStoreInvariant
  WindowTracking

abbrev Store := TableStore IntValues

def rowKey (groupColumns : List String) (r : TableRow) : String :=
  groupColumns.foldl (fun key c => key ++ (r.row.getD c "" ++ "+")) ""

def insideWindow (now : Int) (windowTime : ℚ) (r : TableRow) : Bool := ((now - r.timestamp : Int) : ℚ) ≤ windowTime

def rowsInside (info : PreProcessorInfo Int) (given : List TableRow) (now : Int) (windowTime : ℚ) (g column : String) :
    List Int :=
  (given.filter (fun r => rowKey info.groupColumns r == g && insideWindow now windowTime r)).map
    (fun r => Scalar.getAs (r.row.getD column ""))

def HoldsRows (info : PreProcessorInfo Int) (given : List TableRow) (now : Int) (groups : List String) (data : List Int) :
    Prop :=
  ∀ (k : Nat) g, groups[k]? = some g → ∀ (w : Nat) windowTime, info.rollingWindowsInSecs[w]? = some windowTime →
    ∀ (c : Nat) operation kind, info.operations[c]? = some operation → kindOfOperator operation.operator = some kind →
      data[k * (info.rollingWindowsInSecs.length * info.operations.length) + (w * info.operations.length + c)]? =
        some (reference kind operation.default (rowsInside info given now windowTime g operation.columnName))

def timedStep (s : Tracked IntValues × Int) (a : Int × Action IntValues) : Option (Tracked IntValues × Int) :=
  if a.1 < s.2 then none else (step s.1 (fun _ _ => a.1,a.2)).map (·,a.1)

def InScope (info : TableInfo) (a : Action IntValues) : Prop :=
  FromTable info a ∧ ∀ d name pre, a = .createPreprocessor d name pre →
    ∀ operation ∈ (pre : PreProcessorInfo Int).operations, (kindOfOperator operation.operator).isSome

def Fits (now : Int) (s : Store) (timestamp : Int) : Prop :=
  ∀ a ∈ s.preprocessors, ∀ window ∈ (a.preprocessor : PreProcessor Int).rollingWindows,
    expired now timestamp window.windowTime = false ∨ window.oldestIndex = -1

def routed (s : Store) (name : String) : Option (AnyPreProcessor IntValues) :=
  s.modelInputPreprocessorIdMap[name]?.bind (s.preprocessors[·]?)

def Timely (now : Int) (s : Store) : Action IntValues → Prop
  | .addEvent r => s.isReadyToBeFilled = true → s.checkColumnsOfRow r = true → Fits now s r.timestamp
  | .callback cells => s.isReadyToBeFilled = true →
      ∀ read ∈ UserEventsManager.readCells cells, ∀ t ∈ read.1, Fits now s t
  | .setToFillInMemory => True
  | .createPreprocessor _ _ info => (info.groupColumns.mapM (s.columnToIdMap[·]?)).isSome = true →
      (info.operations.mapM s.columnIdFor).isSome = true → ∀ windowTime ∈ info.rollingWindowsInSecs,
        OldestFirst now windowTime (s.allEvents.map TableEvent.timestamp)
  | .getModelInput name rows => ∀ a ∈ routed s name, (rows.mapM (s.groupOfInput a.preprocessor)).isSome = true →
      ∀ window ∈ (a.preprocessor : PreProcessor Int).rollingWindows, Prompt now s.allEvents window ∧
        ∀ e ∈ s.allEvents, (expired now e.timestamp window.windowTime = true ↔
          window.windowTime < (now - e.timestamp : Int))

instance (now : Int) (s : Store) (a : Action IntValues) : Decidable (Timely now s a) := by
  cases a <;> simp only [Timely,Fits,OldestFirst] <;> infer_instance

def Described (s : Store) (groupIds : List Nat) (shape : Shape) : Prop :=
  shape.info.groupColumns.mapM (s.columnToIdMap[·]?) = some groupIds ∧
    shape.info.operations.mapM (fun operation => s.columnToIdMap[operation.columnName]?) = some shape.columnIds

def Follows (s : Store) (log : List TableEvent) (last : Int) (a : AnyPreProcessor IntValues) : Prop :=
  ∃ shape : Shape, shape.Known ∧ PreTracks shape log last a.preprocessor ∧ Described s a.preprocessor.groupIds shape

structure Exact (info : TableInfo) (s : Tracked IntValues × Int) : Prop where
  represents : Represents info s.1
  each : ∀ a ∈ s.1.store.preprocessors, Follows s.1.store s.1.store.allEvents s.2 a

section Steps
variable {info : TableInfo} {log : List TableEvent} {last now : Int}

theorem sameForRefl (id : Nat) (log : List TableEvent) : List.Forall₂ (SameFor id) log log :=
  List.forall₂_same.mpr (fun _ _ => ⟨rfl,rfl,rfl⟩)

theorem groupAtAppend {id : Nat} {e : TableEvent} (inside : id < e.groups.length) (more : List String) :
    SameFor id e {e with groups := e.groups ++ more} :=
  ⟨by simp [TableEvent.groupAt,List.getD_eq_getElem?_getD,List.getElem?_append_left inside],rfl,rfl⟩

theorem feedExact (later : last ≤ now) {s : Store} {ps : List (AnyPreProcessor IntValues)} {j : Nat} {e : TableEvent}
    (size : e.groups.length = j) (ids : ∀ (k : Nat) a, ps[k]? = some a → a.preprocessor.id = j + k)
    (each : ∀ a ∈ ps, Follows s log last a)
    (fits : ∀ a ∈ ps, ∀ window ∈ (a.preprocessor : PreProcessor Int).rollingWindows, Arrives now e window) :
    ∀ a ∈ (TableStore.feed (fun _ _ => now) log.length j ps e).1,
      Follows s (log ++ [(TableStore.feed (fun _ _ => now) log.length j ps e).2]) now a := by
  induction ps generalizing j e with
  | nil => exact fun a member => absurd member List.not_mem_nil
  | cons first rest ih =>
      obtain ⟨d,p⟩ := first
      obtain ⟨e',event⟩ : ∃ e' : TableEvent, e' = {e with groups := e.groups ++ [p.getGroupFromEvent e]} := ⟨_,rfl⟩
      have size' : e'.groups.length = j + 1 := by simp [event,size]
      have others := ih size' (fun k a at' => by rw [ids (k + 1) a at']; omega)
        (fun a member => each a (List.mem_cons_of_mem _ member))
        (fun a member window there => by
          have arrives := fits a (List.mem_cons_of_mem _ member) window there
          rwa [event])
      intro a member
      simp only [TableStore.feed,← event] at member ⊢
      rcases List.mem_cons.mp member with rfl | later'
      · obtain ⟨shape,known,tracks,described⟩ := each _ List.mem_cons_self
        have arrives : ∀ window ∈ (p : PreProcessor Int).rollingWindows, Arrives now e' window := by
          rw [event]
          exact fits _ List.mem_cons_self
        have id : shape.id = j := tracks.same.1.symm.trans (ids 0 _ rfl)
        refine ⟨shape,known,preCongr ?_ (addTracks known tracks later arrives).1,?_⟩
        · rw [feedEvent]
          refine List.rel_append (sameForRefl shape.id log) (.cons (groupAtAppend ?_ _) .nil)
          omega
        · exact (addEventSignature (fun _ => now) (p : PreProcessor Int) e' log.length).2 ▸ described
      · exact others a later'

theorem followsLater {s : Store} {a : AnyPreProcessor IntValues} (h : Follows s log last a) (later : last ≤ now) :
    Follows s log now a := by
  obtain ⟨shape,known,tracks,described⟩ := h
  exact ⟨shape,known,preLater tracks later,described⟩

theorem idAt {s : Tracked IntValues} (h : Represents info s) {k : Nat} {a : AnyPreProcessor IntValues}
    (at' : s.store.preprocessors[k]? = some a) : a.preprocessor.id = k :=
  (representsAligned h).ids k a at'

theorem addRowExact {s : Tracked IntValues} (h : Exact info (s,last)) (later : last ≤ now) {r : TableRow}
    (keys : r.row.keys = info.schema.keys)
    (fits : s.store.isReadyToBeFilled = true → Fits now s.store r.timestamp) :
    Exact info (s.addRow (fun _ _ => now) r,now) where
  represents := addRowRepresents h.represents (fun _ _ => now) keys
  each := by
    cases ready : s.store.isReadyToBeFilled with
    | false =>
        simp only [Tracked.addRow,TableStore.addRow,ready,Bool.not_false,if_true]
        exact fun a member => followsLater (h.each a member) later
    | true =>
        have known : r.row.keys.all (s.store.columnToIdMap.contains ·) = true := by
          simp only [keys,List.all_eq_true,Std.ExtTreeMap.mem_keys,Std.ExtTreeMap.contains_iff_mem,
            knownColumn h.represents,imp_self,implies_true]
        simp only [Tracked.addRow,TableStore.addRow,ready,known,Bool.not_true,Bool.false_eq_true,if_false]
        exact feedExact later rfl (fun k a at' => by rw [idAt h.represents at',Nat.zero_add]) h.each (fits ready)

theorem createExact {s : Tracked IntValues} (h : Exact info (s,last)) (later : last ≤ now) {d name}
    {pre : PreProcessorInfo Int} (known : ∀ operation ∈ pre.operations, (kindOfOperator operation.operator).isSome)
    (ordered : (pre.groupColumns.mapM (s.store.columnToIdMap[·]?)).isSome = true →
      (pre.operations.mapM s.store.columnIdFor).isSome = true → ∀ windowTime ∈ pre.rollingWindowsInSecs,
        OldestFirst now windowTime (s.store.allEvents.map TableEvent.timestamp)) :
    Exact info ({s with store := (s.store.createPreprocessor (fun _ _ => now) d name pre).1},now) where
  represents := createRepresents h.represents (fun _ _ => now) d name pre
  each := by
    have aligned := representsAligned h.represents
    unfold TableStore.createPreprocessor
    split
    · rename_i groupIds columnIds groups columns
      rw [groups,columns] at ordered
      have fresh := newTracks s.store.preprocessors.length groupIds columnIds pre now
      have kept := backfillSignature (fun _ _ => now) 0
        (PreProcessor.new s.store.preprocessors.length pre groupIds columnIds) s.store.allEvents
      have shapeKnown : Shape.Known ⟨s.store.preprocessors.length,columnIds,pre⟩ := known
      have made := backfillTracks shapeKnown fresh
        (fun window member used => by
          obtain ⟨_,_,rfl⟩ := List.mem_map.mp member
          exact absurd rfl used)
        (ordered rfl rfl)
      simp only [backfillEvents,List.nil_append,List.length_nil] at made ⊢
      intro a member
      rcases List.mem_append.mp member with old | new
      · obtain ⟨k,at'⟩ := List.mem_iff_getElem?.mp old
        obtain ⟨shape,known',tracks,described⟩ := followsLater (h.each a old) later
        refine ⟨shape,known',preCongr ?_ tracks,described⟩
        rw [List.forall₂_map_right_iff,List.forall₂_same]
        intro e there
        refine groupAtAppend ?_ _
        rw [aligned.groupsSize e there,← tracks.same.1,idAt h.represents at']
        exact (List.getElem?_eq_some_iff.mp at').1
      · rw [List.mem_singleton.mp new]
        refine ⟨_,shapeKnown,made,?_,describedColumns columns⟩
        exact kept.2 ▸ groups
    · exact fun a member => followsLater (h.each a member) later

def ReadsAs (s : Tracked IntValues) (e : TableEvent) (r : TableRow) : Prop :=
  e ∈ s.store.allEvents ∧ e.timestamp = r.timestamp ∧
    ∀ (c : String) (id : Nat), s.store.columnToIdMap[c]? = some id → e.columnAt id = r.row.getD c ""

theorem eventsReadAs {s : Tracked IntValues} (h : Represents info s) :
    List.Forall₂ (ReadsAs s) s.store.allEvents s.given := by
  have aligned := representsAligned h
  refine List.forall₂_iff_get.mpr ⟨aligned.givenSize,fun i left right => ⟨List.getElem_mem left,?_⟩⟩
  obtain ⟨time,values⟩ := aligned.rowValues i _ _ (List.getElem?_eq_getElem left) (List.getElem?_eq_getElem right)
  refine ⟨time,fun c id column => ?_⟩
  obtain ⟨value,given,read⟩ := values c id column
  simp only [List.get_eq_getElem,TableEvent.columnAt,List.getD_eq_getElem?_getD,read,
    Std.ExtTreeMap.getD_eq_getD_getElem?,given]

theorem keyOfRow {s : Tracked IntValues} {e r} (reads : ReadsAs s e r) {groupColumns : List String} {groupIds : List Nat}
    (positions : List.Forall₂ (fun c id => s.store.columnToIdMap[c]? = some id) groupColumns groupIds) (key : String) :
    groupIds.foldl (fun group groupId => group ++ (e.columnAt groupId ++ "+")) key =
      groupColumns.foldl (fun key c => key ++ (r.row.getD c "" ++ "+")) key := by
  induction positions generalizing key with
  | nil => rfl
  | cons here _ ih => rw [List.foldl_cons,List.foldl_cons,reads.2.2 _ _ here,ih]

/- The values of the live events are those of the rows given, when the float
comparison of ages agrees with the exact one. -/
theorem liveRows {s : Tracked IntValues} (h : Represents info s) {a : AnyPreProcessor IntValues} {index : Nat}
    (at' : s.store.preprocessors[index]? = some a) {shape : Shape}
    (tracks : PreTracks shape s.store.allEvents last a.preprocessor)
    (described : Described s.store a.preprocessor.groupIds shape) {windowTime : ℚ}
    (compared : ∀ e ∈ s.store.allEvents, (expired now e.timestamp windowTime = true ↔
      windowTime < (now - e.timestamp : Int))) (g : String) {c : Nat} {operation : Operation Int}
    (column : shape.info.operations[c]? = some operation) :
    liveValues shape s.store.allEvents now windowTime g c =
      rowsInside shape.info s.given now windowTime g operation.columnName := by
  have positions := mapMEach described.2
  have inside : c < shape.columnIds.length := positions.length_eq ▸ (List.getElem?_eq_some_iff.mp column).1
  obtain ⟨operation',there,position⟩ := forall₂At positions (List.getElem?_eq_getElem inside)
  cases column.symm.trans there
  have id : shape.id = index := tracks.same.1.symm.trans (idAt h at')
  refine filterMapCongr (eventsReadAs h) (fun e r reads => ⟨?_,?_⟩)
  · have key : e.groupAt shape.id = rowKey shape.info.groupColumns r := by
      have there := (representsAligned h).groups e reads.1 index a at'
      rw [TableEvent.groupAt,id,List.getD_eq_getElem?_getD,there,Option.getD_some]
      exact keyOfRow reads (mapMEach described.1) ""
    have age := compared e reads.1
    rw [key]
    congr 1
    rw [insideWindow,← reads.2.1,Bool.eq_iff_iff,Bool.not_eq_true',decide_eq_true_eq,← not_lt,← age,Bool.not_eq_true]
  · rw [List.getD_eq_getElem?_getD,List.getElem?_eq_getElem inside,Option.getD_some,reads.2.2 _ _ position]

theorem modelInputExact {s : Tracked IntValues} (h : Exact info (s,last)) (later : last ≤ now) {name rows}
    (timely : Timely now s.store (.getModelInput name rows)) :
    ∃ store result, s.store.getModelInput (fun _ _ => now) name rows = some (store,result) ∧
      Exact info ({s with store := store},now) ∧
      ∀ a groups, routed s.store name = some a → rows.mapM (s.store.groupOfInput a.preprocessor) = some groups →
        ∃ input : ModelInput Int, result = some ⟨a.elementType,input⟩ ∧
          HoldsRows (a.preprocessor : PreProcessor Int).info s.given now groups input.data := by
  have stays : Exact info (s,now) := ⟨h.represents,fun a member => followsLater (h.each a member) later⟩
  unfold TableStore.getModelInput
  cases route : s.store.modelInputPreprocessorIdMap[name]? with
  | none =>
      refine ⟨s.store,none,rfl,stays,fun a groups target => ?_⟩
      simp [routed,route] at target
  | some index =>
      have inside := h.represents.routes name index route
      have at' := List.getElem?_eq_getElem inside
      generalize s.store.preprocessors[index] = a at at'
      have target : routed s.store name = some a := by simp [routed,route,at']
      simp only [at',bind,Option.bind_some]
      cases keys : rows.mapM (s.store.groupOfInput a.preprocessor) with
      | none =>
          refine ⟨s.store,none,rfl,stays,fun a' groups target' made => ?_⟩
          cases target.symm.trans target'
          rw [keys] at made
          contradiction
      | some groups =>
          have prompt := timely a target (by rw [keys]; rfl)
          obtain ⟨shape,known,tracks,described⟩ := h.each a (List.mem_of_getElem? at')
          obtain ⟨p',input,ran,tracks',holds⟩ := modelInputTracks tracks later (fun window member => (prompt window member).1)
            groups
          have answered : s.store.getModelInput (fun _ _ => now) name rows =
              some ({s.store with preprocessors := s.store.preprocessors.set index ⟨a.elementType,p'⟩},
                some ⟨a.elementType,input⟩) := by
            simp only [TableStore.getModelInput,route,at',bind,Option.bind_some,keys]
            rw [ran]
            rfl
          simp only [ran]
          refine ⟨_,_,rfl,⟨getModelInputRepresents h.represents answered,?_⟩,?_⟩
          · intro a' member
            rcases List.mem_or_eq_of_mem_set member with old | rfl
            · exact followsLater (h.each a' old) later
            · exact ⟨shape,known,tracks',(modelInputSignature ran).2 ▸ described⟩
          · intro a' groups' target' made
            cases target.symm.trans target'
            cases keys.symm.trans made
            refine ⟨input,rfl,?_⟩
            rw [tracks.same.2.2.1]
            intro k g group w windowTime time c operation kind column operator
            have wInside : w < a.preprocessor.rollingWindows.length :=
              tracks.windows.length_eq ▸ (List.getElem?_eq_some_iff.mp time).1
            have window := List.getElem?_eq_getElem wInside
            have ofShape := (windowOf tracks window).2
            rw [List.getD_eq_getElem?_getD,time,Option.getD_some] at ofShape
            have compared := (prompt _ (List.mem_of_getElem? window)).2
            rw [ofShape.2.2] at compared
            have cell := holds k g group w windowTime time c operation column
            rwa [liveRows h.represents at' tracks described compared g column,Shape.kind,operator] at cell

theorem stepExact {s next : Tracked IntValues × Int} {a : Int × Action IntValues} (h : Exact info s)
    (scope : InScope info a.2) (timely : Timely a.1 s.1.store a.2) (taken : timedStep s a = some next) :
    Exact info next := by
  obtain ⟨s,last⟩ := s
  obtain ⟨now,action⟩ := a
  unfold timedStep at taken
  split at taken
  · contradiction
  · rename_i order
    have later : last ≤ now := Int.not_lt.mp order
    obtain ⟨next',took,rfl⟩ := Option.map_eq_some_iff.mp taken
    have stays : Exact info (s,now) := ⟨h.represents,fun a member => followsLater (h.each a member) later⟩
    cases action with
    | addEvent r =>
        simp only [step,Option.some.injEq] at took
        subst took
        split
        · rename_i checked
          exact addRowExact h later (checkedKeys h.represents checked) (fun ready => timely ready checked)
        · exact stays
    | callback cells =>
        simp only [step,bind,Option.bind_eq_some_iff] at took
        obtain ⟨⟨timestamp,row⟩,read,took⟩ := took
        cases timestamp with
        | none =>
            cases took
            exact stays
        | some t =>
            cases took
            exact addRowExact h later (readCellsKeys scope.1.1 scope.1.2 read) (fun ready => timely ready _ read t rfl)
    | setToFillInMemory =>
        cases took
        have rep := h.represents
        exact ⟨⟨rep.schema,rep.rows,rep.keys,rep.groups,rep.ids,rep.routes⟩,stays.each⟩
    | createPreprocessor d name pre =>
        cases took
        exact createExact h later (scope.2 d name pre rfl) timely
    | getModelInput name rows =>
        obtain ⟨store,result,ran,exact',_⟩ := modelInputExact h later timely
        simp only [step,ran,bind,Option.bind_some,Option.some.injEq] at took
        exact took ▸ exact'

end Steps

theorem newExact (info : TableInfo) (start : Int) : Exact info (Tracked.new info,start) :=
  ⟨newRepresents info,fun _ member => absurd member List.not_mem_nil⟩

theorem blocksHold {info : TableInfo} {start now last : Int} {actions : List (Int × Action IntValues)} {name rows}
    {s : Tracked IntValues} (scope : ∀ a ∈ actions, InScope info a.2)
    (timely : Guarded timedStep (fun s a => Timely a.1 s.1.store a.2) (Tracked.new info,start)
      (actions ++ [(now,.getModelInput name rows)]))
    (reached : run timedStep (Tracked.new info,start) actions = some (s,last)) (later : last ≤ now) :
    ∃ store result, s.store.getModelInput (fun _ _ => now) name rows = some (store,result) ∧
      ∀ a groups, routed s.store name = some a → rows.mapM (s.store.groupOfInput a.preprocessor) = some groups →
        ∃ input : ModelInput Int, result = some ⟨a.elementType,input⟩ ∧
          HoldsRows (a.preprocessor : PreProcessor Int).info s.given now groups input.data := by
  have both : Guarded timedStep (fun s a => InScope info a.2 ∧ Timely a.1 s.1.store a.2) (Tracked.new info,start)
      actions := guardedAnd scope (guardedPrefix timely)
  have exact' : Exact info (s,last) :=
    guardedInvariant (fun _ _ _ h guard taken => stepExact h guard.1 guard.2 taken) (newExact info start) both reached
  obtain ⟨store,result,ran,_,holds⟩ := modelInputExact exact' later (guardedSuffix timely reached).1
  exact ⟨store,result,ran,holds⟩

section Carts

def carts : TableInfo := ⟨"carts",.ofList [("items","INT"),("user","TEXT")],60⟩

def cartOf (items : String) (timestamp : Int) : TableRow := ⟨timestamp,.ofList [("items",items),("user","ann")]⟩

def cartSums : PreProcessorInfo Int := ⟨[10],[⟨"items","Sum",0⟩],["user"],"carts"⟩

def cartRun (first second : Int) : List (Int × Action IntValues) :=
  [(0,.setToFillInMemory),(0,.createPreprocessor .int32 "ranker" cartSums),(first,.addEvent (cartOf "5" first)),
    (second,.addEvent (cartOf "7" second))]

theorem cartScope (first second : Int) : ∀ a ∈ cartRun first second, InScope carts a.2 := by
  intro a member
  simp only [cartRun,List.mem_cons,List.not_mem_nil,or_false] at member
  rcases member with rfl | rfl | rfl | rfl
  · exact ⟨trivial,by simp⟩
  · refine ⟨trivial,fun d name pre same => ?_⟩
    cases same
    decide
  · exact ⟨trivial,by simp⟩
  · exact ⟨trivial,by simp⟩

def cartAnswer (first second now : Int) : Option (List Int × PreProcessorInfo Int × List String × List Int) := do
  let (s,_) ← run timedStep (Tracked.new carts,0) (cartRun first second)
  let (_,result) ← s.store.getModelInput (fun _ _ => now) "ranker" [[("user","ann")]]
  let answer ← result
  let a ← routed s.store "ranker"
  let groups ← [[("user","ann")]].mapM (s.store.groupOfInput (a.preprocessor : PreProcessor Int))
  some (answer.input.data,(a.preprocessor : PreProcessor Int).info,groups,
    rowsInside cartSums s.given now 10 "ann+" "items")

theorem cartAnswerParts {first second now last : Int} {s : Tracked IntValues} {data pre groups values}
    (reached : run timedStep (Tracked.new carts,0) (cartRun first second) = some (s,last))
    (answer : cartAnswer first second now = some (data,pre,groups,values)) :
    ∃ store r a, s.store.getModelInput (fun _ _ => now) "ranker" [[("user","ann")]] = some (store,some r) ∧
      r.input.data = data ∧ routed s.store "ranker" = some a ∧ (a.preprocessor : PreProcessor Int).info = pre ∧
      [[("user","ann")]].mapM (s.store.groupOfInput (a.preprocessor : PreProcessor Int)) = some groups ∧
      rowsInside cartSums s.given now 10 "ann+" "items" = values := by
  simp only [cartAnswer,reached,bind,Option.bind_some,Option.bind_eq_some_iff] at answer
  obtain ⟨⟨store,result⟩,ran,r,returned,a,target,keys,made,parts⟩ := answer
  cases parts
  cases returned
  exact ⟨store,r,a,ran,rfl,target,rfl,made,rfl⟩

theorem blocksHoldCarts : ∃ (s : Tracked IntValues) (store : Store) (r : AnyModelInput IntValues),
    run timedStep (Tracked.new carts,0) (cartRun 0 5) = some (s,5) ∧
      s.store.getModelInput (fun _ _ => 6) "ranker" [[("user","ann")]] = some (store,some r) ∧
      HoldsRows cartSums s.given 6 ["ann+"] r.input.data ∧ r.input.data = [12] := by
  have timely : Guarded timedStep (fun s a => Timely a.1 s.1.store a.2) (Tracked.new carts,0)
      (cartRun 0 5 ++ [(6,.getModelInput "ranker" [[("user","ann")]])]) := by decide +kernel
  obtain ⟨s,reached⟩ : ∃ s, run timedStep (Tracked.new carts,0) (cartRun 0 5) = some (s,5) := ⟨_,rfl⟩
  obtain ⟨store,result,ran,holds⟩ := blocksHold (cartScope 0 5) timely reached (by decide)
  have answer : cartAnswer 0 5 6 = some ([12],cartSums,["ann+"],[5,7]) := by decide +kernel
  obtain ⟨store',r,a,ran',data,target,info,made,_⟩ := cartAnswerParts reached answer
  obtain ⟨input,returned,block⟩ := holds a ["ann+"] target made
  cases ran.symm.trans ran'
  cases returned
  exact ⟨s,store,⟨a.elementType,input⟩,reached,ran,info ▸ block,data⟩

/- The first cart has left the window at 11 and is counted all the same: the second
one, still inside, ends update_window before any column is told. -/
theorem staleCartCounted : ¬ ∀ (info : TableInfo) (start now last : Int) (actions : List (Int × Action IntValues))
    (name : String) (rows : List (List (String × String))) (s : Tracked IntValues),
    (∀ a ∈ actions, InScope info a.2) → run timedStep (Tracked.new info,start) actions = some (s,last) → last ≤ now →
      ∃ store result, s.store.getModelInput (fun _ _ => now) name rows = some (store,result) ∧
        ∀ a groups, routed s.store name = some a → rows.mapM (s.store.groupOfInput a.preprocessor) = some groups →
          ∃ input : ModelInput Int, result = some ⟨a.elementType,input⟩ ∧
            HoldsRows (a.preprocessor : PreProcessor Int).info s.given now groups input.data := by
  intro claim
  obtain ⟨s,reached⟩ : ∃ s, run timedStep (Tracked.new carts,0) (cartRun 0 10) = some (s,10) := ⟨_,rfl⟩
  obtain ⟨store,result,ran,holds⟩ := claim carts 0 11 10 (cartRun 0 10) "ranker" [[("user","ann")]] s (cartScope 0 10)
    reached (by decide)
  have answer : cartAnswer 0 10 11 = some ([12],cartSums,["ann+"],[7]) := by decide +kernel
  obtain ⟨store',r,a,ran',data,target,info,made,values⟩ := cartAnswerParts reached answer
  obtain ⟨input,returned,block⟩ := holds a ["ann+"] target made
  cases ran.symm.trans ran'
  cases returned
  rw [info] at block
  have cell := block 0 "ann+" rfl 0 10 rfl 0 ⟨"items","Sum",0⟩ .sum rfl rfl
  rw [values,data] at cell
  exact absurd cell (by decide)

end Carts

end NimbleNet.TableStoreRuns
