import NimbleNet.FeatureLayout
import NimbleNet.GroupKeys
import NimbleNet.PartialMaps

/-! When get_model_input returns a vector: the verdict on the rows of the request, and the
one on the operators of the preprocessor. The second is only known once an event has
been taken in, and the first is lost with an empty list of group columns. -/
namespace NimbleNet.ModelInputVerdicts
open AggregateColumn FeatureLayout GroupKeys PartialMaps PreProcessor RollingWindow StepRuns TableStore TableStoreInvariant

section Windows
variable {T : Type} [Scalar T]

/- The index that update_window hands to remove_events, where it comes so far. -/
def removesAt (clock : Nat → Int) (window : RollingWindow T) (allEvents : List TableEvent) : Option Int :=
  if window.oldestIndex < 0 then some window.oldestIndex
  else
    let start := window.oldestIndex.toNat
    match scan clock window.windowTime start (allEvents.drop start) with
    | (_,false) => none
    | (oldest,true) => some oldest

def WindowReads (clock : Nat → Int) (window : RollingWindow T) (allEvents : List TableEvent) : Prop :=
  ∀ oldest ∈ removesAt clock window allEvents,
    window.groupWiseAggregatedColumnMap.toList.all (fun item =>
      item.2.all (fun col => readsInside col allEvents.length oldest)) = true

def Reads (clock : Nat → Nat → Int) (windows : List (RollingWindow T)) (allEvents : List TableEvent) : Prop :=
  ∀ w window, windows[w]? = some window → WindowReads (clock w) window allEvents

theorem removeFromAllDefined {window : RollingWindow T} {features : StdMap (List T)} {allEvents : List TableEvent}
    {oldest : Int} : (window.removeFromAll features allEvents oldest).isSome = true ↔
      window.groupWiseAggregatedColumnMap.toList.all (fun item =>
        item.2.all (fun col => readsInside col allEvents.length oldest)) = true := by
  unfold removeFromAll
  simp only
  split
  · rename_i inside
    exact iff_of_true rfl inside
  · rename_i outside
    exact iff_of_false (by simp) outside

theorem updateWindowDefined {clock : Nat → Int} {window : RollingWindow T} {features : StdMap (List T)}
    {allEvents : List TableEvent} :
    (window.updateWindow clock features allEvents).isSome = true ↔ WindowReads clock window allEvents := by
  unfold updateWindow WindowReads removesAt
  split
  · rw [removeFromAllDefined]
    simp
  · simp only
    rcases scan clock window.windowTime window.oldestIndex.toNat (allEvents.drop window.oldestIndex.toNat) with
      ⟨oldest,stopped | ended⟩
    · simp
    · rw [removeFromAllDefined]
      simp

omit [Scalar T] in
theorem readsCons {clock : Nat → Nat → Int} {window : RollingWindow T} {rest : List (RollingWindow T)}
    {allEvents : List TableEvent} : Reads clock (window :: rest) allEvents ↔
      WindowReads (clock 0) window allEvents ∧ Reads (fun w => clock (w + 1)) rest allEvents := by
  constructor
  · intro reads
    exact ⟨reads 0 window rfl,fun w other at' => reads (w + 1) other at'⟩
  · rintro ⟨here,later⟩ w other at'
    cases w with
    | zero =>
        cases at'
        exact here
    | succ w => exact later w other at'

theorem updateWindowsDefined {clock : Nat → Nat → Int} {allEvents : List TableEvent} {i : Nat}
    {windows : List (RollingWindow T)} {features : StdMap (List T)} :
    (updateWindows clock allEvents i windows features).isSome = true ↔ Reads (fun w => clock (i + w)) windows allEvents := by
  induction windows generalizing i features with
  | nil => simp [updateWindows,Reads]
  | cons window rest ih =>
      have here := @updateWindowDefined T _ (clock i) window features allEvents
      rw [readsCons,Nat.add_zero,← here]
      simp only [updateWindows,bind]
      cases moved : window.updateWindow (clock i) features allEvents with
      | none => simp
      | some result =>
          have later := @ih (i + 1) result.2
          simp only [Nat.add_assoc,Nat.add_comm 1] at later
          rw [← later]
          simp only [Option.bind_some,Option.isSome_some,true_and]
          cases updateWindows clock allEvents (i + 1) rest result.2 <;> simp

omit [Scalar T] in
theorem readsUnopened {clock : Nat → Nat → Int} {p : PreProcessor T} (h : Laid p) (unfed : ¬ Fed p)
    (allEvents : List TableEvent) : Reads clock p.rollingWindows allEvents := by
  intro w window at' oldest _
  rw [List.all_eq_true]
  rintro ⟨g,columns⟩ member
  have there := Std.ExtTreeMap.mem_toList_iff_getElem?_eq_some.mp member
  have laid := (h.windows w window at').groups g
  rw [layout,there] at laid
  exact absurd ⟨g,laid.mp rfl⟩ unfed

theorem preprocessorAnswers {clock : Nat → Nat → Int} {p : PreProcessor T} {groups : List String}
    {allEvents : List TableEvent} : (∃ p' v, p.getModelInput clock groups allEvents = some (p',some v)) ↔
      p.isUseless = false ∧ Reads clock p.rollingWindows allEvents := by
  have defined := @updateWindowsDefined T _ clock allEvents 0 p.rollingWindows p.groupWiseFeatureMap
  simp only [Nat.zero_add] at defined
  unfold PreProcessor.getModelInput
  cases p.isUseless with
  | true => simp
  | false =>
      rw [← defined]
      simp only [Bool.false_eq_true,if_false,bind,true_and]
      cases updateWindows clock allEvents 0 p.rollingWindows p.groupWiseFeatureMap <;> simp

end Windows

section Rows
variable {V : ElementType → Type}

def Supplies {T : Type} (p : PreProcessor T) (rows : List (List (String × String))) : Prop :=
  ∀ row ∈ rows, ∀ c ∈ p.info.groupColumns, c ∈ row.map Prod.fst

def fillCell (s : TableStore V) (row : List (Option String)) (item : String × String) : List (Option String) :=
  match s.columnToIdMap[item.1]? with
  | none => row
  | some columnIndex => row.set columnIndex (some item.2)

theorem fillCellFilled {s : TableStore V} {row : List (Option String)}
    (inside : ∀ (key : String) id, s.columnToIdMap[key]? = some id → id < row.length) (item : String × String) (id : Nat) :
    ((fillCell s row item).getD id none).isSome = true ↔
      (row.getD id none).isSome = true ∨ s.columnToIdMap[item.1]? = some id := by
  unfold fillCell
  cases column : s.columnToIdMap[item.1]? with
  | none => simp
  | some columnIndex =>
      have below := inside item.1 columnIndex column
      by_cases same : columnIndex = id
      · subst same
        simp [List.getD_eq_getElem?_getD,below]
      · simp [List.getD_eq_getElem?_getD,List.getElem?_set_ne same,same]

theorem fillCellLength (s : TableStore V) (row : List (Option String)) (item : String × String) :
    (fillCell s row item).length = row.length := by
  unfold fillCell
  split
  · rfl
  · exact List.length_set

theorem cellsFilled {s : TableStore V} {row : List (Option String)}
    (inside : ∀ (key : String) id, s.columnToIdMap[key]? = some id → id < row.length) (input : List (String × String))
    (id : Nat) : ((input.foldl (fillCell s) row).getD id none).isSome = true ↔
      (row.getD id none).isSome = true ∨ ∃ key ∈ input.map Prod.fst, s.columnToIdMap[key]? = some id := by
  induction input generalizing row with
  | nil => simp
  | cons item rest ih =>
      rw [List.foldl_cons,ih (fun key id column => by rw [fillCellLength]; exact inside key id column),
        fillCellFilled inside,List.map_cons,or_assoc]
      simp only [List.mem_cons,exists_eq_or_imp]

theorem cellFilled {s : TableStore V} (inside : ∀ (key : String) id, s.columnToIdMap[key]? = some id → id < s.columns.length)
    (input : List (String × String)) (id : Nat) : ((s.rowOfInput input).getD id none).isSome = true ↔
      ∃ key ∈ input.map Prod.fst, s.columnToIdMap[key]? = some id := by
  have start := @cellsFilled V s (List.replicate s.columns.length none) (by simpa using inside) input id
  exact start.trans (by simp)

theorem unfilledKey {row : List (Option String)} {ids : List Nat} {id : Nat} (inside : id ∈ ids)
    (missing : row.getD id none = none) {group : String} :
    ids.foldlM (fun group id => (row.getD id none).map (fun value => group ++ (value ++ "+"))) group = none := by
  induction ids generalizing group with
  | nil => cases inside
  | cons first rest ih =>
      rw [List.foldlM_cons]
      rcases List.mem_cons.mp inside with rfl | later
      · rw [missing]
        rfl
      · cases row.getD first none with
        | none => rfl
        | some value => exact ih later

theorem groupFound {T : Type} [Scalar T] {s : TableStore V} {p : PreProcessor T} (input : List (String × String)) :
    (s.groupOfInput p input).isSome = true ↔
      p.groupIds ≠ [] ∧ ∀ id ∈ p.groupIds, ((s.rowOfInput input).getD id none).isSome = true := by
  have some : (s.groupOfInput p input).isSome = true ↔ p.getGroupFromRow (s.rowOfInput input) ≠ "" := by
    unfold TableStore.groupOfInput
    simp only
    split <;> simp_all
  rw [some]
  by_cases filled : ∀ id ∈ p.groupIds, ((s.rowOfInput input).getD id none).isSome = true
  · have key : (p.getGroupFromRow (s.rowOfInput input)).toList =
        SeparatedLists.joined '+' (p.groupIds.map (Row.request (s.rowOfInput input)).part) :=
      @groupJoined T p (.request (s.rowOfInput input)) filled
    have empty : p.getGroupFromRow (s.rowOfInput input) = "" ↔ p.groupIds = [] := by
      rw [← String.toList_inj,key]
      cases p.groupIds with
      | nil => simp [SeparatedLists.joined]
      | cons id rest => simp [SeparatedLists.joined]
    rw [Ne,empty]
    exact ⟨fun named => ⟨named,filled⟩,And.left⟩
  · refine iff_of_false (not_not.mpr ?_) (fun both => filled both.2)
    push Not at filled
    obtain ⟨id,inside,missing⟩ := filled
    rw [PreProcessor.getGroupFromRow,unfilledKey inside (by simpa using missing)]
    rfl

end Rows

section Answers
variable {V : ElementType → Type} [∀ d, Scalar (V d)] {info : TableInfo} {s : Tracked V} {d : ElementType}
  {p : PreProcessor (V d)}

theorem rowFound (h : Represents info s) (stored : Stored s.store ⟨d,p⟩) (row : List (String × String)) :
    (s.store.groupOfInput p row).isSome = true ↔
      p.info.groupColumns ≠ [] ∧ ∀ c ∈ p.info.groupColumns, c ∈ row.map Prod.fst := by
  have positions := (representsAligned h).columnIds
  have inside : ∀ (key : String) id, s.store.columnToIdMap[key]? = some id → id < s.store.columns.length :=
    fun key id column => (List.getElem?_eq_some_iff.mp ((positions key id).mp column)).1
  have lengths := (mapMEach stored.groupIds).length_eq
  have none : p.groupIds ≠ [] ↔ p.info.groupColumns ≠ [] := by
    simp only [ne_eq,← List.length_eq_zero_iff,← lengths]
  rw [groupFound,none]
  refine and_congr_right (fun _ => ⟨fun filled c member => ?_,fun supplied id member => ?_⟩)
  · obtain ⟨id,column⟩ := Option.isSome_iff_exists.mp
      (mapMSome.mp (Option.isSome_iff_exists.mpr ⟨_,stored.groupIds⟩) c member)
    obtain ⟨key,given,same⟩ :=
      (cellFilled inside row id).mp (filled id ((mapMMem stored.groupIds).mpr ⟨c,member,column⟩))
    have place := ((positions key id).mp same).symm.trans ((positions c id).mp column)
    cases place
    exact given
  · obtain ⟨c,there,column⟩ := (mapMMem stored.groupIds).mp member
    exact (cellFilled inside row id).mpr ⟨c,supplied c there,column⟩

theorem rowsFound (h : Represents info s) (stored : Stored s.store ⟨d,p⟩) (rows : List (List (String × String))) :
    (rows.mapM (s.store.groupOfInput p)).isSome = true ↔ (p.info.groupColumns ≠ [] ∨ rows = []) ∧ Supplies p rows := by
  simp only [mapMSome,rowFound h stored]
  constructor
  · intro all
    refine ⟨?_,fun row member => (all row member).2⟩
    cases rows with
    | nil => exact .inr rfl
    | cons row rest => exact .inl (all row List.mem_cons_self).1
  · rintro ⟨named | rfl,supplied⟩ row member
    · exact ⟨named,supplied row member⟩
    · cases member

theorem storeAnswers {clock : Nat → Nat → Int} {name : String} {i : Nat} {rows : List (List (String × String))}
    (route : s.store.modelInputPreprocessorIdMap[name]? = some i) (at' : s.store.preprocessors[i]? = some ⟨d,p⟩) :
    (∃ s' v, s.store.getModelInput clock name rows = some (s',some v)) ↔
      (rows.mapM (s.store.groupOfInput p)).isSome = true ∧ p.isUseless = false ∧
        Reads clock p.rollingWindows s.store.allEvents := by
  unfold TableStore.getModelInput
  simp only [route,at',bind,Option.bind_some]
  cases found : rows.mapM (s.store.groupOfInput p) with
  | none => simp
  | some groups =>
      rw [← @preprocessorAnswers (V d) _ clock p groups s.store.allEvents]
      simp only [Option.isSome_some,true_and]
      cases ran : p.getModelInput clock groups s.store.allEvents with
      | none => simp
      | some result =>
          obtain ⟨p',result⟩ := result
          cases result <;> simp

/- In every reachable store: get_model_input answers exactly the requests that it should, if
and only if a row lacks a group column; or the operators are known, there is a group column
or no row, and no column reads outside; or an operator is unknown and an event has been
taken in by some window, or there is no group column and a row. -/
theorem verdictIff (info : TableInfo) (actions : List ((Nat → Nat → Int) × Action V)) (s : Tracked V)
    (fromTable : ∀ a ∈ actions, FromTable info a.2) (reached : run step (Tracked.new info) actions = some s)
    (clock : Nat → Nat → Int) (name : String) (i : Nat) (d : ElementType) (p : PreProcessor (V d))
    (rows : List (List (String × String))) (route : s.store.modelInputPreprocessorIdMap[name]? = some i)
    (at' : s.store.preprocessors[i]? = some ⟨d,p⟩) :
    ((∃ s' v, s.store.getModelInput clock name rows = some (s',some v)) ↔ Known p.info.operations ∧ Supplies p rows) ↔
      ¬ Supplies p rows ∨
      (Known p.info.operations ∧ (p.info.groupColumns ≠ [] ∨ rows = []) ∧ Reads clock p.rollingWindows s.store.allEvents) ∨
      (¬ Known p.info.operations ∧ ((s.store.allEvents ≠ [] ∧ p.rollingWindows ≠ []) ∨
        (p.info.groupColumns = [] ∧ rows ≠ []))) := by
  have represents := reachableRepresents fromTable reached
  have stored := reachableLaid reached ⟨d,p⟩ (List.mem_of_getElem? at')
  have useless : p.isUseless = false ↔ ¬ (s.store.allEvents ≠ [] ∧ p.rollingWindows ≠ [] ∧ ¬ Known p.info.operations) := by
    rw [← stored.fed,← Bool.not_eq_true]
    exact not_congr stored.laid.useless
  rw [storeAnswers route at',rowsFound represents stored,useless]
  by_cases supplied : Supplies p rows
  · by_cases known : Known p.info.operations
    · simp [supplied,known]
    · have quiet : ¬ (s.store.allEvents ≠ [] ∧ p.rollingWindows ≠ []) → Reads clock p.rollingWindows s.store.allEvents := by
        intro unnoticed
        by_cases none : s.store.allEvents = []
        · exact readsUnopened stored.laid (fun fed => stored.fed.mp fed none) _
        · have windowless : p.rollingWindows = [] := not_not.mp (fun some => unnoticed ⟨none,some⟩)
          intro w window at'
          simp [windowless] at at'
      have asked : ¬ (p.info.groupColumns ≠ [] ∨ rows = []) ↔ p.info.groupColumns = [] ∧ rows ≠ [] := by
        rw [not_or,not_not]
      simp only [supplied,known,and_true,false_and,not_false_iff,true_and,iff_false,not_true,false_or,← asked]
      constructor
      · intro refused
        by_contra neither
        rw [not_or,not_not] at neither
        exact refused ⟨neither.2,neither.1,quiet neither.1⟩
      · rintro (noticed | unnamed) ⟨named,unnoticed,_⟩
        · exact unnoticed noticed
        · exact unnamed named
  · simp [supplied]

end Answers

section Carts

def carts : TableInfo := ⟨"carts",.ofList [("user","TEXT"),("items","INT")],60⟩

def noon : Nat → Nat → Int := fun _ _ => 100

def cartsBy (operator : String) : PreProcessorInfo Int := ⟨[60],[⟨"items",operator,0⟩],["user"],"carts"⟩

def cartsCreated (operator : String) : List ((Nat → Nat → Int) × Action IntValues) :=
  [(noon,.setToFillInMemory),(noon,.createPreprocessor .int32 "ranker" (cartsBy operator))]

theorem cartsScope (operator : String) : ∀ a ∈ cartsCreated operator, FromTable carts a.2 := by
  intro a member
  simp only [cartsCreated,List.mem_cons,List.not_mem_nil,or_false] at member
  rcases member with rfl | rfl <;> trivial

theorem cartsReached (operator : String) (accepted : operator = "Sum" ∨ operator = "Median") :
    ∃ (s : Tracked IntValues) (a : AnyPreProcessor IntValues),
      run step (Tracked.new carts) (cartsCreated operator) = some s ∧
      s.store.modelInputPreprocessorIdMap["ranker"]? = some 0 ∧ s.store.preprocessors[0]? = some a ∧
      (decide (Known a.preprocessor.info.operations),a.preprocessor.info.groupColumns) = (operator == "Sum",["user"]) ∧
      ((s.store.getModelInput noon "ranker" [[("user","ann")]]).bind Prod.snd).isSome = true := by
  obtain ⟨s,ran,described⟩ : ∃ s : Tracked IntValues, run step (Tracked.new carts) (cartsCreated operator) = some s ∧
      s.store.modelInputPreprocessorIdMap["ranker"]? = some 0 ∧
      s.store.preprocessors[0]?.map (fun a =>
        (decide (Known a.preprocessor.info.operations),a.preprocessor.info.groupColumns)) =
          some (operator == "Sum",["user"]) ∧
      ((s.store.getModelInput noon "ranker" [[("user","ann")]]).bind Prod.snd).isSome = true := by
    rcases accepted with rfl | rfl
    · exact ⟨_,rfl,by decide +kernel,by decide +kernel,by decide +kernel⟩
    · exact ⟨_,rfl,by decide +kernel,by decide +kernel,by decide +kernel⟩
  obtain ⟨route,some,answered⟩ := described
  obtain ⟨a,at',same⟩ := Option.map_eq_some_iff.mp some
  exact ⟨s,a,ran,route,at',same,answered⟩

theorem verdictOnCarts : ∃ (s : Tracked IntValues) (a : AnyPreProcessor IntValues),
    (((∃ s' v, s.store.getModelInput noon "ranker" [[("user","ann")]] = some (s',some v)) ↔
      Known a.preprocessor.info.operations ∧ Supplies a.preprocessor [[("user","ann")]]) ↔
        ¬ Supplies a.preprocessor [[("user","ann")]] ∨
        (Known a.preprocessor.info.operations ∧ (a.preprocessor.info.groupColumns ≠ [] ∨ [[("user","ann")]] = []) ∧
          Reads noon a.preprocessor.rollingWindows s.store.allEvents) ∨
        (¬ Known a.preprocessor.info.operations ∧ ((s.store.allEvents ≠ [] ∧ a.preprocessor.rollingWindows ≠ []) ∨
          (a.preprocessor.info.groupColumns = [] ∧ [[("user","ann")]] ≠ [])))) := by
  obtain ⟨s,a,ran,route,at',_⟩ := cartsReached "Sum" (.inl rfl)
  exact ⟨s,a,verdictIff carts (cartsCreated "Sum") s (cartsScope "Sum") ran noon "ranker" 0 a.elementType a.preprocessor
    [[("user","ann")]] route at'⟩

theorem medianAnswered : ¬ ∀ (info : TableInfo) (actions : List ((Nat → Nat → Int) × Action IntValues))
    (s : Tracked IntValues), (∀ a ∈ actions, FromTable info a.2) → run step (Tracked.new info) actions = some s →
    ∀ (clock : Nat → Nat → Int) (name : String) (i : Nat) (a : AnyPreProcessor IntValues)
      (rows : List (List (String × String))), s.store.modelInputPreprocessorIdMap[name]? = some i →
      s.store.preprocessors[i]? = some a →
      ((∃ s' v, s.store.getModelInput clock name rows = some (s',some v)) ↔
        Known a.preprocessor.info.operations ∧ Supplies a.preprocessor rows) := by
  intro claim
  obtain ⟨s,a,ran,route,at',same,answered⟩ := cartsReached "Median" (.inr rfl)
  obtain ⟨v,here⟩ := Option.isSome_iff_exists.mp answered
  obtain ⟨⟨s',_⟩,there,rfl⟩ := Option.bind_eq_some_iff.mp here
  have known := ((claim carts (cartsCreated "Median") s (cartsScope "Median") ran noon "ranker" 0 a [[("user","ann")]]
    route at').mp ⟨s',v,there⟩).1
  have unknown : decide (Known a.preprocessor.info.operations) = false := congrArg Prod.fst same
  exact of_decide_eq_false unknown known

end Carts
end NimbleNet.ModelInputVerdicts
