import NimbleNet.FeatureLayout
import NimbleNet.ReloadedEvents

/-! The texts that Sum, Min, Max and Average columns convert to numbers. create_preprocessor
refuses only types with "varchar" in them, and no column of a STRICT table has one. -/
namespace NimbleNet.NumericColumns
open AggregateColumn FeatureLayout InsertStatement PartialMaps ReloadedEvents SqlLiterals StepRuns TableStore
  TableStoreInvariant UserEventsManager

def unsigned : List Char → List Char
  | '-' :: rest => rest
  | '+' :: rest => rest
  | rest => rest

def isExponent : List Char → Bool
  | [] => true
  | mark :: rest =>
      (mark == 'e' || mark == 'E') && !(unsigned rest).isEmpty && (unsigned rest).all Char.isDigit

def denotesNumber (text : String) : Bool :=
  let solid := ((text.toList.dropWhile isSpace).reverse.dropWhile isSpace).reverse
  let whole := (unsigned solid).takeWhile Char.isDigit
  match (unsigned solid).dropWhile Char.isDigit with
  | '.' :: rest => (!whole.isEmpty || !(rest.takeWhile Char.isDigit).isEmpty) && isExponent (rest.dropWhile Char.isDigit)
  | rest => !whole.isEmpty && isExponent rest

example : denotesNumber " -12.5e+3 " = true ∧ denotesNumber ".5" = true ∧ denotesNumber "5." = true ∧
    denotesNumber "0x1A" = false ∧ denotesNumber "" = false := by decide +kernel

def strictTypes : List String := ["int","integer","real","text","blob","any"]

def Admitted (info : TableInfo) : Prop := ∀ c ∈ info.schema.toList, c.2.toLower ∈ strictTypes
instance (info : TableInfo) : Decidable (Admitted info) := by unfold Admitted; infer_instance

def isNumeric (info : TableInfo) (column : String) : Bool :=
  ["int","integer","real"].contains (info.schema.getD column "").toLower

/- A numeric column of a STRICT table takes a text literal only if it denotes a number. -/
def StrictTable (exec : String → Bool) (info : TableInfo) : Prop :=
  ∀ statement now columns, exec statement = true →
    scan quote none statement.toList = some (insertTokens info.name now columns) → (columns.map Prod.fst).Nodup →
    ∀ c ∈ columns, isNumeric info c.1 = true → denotesNumber c.2 = true

def FromDatabase {V : ElementType → Type} (exec : String → Bool) (info : TableInfo) : Action V → Prop
  | .addEvent r => ∃ now columns, r.row = rowOf columns ∧ (columns.map Prod.fst).Nodup ∧ Clean info.name columns ∧
      exec (insertCommand info.name now columns) = true
  | .callback cells => FromTable info (.callback cells : Action V) ∧
      ∀ cell ∈ cells, isNumeric info cell.1 = true → ∃ text, cell.2 = some text ∧ denotesNumber text = true
  | _ => True

section Uses
variable {T : Type}

def NumericUses (info : TableInfo) (operations : List (Operation T)) : Prop :=
  ∀ operation ∈ operations, operation.operator ≠ "Count" → isNumeric info operation.columnName = true

def Knows (info : TableInfo) (pre : PreProcessorInfo T) : Prop :=
  (∀ c ∈ pre.groupColumns, c ∈ info.schema) ∧ ∀ operation ∈ pre.operations, operation.columnName ∈ info.schema

end Uses

section Stores
variable {V : ElementType → Type}

/- The texts that a GetAs call can be given: every column but a Count column converts its
own cell of the events of its group. -/
def Converts (s : TableStore V) (text : String) : Prop :=
  ∃ a ∈ s.preprocessors, ∃ window ∈ a.preprocessor.rollingWindows, ∃ item ∈ window.groupWiseAggregatedColumnMap.toList,
    ∃ col ∈ item.2, col.config.kind ≠ .count ∧
      ∃ e ∈ s.allEvents, col.config.inGroup e = true ∧ e.columnAt col.config.columnId = text
instance (s : TableStore V) (text : String) : Decidable (Converts s text) := by unfold Converts; infer_instance

structure OnlyNumbers (info : TableInfo) (s : Tracked V) : Prop where
  declared : ∀ a ∈ s.store.preprocessors, NumericUses info a.preprocessor.info.operations
  converted : ∀ text, Converts s.store text → denotesNumber text = true

def AcceptsNumeric (info : TableInfo) (_ : Tracked V) : (Nat → Nat → Int) × Action V → Prop
  | (_,.createPreprocessor _ _ pre) => Knows info pre → NumericUses info pre.operations
  | _ => True

end Stores

section Guard
variable {info : TableInfo}

theorem strictNotVarchar {type : String} (strict : type.toLower ∈ strictTypes) : isVarchar type = false := by
  unfold isVarchar
  simp only [strictTypes,List.mem_cons,List.not_mem_nil,or_false] at strict
  rcases strict with same | same | same | same | same | same
  all_goals rw [same]; decide +kernel

theorem admittedNotVarchar (admitted : Admitted info) (column : String) :
    isVarchar (info.schema.getD column "") = false := by
  rw [Std.ExtTreeMap.getD_eq_getD_getElem?]
  cases found : info.schema[column]? with
  | none => decide +kernel
  | some type =>
      exact strictNotVarchar (admitted (column,type) (Std.ExtTreeMap.mem_toList_iff_getElem?_eq_some.mpr found))

variable {V : ElementType → Type} {s : Tracked V}

theorem columnFound (h : Represents info s) (name : String) :
    (s.store.columnToIdMap[name]?).isSome = true ↔ name ∈ info.schema := by
  rw [← Std.ExtTreeMap.mem_iff_isSome_getElem?]
  exact knownColumn h

theorem columnIdForFound (h : Represents info s) (table : s.store.tableInfo = info) (admitted : Admitted info)
    {T : Type} (operation : Operation T) :
    (s.store.columnIdFor operation).isSome = true ↔ operation.columnName ∈ info.schema := by
  rw [← columnFound h,columnIdFor,table,admittedNotVarchar admitted]
  cases s.store.columnToIdMap[operation.columnName]? <;> simp

def accepts {T : Type} (s : TableStore V) (pre : PreProcessorInfo T) : Bool :=
  (pre.groupColumns.mapM (s.columnToIdMap[·]?)).isSome && (pre.operations.mapM s.columnIdFor).isSome

theorem acceptsIff (h : Represents info s) (table : s.store.tableInfo = info) (admitted : Admitted info) {T : Type}
    (pre : PreProcessorInfo T) : accepts s.store pre = true ↔ Knows info pre := by
  simp only [accepts,Bool.and_eq_true,mapMSome,columnFound h,columnIdForFound h table admitted,Knows]

end Guard

section Uses
variable {V : ElementType → Type}

def usesOf {T : Type} (operations : List (Operation T)) : List (String × String) :=
  operations.map (fun operation => (operation.columnName,operation.operator))

def uses (a : AnyPreProcessor V) : List (String × String) := usesOf a.preprocessor.info.operations

theorem numericUsesIff {info : TableInfo} {T : Type} (operations : List (Operation T)) : NumericUses info operations ↔
    ∀ use ∈ usesOf operations, use.2 ≠ "Count" → isNumeric info use.1 = true := by
  simp only [NumericUses,usesOf,List.forall_mem_map]

variable [∀ d, Scalar (V d)]

theorem feedUses (clock index j) (ps : List (AnyPreProcessor V)) (e) :
    (feed clock index j ps e).1.map uses = ps.map uses := by
  induction ps generalizing j e with
  | nil => rfl
  | cons a rest ih =>
      simp only [feed,List.map_cons,ih,uses,(addEventInfo _ a.preprocessor _ _).1]

theorem addRowUses (clock) (s : TableStore V) (r : TableRow) :
    (s.addRow clock r).tableInfo = s.tableInfo ∧ (s.addRow clock r).preprocessors.map uses = s.preprocessors.map uses := by
  unfold TableStore.addRow
  split
  · exact ⟨rfl,rfl⟩
  split
  · exact ⟨rfl,rfl⟩
  · exact ⟨rfl,feedUses _ _ _ _ _⟩

theorem createUses (clock d name) (s : TableStore V) (pre : PreProcessorInfo (V d)) :
    (s.createPreprocessor clock d name pre).1.tableInfo = s.tableInfo ∧
      (s.createPreprocessor clock d name pre).1.preprocessors.map uses = s.preprocessors.map uses ++
        if accepts s pre then [usesOf pre.operations] else [] := by
  unfold TableStore.createPreprocessor accepts
  split
  · rename_i groupIds columnIds known allowed
    refine ⟨rfl,?_⟩
    rw [known,allowed]
    simp only [List.map_append,List.map_cons,List.map_nil,Option.isSome_some,Bool.and_self,if_true,uses,
      (backfillInfo _ _ _ _).1]
    rfl
  · rename_i refused
    refine ⟨rfl,?_⟩
    rw [if_neg,List.append_nil]
    simp only [Bool.and_eq_true,Option.isSome_iff_exists,not_and,not_exists]
    rintro ⟨groupIds,known⟩ columnIds allowed
    exact refused groupIds columnIds known allowed

theorem modelInputUses {s s' : TableStore V} {clock name rows result}
    (ok : s.getModelInput clock name rows = some (s',result)) :
    s'.tableInfo = s.tableInfo ∧ s'.preprocessors.map uses = s.preprocessors.map uses := by
  rcases TableStore.modelInputCases ok with ⟨_,rfl,_⟩ | ⟨i,d,p,_,here,⟨_,rfl,_⟩ | ⟨_,p',_,_,ran,rfl,_⟩⟩
  · exact ⟨rfl,rfl⟩
  · exact ⟨rfl,rfl⟩
  · refine ⟨rfl,?_⟩
    have same : uses ⟨d,p'⟩ = uses ⟨d,p⟩ := by simp only [uses,(modelInputFed ran).1]
    have old : (s.preprocessors.map uses)[i]? = some (uses ⟨d,p⟩) := by rw [List.getElem?_map,here]; rfl
    obtain ⟨_,at'⟩ := List.getElem?_eq_some_iff.mp old
    rw [List.map_set,same,← at']
    exact List.set_getElem_self _

def addedUses (s : TableStore V) : Action V → List (List (String × String))
  | .createPreprocessor _ _ pre =>
      if accepts s pre then [usesOf pre.operations] else []
  | _ => []

theorem stepUses {s next : Tracked V} {clock} {a : Action V} (taken : step s (clock,a) = some next) :
    next.store.tableInfo = s.store.tableInfo ∧
      next.store.preprocessors.map uses = s.store.preprocessors.map uses ++ addedUses s.store a := by
  cases a with
  | addEvent r =>
      simp only [step,Option.some.injEq] at taken
      subst taken
      simp only [addedUses,List.append_nil]
      split
      · exact addRowUses clock s.store r
      · exact ⟨rfl,rfl⟩
  | callback cells =>
      simp only [step,bind,Option.bind_eq_some_iff] at taken
      obtain ⟨⟨timestamp,row⟩,_,taken⟩ := taken
      simp only [addedUses,List.append_nil]
      cases timestamp with
      | none =>
          cases taken
          exact ⟨rfl,rfl⟩
      | some t =>
          cases taken
          exact addRowUses clock s.store ⟨t,row⟩
  | setToFillInMemory =>
      cases taken
      exact ⟨rfl,(List.append_nil _).symm⟩
  | createPreprocessor d name pre =>
      cases taken
      exact createUses clock d name s.store pre
  | getModelInput name rows =>
      simp only [step,bind,Option.bind_eq_some_iff] at taken
      obtain ⟨⟨store,result⟩,ran,taken⟩ := taken
      cases taken
      simp only [addedUses,List.append_nil]
      exact modelInputUses ran

end Uses

section Texts
variable {V : ElementType → Type} {info : TableInfo} {exec : String → Bool}

def NumbersGiven (info : TableInfo) (row : StdMap String) : Prop :=
  ∀ c value : String, row[c]? = some value → isNumeric info c = true → denotesNumber value = true

theorem insertedNumbers (strict : StrictTable exec info) {r : TableRow}
    (inserted : FromDatabase exec info (.addEvent r : Action V)) : NumbersGiven info r.row := by
  obtain ⟨now,columns,same,distinct,clean,done⟩ := inserted
  intro c value found numeric
  rw [same,rowFound distinct] at found
  exact strict _ now columns done (readsBackClean clean) distinct (c,value) found numeric

theorem readCellsNumbers {cells : List (String × Option String)}
    (numbers : ∀ cell ∈ cells, isNumeric info cell.1 = true → ∃ text, cell.2 = some text ∧ denotesNumber text = true)
    {start : Option Int × StdMap String} {timestamp row} (given : NumbersGiven info start.2)
    (read : cells.foldlM (fun (timestamp,row) (name,value) =>
      if name = "TIMESTAMP" then (value.bind stoll).map (fun t => (some t,row))
      else some (timestamp,row.insert name (value.getD "NULL"))) start = some (timestamp,row)) : NumbersGiven info row := by
  induction cells generalizing start with
  | nil =>
      cases read
      exact given
  | cons cell rest ih =>
      obtain ⟨name,value⟩ := cell
      simp only [List.foldlM_cons,bind,Option.bind_eq_some_iff] at read
      obtain ⟨middle,first,read⟩ := read
      refine ih (fun cell member => numbers cell (List.mem_cons_of_mem _ member)) ?_ read
      split at first
      · obtain ⟨t,_,rfl⟩ := Option.map_eq_some_iff.mp first
        exact given
      · cases first
        intro c text found numeric
        rcases OrderedMap.insertFound found with ⟨rfl,rfl⟩ | ⟨_,old⟩
        · obtain ⟨text,there,number⟩ := numbers (c,value) List.mem_cons_self numeric
          cases there
          exact number
        · exact given c text old numeric

end Texts

section Runs
variable {V : ElementType → Type} {info : TableInfo} {exec : String → Bool} {s : Tracked V}

structure Inv [∀ d, Scalar (V d)] (info : TableInfo) (s : Tracked V) : Prop where
  represents : Represents info s
  laid : StoreLaid s.store
  table : s.store.tableInfo = info
  numbers : ∀ r ∈ s.given, NumbersGiven info r.row

theorem eventNumbers (h : Represents info s) (numbers : ∀ r ∈ s.given, NumbersGiven info r.row) {e : TableEvent}
    (member : e ∈ s.store.allEvents) {c : String} {id : Nat} (column : s.store.columnToIdMap[c]? = some id)
    (numeric : isNumeric info c = true) : denotesNumber (e.columnAt id) = true := by
  have aligned := representsAligned h
  obtain ⟨i,at'⟩ := List.mem_iff_getElem?.mp member
  obtain ⟨inside,_⟩ := List.getElem?_eq_some_iff.mp at'
  have there := List.getElem?_eq_getElem (aligned.givenSize ▸ inside : i < s.given.length)
  obtain ⟨_,values⟩ := aligned.rowValues i e _ at' there
  obtain ⟨value,given,stored⟩ := values c id column
  rw [TableEvent.columnAt,List.getD_eq_getElem?_getD,stored]
  exact numbers _ (List.mem_of_getElem? there) c value given numeric

theorem usesNumericIff (ps : List (AnyPreProcessor V)) : (∀ a ∈ ps, NumericUses info a.preprocessor.info.operations) ↔
    ∀ used ∈ ps.map uses, ∀ use ∈ used, use.2 ≠ "Count" → isNumeric info use.1 = true := by
  simp only [numericUsesIff,uses,List.forall_mem_map]

variable [∀ d, Scalar (V d)]

theorem declaredConverted (h : Inv info s)
    (declared : ∀ a ∈ s.store.preprocessors, NumericUses info a.preprocessor.info.operations) (text : String)
    (converts : Converts s.store text) : denotesNumber text = true := by
  obtain ⟨a,member,window,windows,⟨g,columns⟩,item,col,inside,counts,e,event,_,rfl⟩ := converts
  have there := Std.ExtTreeMap.mem_toList_iff_getElem?_eq_some.mp item
  have stored := h.laid a member
  obtain ⟨w,at'⟩ := List.mem_iff_getElem?.mp windows
  obtain ⟨c,place⟩ := List.mem_iff_getElem?.mp inside
  have configs : layout window g = some (columns.map (·.config)) := by rw [layout,there]; rfl
  have config : (columns.map (·.config))[c]? = some col.config := by rw [List.getElem?_map,place]; rfl
  obtain ⟨operation,asked,kind,columnId⟩ := (stored.laid.windows w window at').operations g _ c _ configs config
  obtain ⟨id,found,column⟩ := LogSuffix.forall₂At (mapMEach stored.columnIds).flip asked
  have position : col.config.columnId = id := by rw [columnId,List.getD_eq_getElem?_getD,found]; rfl
  have operator : operation.operator ≠ "Count" := by
    intro same
    rw [same] at kind
    exact counts (Option.some.inj kind).symm
  rw [position]
  exact eventNumbers h.represents h.numbers event column
    (declared a member operation (List.mem_of_getElem? asked) operator)

theorem onlyNumbersIff (h : Inv info s) : OnlyNumbers info s ↔
    ∀ a ∈ s.store.preprocessors, NumericUses info a.preprocessor.info.operations :=
  ⟨OnlyNumbers.declared,fun declared => ⟨declared,declaredConverted h declared⟩⟩

theorem newInv (info : TableInfo) : Inv info (Tracked.new (V := V) info) where
  represents := newRepresents info
  laid _ member := absurd member List.not_mem_nil
  table := rfl
  numbers _ member := absurd member List.not_mem_nil

theorem addRowNumbers {clock} {r : TableRow} (numbers : ∀ r ∈ s.given, NumbersGiven info r.row)
    (row : NumbersGiven info r.row) : ∀ r' ∈ (s.addRow clock r).given, NumbersGiven info r'.row := by
  intro r' member
  simp only [Tracked.addRow] at member
  split at member
  · rcases List.mem_append.mp member with old | new
    · exact numbers r' old
    · cases List.mem_singleton.mp new
      exact row
  · exact numbers r' member

theorem stepNumbers (strict : StrictTable exec info) (numbers : ∀ r ∈ s.given, NumbersGiven info r.row) {clock}
    {a : Action V} (from' : FromDatabase exec info a) {next : Tracked V} (taken : step s (clock,a) = some next) :
    ∀ r ∈ next.given, NumbersGiven info r.row := by
  cases a with
  | addEvent r =>
      simp only [step,Option.some.injEq] at taken
      subst taken
      split
      · exact addRowNumbers numbers (insertedNumbers strict from')
      · exact numbers
  | callback cells =>
      simp only [step,bind,Option.bind_eq_some_iff] at taken
      obtain ⟨⟨timestamp,row⟩,read,taken⟩ := taken
      have row' : NumbersGiven info row := readCellsNumbers from'.2 (by simp [NumbersGiven]) read
      cases timestamp with
      | none =>
          cases taken
          exact numbers
      | some t =>
          cases taken
          exact addRowNumbers numbers row'
  | setToFillInMemory =>
      cases taken
      exact numbers
  | createPreprocessor d name pre =>
      cases taken
      exact numbers
  | getModelInput name rows =>
      simp only [step,bind,Option.bind_eq_some_iff] at taken
      obtain ⟨⟨store,result⟩,_,taken⟩ := taken
      cases taken
      exact numbers

omit [∀ d, Scalar (V d)] in
theorem databaseTable {a : Action V} (from' : FromDatabase exec info a) : FromTable info a := by
  cases a with
  | callback cells => exact from'.1
  | addEvent r => trivial
  | setToFillInMemory => trivial
  | createPreprocessor d name pre => trivial
  | getModelInput name rows => trivial

theorem stepInv (strict : StrictTable exec info) (h : Inv info s) {a : (Nat → Nat → Int) × Action V}
    (from' : FromDatabase exec info a.2) {next : Tracked V} (taken : step s a = some next) : Inv info next where
  represents := stepRepresents h.represents (databaseTable from') taken
  laid := stepLaid h.laid taken
  table := (stepUses taken).1.trans h.table
  numbers := stepNumbers strict h.numbers from' taken

theorem stepOnlyNumbers (admitted : Admitted info) (h : Inv info s) {a : (Nat → Nat → Int) × Action V} {next : Tracked V}
    (next' : Inv info next) (good : OnlyNumbers info s) (taken : step s a = some next) :
    OnlyNumbers info next ↔ AcceptsNumeric info s a := by
  obtain ⟨clock,a⟩ := a
  have before := (usesNumericIff s.store.preprocessors).mp good.declared
  rw [onlyNumbersIff next',usesNumericIff,(stepUses taken).2]
  cases a with
  | createPreprocessor d name pre =>
      have accepted := acceptsIff h.represents h.table admitted pre
      simp only [AcceptsNumeric,addedUses,← accepted,List.forall_mem_append,numericUsesIff]
      cases accepts s.store pre with
      | false => simpa using before
      | true => simp only [if_true,List.forall_mem_singleton,true_implies,and_iff_right before]
  | addEvent r => simpa [AcceptsNumeric,addedUses] using before
  | callback cells => simpa [AcceptsNumeric,addedUses] using before
  | setToFillInMemory => simpa [AcceptsNumeric,addedUses] using before
  | getModelInput name rows => simpa [AcceptsNumeric,addedUses] using before

/- On every STRICT table: in all states of a run only numeric columns are summed, averaged
or compared and only numbers are converted, exactly if every preprocessor that was accepted
asked for nothing else. -/
theorem numericIff (info : TableInfo) (exec : String → Bool) (admitted : Admitted info) (strict : StrictTable exec info)
    (actions : List ((Nat → Nat → Int) × Action V)) (final : Tracked V)
    (fromDatabase : ∀ a ∈ actions, FromDatabase exec info a.2) (ok : run step (Tracked.new info) actions = some final) :
    Always step (OnlyNumbers info) (Tracked.new info) actions ↔
      Guarded step (AcceptsNumeric info) (Tracked.new info) actions := by
  have start : OnlyNumbers info (Tracked.new (V := V) info) :=
    (onlyNumbersIff (newInv info)).mpr (fun _ member => absurd member List.not_mem_nil)
  have within : Guarded step (fun _ a => FromDatabase exec info a.2) (Tracked.new info) actions :=
    guardedOfAll (fun _ a member => fromDatabase a member)
  refine alwaysIffGuardedWithin (fun s a next h good from' taken => ?_) (newInv info) start within ok
  have h' := stepInv strict h from' taken
  exact ⟨h',stepOnlyNumbers admitted h h' good taken⟩

end Runs

section Manager
variable {V : ElementType → Type} [∀ d, Scalar (V d)] {dump : Json → String} {parse : String → Option Json}
  {exec : String → Bool} {clock : Nat → Nat → Int} {stamp insertTime : Int} {event : String} {m m' : UserEventsManager V}

theorem addEventFromDatabase {info : TableInfo}
    (ok : m.addEvent dump parse exec clock stamp insertTime event info.name = .returned true m') :
    ∃ tableStore columns, accepted dump parse m event info.name = some (tableStore,columns) ∧
      ((columns.map Prod.fst).Nodup → Clean info.name columns →
        FromDatabase exec info (.addEvent ⟨stamp,rowOf columns⟩ : Action V)) ∧
      ∀ given, (step ⟨tableStore,given⟩ (clock,.addEvent ⟨stamp,rowOf columns⟩)).map (·.store) =
        m'.tableStoreMap[info.name]? := by
  unfold UserEventsManager.addEvent at ok
  cases table : m.tableStoreMap[info.name]? with
  | none => simp [table] at ok
  | some tableStore =>
      cases parsed : parse event with
      | none => simp [table,parsed] at ok
      | some eventMapTable =>
          cases read : columnsOfEvent dump eventMapTable with
          | none => simp [table,parsed,read] at ok
          | some columns =>
              simp only [table,parsed,read,Bool.not_eq_true'] at ok
              split at ok
              · cases ok
              · rename_i checked
                have checked : tableStore.checkColumnsOfRow ⟨stamp,rowOf columns⟩ = true :=
                  Bool.of_not_eq_false checked
                have now : tableStore.checkColumnsOfRow ⟨0,rowOf columns⟩ = true := checked
                split at ok
                · rename_i done
                  cases ok
                  refine ⟨tableStore,columns,?_,fun distinct clean => ⟨insertTime,columns,rfl,distinct,clean,done⟩,fun given => ?_⟩
                  · simp only [accepted,table,parsed,read,now,bind,Option.bind_some,if_true]
                  · simp only [step,checked,if_true,Tracked.addRow,Option.map_some,Std.ExtTreeMap.getElem?_insert_self]
                    rfl
                · cases ok

end Manager

section Carts

def textUsers : TableInfo := ⟨"carts",.ofList [("user","TEXT")],60⟩

theorem textUsersStrict : StrictTable (fun _ => true) textUsers := by
  have none : ∀ column, isNumeric textUsers column = false := by
    intro column
    unfold isNumeric
    rw [Std.ExtTreeMap.getD_eq_getD_getElem?]
    cases found : textUsers.schema[column]? with
    | none => decide +kernel
    | some type =>
        have inside := Std.ExtTreeMap.mem_toList_iff_getElem?_eq_some.mpr found
        have all : ∀ c ∈ textUsers.schema.toList, ["int","integer","real"].contains c.2.toLower = false := by
          decide +kernel
        exact all _ inside
  intro _ _ _ _ _ _ c _ numeric
  rw [none] at numeric
  contradiction

theorem summedUser : ¬ ∀ (info : TableInfo) (exec : String → Bool), Admitted info → StrictTable exec info →
    ∀ (actions : List ((Nat → Nat → Int) × Action IntValues)) (final : Tracked IntValues),
      (∀ a ∈ actions, FromDatabase exec info a.2) → run step (Tracked.new info) actions = some final →
      OnlyNumbers info final := by
  intro claim
  let now : Nat → Nat → Int := fun _ _ => 100
  let actions : List ((Nat → Nat → Int) × Action IntValues) :=
    [(now,.setToFillInMemory),(now,.createPreprocessor .int32 "ranker" ⟨[60],[⟨"user","Sum",0⟩],["user"],"carts"⟩),
      (now,.addEvent ⟨100,.ofList [("user","ann")]⟩)]
  have fromDatabase : ∀ a ∈ actions, FromDatabase (fun _ => true) textUsers a.2 := by
    intro a member
    simp only [actions,List.mem_cons,List.not_mem_nil,or_false] at member
    rcases member with rfl | rfl | rfl
    · trivial
    · trivial
    · exact ⟨100,[("user","ann")],by decide +kernel,by decide,by decide,rfl⟩
  obtain ⟨final,ok,converts⟩ : ∃ final, run step (Tracked.new textUsers) actions = some final ∧
      Converts final.store "ann" := ⟨_,rfl,by decide +kernel⟩
  have good := claim textUsers (fun _ => true) (by decide +kernel) textUsersStrict actions final fromDatabase ok
  exact absurd (good.converted "ann" converts) (by decide +kernel)

def takesNumbers (statement : String) : Bool :=
  match scan quote none statement.toList with
  | none => false
  | some tokens => tokens.all (fun
      | .literal text => denotesNumber (String.ofList text)
      | .plain _ => true)

theorem takesNumbersStrict (info : TableInfo) : StrictTable takesNumbers info := by
  intro statement now columns done read _ c member _
  simp only [takesNumbers,read,List.all_eq_true] at done
  have literal : Token.literal c.2.toList ∈ insertTokens info.name now columns := by
    simp only [insertTokens,List.mem_append,List.mem_flatMap]
    exact .inl (.inr ⟨c,member,by simp⟩)
  simpa using done _ literal

theorem numericItems : ∃ final : Tracked IntValues, final.store.allEvents.length = 1 ∧
    ∀ text, Converts final.store text → denotesNumber text = true := by
  let info : TableInfo := ⟨"carts",.ofList [("cart","INT"),("items","INT")],60⟩
  let now : Nat → Nat → Int := fun _ _ => 100
  let actions : List ((Nat → Nat → Int) × Action IntValues) :=
    [(now,.setToFillInMemory),(now,.createPreprocessor .int32 "ranker" ⟨[60],[⟨"items","Sum",0⟩],["cart"],"carts"⟩),
      (now,.addEvent ⟨100,.ofList [("cart","7"),("items","3")]⟩)]
  have fromDatabase : ∀ a ∈ actions, FromDatabase takesNumbers info a.2 := by
    intro a member
    simp only [actions,List.mem_cons,List.not_mem_nil,or_false] at member
    rcases member with rfl | rfl | rfl
    · trivial
    · trivial
    · exact ⟨100,[("cart","7"),("items","3")],by decide +kernel,by decide,by decide,by decide +kernel⟩
  have guarded : Guarded step (AcceptsNumeric info) (Tracked.new info) actions := by
    refine guardedOfAll (fun s a member => ?_)
    simp only [actions,List.mem_cons,List.not_mem_nil,or_false] at member
    rcases member with rfl | rfl | rfl
    · trivial
    · intro _ operation inside _
      cases List.mem_singleton.mp inside
      decide +kernel
    · trivial
  obtain ⟨final,ok,one⟩ : ∃ final, run step (Tracked.new info) actions = some final ∧ final.store.allEvents.length = 1 :=
    ⟨_,rfl,by decide +kernel⟩
  have always := (numericIff info takesNumbers (by decide +kernel) (takesNumbersStrict info) actions final fromDatabase ok).mpr
    guarded
  exact ⟨final,one,(alwaysEnd always ok).converted⟩

end Carts
end NimbleNet.NumericColumns
