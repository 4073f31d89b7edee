import NimbleNet.OrderedMap
import NimbleNet.PartialMaps
import NimbleNet.StepRuns
import NimbleNet.UserEventsManager

/-! Runs of one table store: live events, rows delivered by a SELECT, requests and
new preprocessors in any order. The rows given to the store are kept beside it;
every event in memory is one of them, in the same position. -/
namespace NimbleNet.TableStoreInvariant
open StepRuns TableStore PartialMaps

variable {V : ElementType → Type}

inductive Action (V : ElementType → Type) where
  | addEvent (r : TableRow)
  | callback (cells : List (String × Option String))
  | setToFillInMemory
  | createPreprocessor (d : ElementType) (modelInputIdentifier : String) (info : PreProcessorInfo (V d))
  | getModelInput (modelInputIdentifier : String) (preprocessorInput : List (List (String × String)))

structure Tracked (V : ElementType → Type) where
  store : TableStore V
  given : List TableRow

namespace Tracked

def new (info : TableInfo) : Tracked V := ⟨.new info,[]⟩

variable [∀ d, Scalar (V d)]

-- a row given before the store is ready will come again with the SELECT
def addRow (clock : Nat → Nat → Int) (s : Tracked V) (r : TableRow) : Tracked V :=
  ⟨s.store.addRow clock r,if s.store.isReadyToBeFilled then s.given ++ [r] else s.given⟩

end Tracked

def step [∀ d, Scalar (V d)] (s : Tracked V) : (Nat → Nat → Int) × Action V → Option (Tracked V)
  | (clock,.addEvent r) => some (if s.store.checkColumnsOfRow r then s.addRow clock r else s)
  | (clock,.callback cells) => do
      let (timestamp,row) ← UserEventsManager.readCells cells
      match timestamp with
      | some t => some (s.addRow clock ⟨t,row⟩)
      | none => some s
  | (_,.setToFillInMemory) => some {s with store := s.store.setToFillInMemory}
  | (clock,.createPreprocessor d name info) => some {s with store := (s.store.createPreprocessor clock d name info).1}
  | (clock,.getModelInput name rows) => do
      let (store,_) ← s.store.getModelInput clock name rows
      some {s with store := store}

def FromTable (info : TableInfo) : Action V → Prop
  | .callback cells => (cells.map Prod.fst).Perm ("TIMESTAMP" :: info.schema.keys) ∧ (cells.map Prod.fst).Nodup
  | _ => True

def signature (a : AnyPreProcessor V) : Nat × List Nat := (a.preprocessor.id,a.preprocessor.groupIds)

def groupKey (a : AnyPreProcessor V) (e : TableEvent) : String := a.preprocessor.getGroupFromEvent e

structure Represents (info : TableInfo) (s : Tracked V) : Prop where
  schema : s.store.columns = info.schema.keys ∧ s.store.columnToIdMap = .ofList info.schema.keys.zipIdx
  rows : s.store.allEvents.map (fun e => (e.timestamp,e.row)) =
    s.given.map (fun r => (r.timestamp,r.row.toList.map Prod.snd))
  keys : ∀ r ∈ s.given, r.row.keys = info.schema.keys
  groups : ∀ e ∈ s.store.allEvents, e.groups = s.store.preprocessors.map (groupKey · e)
  ids : s.store.preprocessors.map (·.preprocessor.id) = List.range s.store.preprocessors.length
  routes : ∀ (name : String) (i : Nat), s.store.modelInputPreprocessorIdMap[name]? = some i → i < s.store.preprocessors.length

theorem knownColumn {info : TableInfo} {s : Tracked V} (h : Represents info s) {name : String} :
    name ∈ s.store.columnToIdMap ↔ name ∈ info.schema := by
  rw [h.schema.2,Std.ExtTreeMap.mem_ofList,List.zipIdx_map_fst,List.contains_iff_mem,Std.ExtTreeMap.mem_keys]

theorem newRepresents (info : TableInfo) : Represents info (Tracked.new (V := V) info) where
  schema := ⟨rfl,rfl⟩
  rows := rfl
  keys _ member := absurd member List.not_mem_nil
  groups _ member := absurd member List.not_mem_nil
  ids := rfl
  routes name i found := by
    have none : (∅ : StdMap Nat)[name]? = none := by simp
    exact absurd (none.symm.trans found) (by simp)

theorem readCellsMem {cells : List (String × Option String)} {start : Option Int × StdMap String} {timestamp row}
    (read : cells.foldlM (fun (timestamp,row) (name,value) =>
      if name = "TIMESTAMP" then (value.bind UserEventsManager.stoll).map (fun t => (some t,row))
      else some (timestamp,row.insert name (value.getD "NULL"))) start = some (timestamp,row)) (k : String) :
    k ∈ row ↔ k ∈ start.2 ∨ (k ∈ cells.map Prod.fst ∧ k ≠ "TIMESTAMP") := by
  induction cells generalizing start with
  | nil =>
      cases read
      simp
  | cons cell rest ih =>
      obtain ⟨name,value⟩ := cell
      simp only [List.foldlM_cons,bind,Option.bind_eq_some_iff] at read
      obtain ⟨middle,first,read⟩ := read
      rw [ih read]
      split at first
      · rename_i isTimestamp
        obtain ⟨t,_,rfl⟩ := Option.map_eq_some_iff.mp first
        subst isTimestamp
        simp only [List.map_cons,List.mem_cons]
        grind
      · rename_i isColumn
        cases first
        simp only [Std.ExtTreeMap.mem_insert,Std.LawfulEqCmp.compare_eq_iff_eq,List.map_cons,List.mem_cons]
        grind

theorem readCellsKeys {schema : StdMap String} {cells : List (String × Option String)} {timestamp row}
    (names : (cells.map Prod.fst).Perm ("TIMESTAMP" :: schema.keys)) (distinct : (cells.map Prod.fst).Nodup)
    (read : UserEventsManager.readCells cells = some (timestamp,row)) : row.keys = schema.keys := by
  have fresh : "TIMESTAMP" ∉ schema.keys := (List.nodup_cons.mp (names.nodup_iff.mp distinct)).1
  refine OrderedMap.keysExt (fun k => ?_)
  rw [readCellsMem read,names.mem_iff,List.mem_cons,← Std.ExtTreeMap.mem_keys (t := schema)]
  constructor
  · rintro (start | ⟨stamp | column,other⟩)
    · simp at start
    · contradiction
    · exact column
  · intro column
    exact .inr ⟨.inr column,fun same => fresh (same ▸ column)⟩

theorem groupOfSignature {T : Type} {p q : PreProcessor T} (same : q.groupIds = p.groupIds) {e e' : TableEvent}
    (row : e'.row = e.row) : q.getGroupFromEvent e' = p.getGroupFromEvent e := by
  simp only [PreProcessor.getGroupFromEvent,TableEvent.columnAt,same,row]

theorem groupKeys {before after : List (AnyPreProcessor V)} (same : after.map signature = before.map signature)
    {e e' : TableEvent} (row : e'.row = e.row) : after.map (groupKey · e') = before.map (groupKey · e) := by
  have factor : ∀ ps : List (AnyPreProcessor V), ∀ e : TableEvent, ps.map (groupKey · e) = (ps.map signature).map
      (fun sig => sig.2.foldl (fun group groupId => group ++ (e.row.getD groupId "" ++ "+")) "") := by
    intro ps e
    rw [List.map_map]
    rfl
  rw [factor,factor,same,row]

theorem signatureIds {before after : List (AnyPreProcessor V)} (same : after.map signature = before.map signature) :
    after.map (·.preprocessor.id) = before.map (·.preprocessor.id) := by
  have factor : ∀ ps : List (AnyPreProcessor V), ps.map (·.preprocessor.id) = (ps.map signature).map Prod.fst := by
    intro ps
    rw [List.map_map]
    rfl
  rw [factor,factor,same]

theorem signatureLength {before after : List (AnyPreProcessor V)} (same : after.map signature = before.map signature) :
    after.length = before.length := by
  simpa using congrArg List.length same

theorem columnIdForSome {T : Type} {s : TableStore V} {operation : Operation T} {id : Nat}
    (found : s.columnIdFor operation = some id) : s.columnToIdMap[operation.columnName]? = some id ∧
      ¬ (operation.operator ≠ "Count" ∧ isVarchar (s.tableInfo.schema.getD operation.columnName "") = true) := by
  unfold columnIdFor at found
  split at found
  · contradiction
  · rename_i columnId known
    split at found
    · contradiction
    · rename_i passed
      cases found
      exact ⟨known,passed⟩

theorem describedColumns {T : Type} {s : TableStore V} {operations : List (Operation T)} {columnIds : List Nat}
    (accepted : operations.mapM s.columnIdFor = some columnIds) :
    operations.mapM (fun operation => s.columnToIdMap[operation.columnName]?) = some columnIds :=
  eachMapM ((mapMEach accepted).imp (fun _ _ found => (columnIdForSome found).1))

section Signature
variable {T : Type} [Scalar T]

theorem openGroupSignature (p : PreProcessor T) (group) :
    (p.openGroup group).id = p.id ∧ (p.openGroup group).groupIds = p.groupIds := by
  unfold PreProcessor.openGroup
  split <;> exact ⟨rfl,rfl⟩

theorem addEventSignature (clock) (p : PreProcessor T) (e index) :
    (p.addEvent clock e index).id = p.id ∧ (p.addEvent clock e index).groupIds = p.groupIds :=
  openGroupSignature p (e.groupAt p.id)

theorem modelInputSignature {clock} {p p' : PreProcessor T} {groups allEvents result}
    (ok : p.getModelInput clock groups allEvents = some (p',result)) : p'.id = p.id ∧ p'.groupIds = p.groupIds := by
  rcases PreProcessor.modelInputEnds ok with ⟨_,rfl,_⟩ | ⟨_,_,_,_,rfl,_⟩
  · exact ⟨rfl,rfl⟩
  · exact ⟨rfl,rfl⟩

end Signature

/- The invariant in terms of positions: each event is the row given in its place,
value by value, and carries the key of every preprocessor. -/
structure Aligned (s : Tracked V) : Prop where
  rowSize : ∀ e ∈ s.store.allEvents, e.row.length = s.store.columns.length
  columnIds : ∀ (c : String) (id : Nat), s.store.columnToIdMap[c]? = some id ↔ s.store.columns[id]? = some c
  givenSize : s.store.allEvents.length = s.given.length
  rowValues : ∀ (i : Nat) e r, s.store.allEvents[i]? = some e → s.given[i]? = some r → e.timestamp = r.timestamp ∧
    ∀ (c : String) (id : Nat), s.store.columnToIdMap[c]? = some id →
      ∃ value, r.row[c]? = some value ∧ e.row[id]? = some value
  groupsSize : ∀ e ∈ s.store.allEvents, e.groups.length = s.store.preprocessors.length
  groups : ∀ e ∈ s.store.allEvents, ∀ (p : Nat) a, s.store.preprocessors[p]? = some a →
    e.groups[p]? = some (a.preprocessor.getGroupFromEvent e)
  ids : ∀ (p : Nat) a, s.store.preprocessors[p]? = some a → a.preprocessor.id = p
  routes : ∀ (name : String) (i : Nat), s.store.modelInputPreprocessorIdMap[name]? = some i →
    i < s.store.preprocessors.length

theorem columnPositions {info : TableInfo} {s : Tracked V} (h : Represents info s) (c : String) (id : Nat) :
    s.store.columnToIdMap[c]? = some id ↔ info.schema.keys[id]? = some c := by
  rw [h.schema.2]
  exact OrderedMap.position Std.ExtTreeMap.nodup_keys c id

theorem valueInPlace {info : TableInfo} {s : Tracked V} (h : Represents info s) {r : TableRow} (given : r ∈ s.given)
    {c : String} {id : Nat} (column : s.store.columnToIdMap[c]? = some id) :
    ∃ value, r.row[c]? = some value ∧ (r.row.toList.map Prod.snd)[id]? = some value := by
  have place : r.row.keys[id]? = some c := by rw [h.keys r given]; exact (columnPositions h c id).mp column
  have member : c ∈ r.row := Std.ExtTreeMap.mem_keys.mp (List.mem_of_getElem? place)
  refine ⟨r.row[c],Std.ExtTreeMap.getElem?_eq_some_getElem member,?_⟩
  rw [OrderedMap.valueAt place,Std.ExtTreeMap.getElem?_eq_some_getElem member]

theorem representsAligned {info : TableInfo} {s : Tracked V} (h : Represents info s) : Aligned s where
  rowSize e member := by
    have row : (e.timestamp,e.row) ∈ s.store.allEvents.map (fun e => (e.timestamp,e.row)) := List.mem_map_of_mem member
    rw [h.rows] at row
    obtain ⟨r,given,same⟩ := List.mem_map.mp row
    obtain ⟨_,values⟩ := Prod.mk.injEq .. ▸ same
    rw [← values,h.schema.1,← h.keys r given]
    simp
  columnIds c id := by rw [h.schema.1]; exact columnPositions h c id
  givenSize := by simpa using congrArg List.length h.rows
  rowValues i e r event row := by
    have pair := congrArg (·[i]?) h.rows
    simp only [List.getElem?_map,event,row,Option.map_some,Option.some.injEq,Prod.mk.injEq] at pair
    refine ⟨pair.1,fun c id column => ?_⟩
    rw [pair.2]
    exact valueInPlace h (List.mem_of_getElem? row) column
  groupsSize e member := by simp [h.groups e member]
  groups e member p a here := by simp [h.groups e member,here,groupKey]
  ids p a here := by
    have inside : p < s.store.preprocessors.length := (List.getElem?_eq_some_iff.mp here).1
    have id := congrArg (·[p]?) h.ids
    rw [List.getElem?_map,here,List.getElem?_range inside] at id
    exact Option.some.inj id
  routes := h.routes

variable [∀ d, Scalar (V d)]

theorem feedSignature (clock index j) (ps : List (AnyPreProcessor V)) (e) :
    (feed clock index j ps e).1.map signature = ps.map signature := by
  induction ps generalizing j e with
  | nil => rfl
  | cons a rest ih =>
      simp only [feed,List.map_cons,ih,List.cons.injEq,and_true]
      exact Prod.ext_iff.mpr (addEventSignature (clock j) a.preprocessor _ index)

theorem feedEvent (clock index j) (ps : List (AnyPreProcessor V)) (e) :
    (feed clock index j ps e).2 = {e with groups := e.groups ++ ps.map (groupKey · e)} := by
  induction ps generalizing j e with
  | nil => simp [feed]
  | cons a rest ih =>
      simp only [feed,ih,List.map_cons,List.append_assoc,List.cons_append,List.nil_append]
      rfl

theorem backfillSignature {T : Type} [Scalar T] (clock i) (p : PreProcessor T) (events) :
    (backfill clock i p events).1.id = p.id ∧ (backfill clock i p events).1.groupIds = p.groupIds := by
  induction events generalizing i p with
  | nil => exact ⟨rfl,rfl⟩
  | cons e rest ih =>
      obtain ⟨id,ids⟩ := ih (i + 1) (p.addEvent (clock i) {e with groups := e.groups ++ [p.getGroupFromEvent e]} i)
      obtain ⟨id',ids'⟩ := addEventSignature (clock i) p {e with groups := e.groups ++ [p.getGroupFromEvent e]} i
      exact ⟨id.trans id',ids.trans ids'⟩

theorem backfillEvents {T : Type} [Scalar T] (clock i) (p : PreProcessor T) (events) :
    (backfill clock i p events).2 = events.map (fun e => {e with groups := e.groups ++ [p.getGroupFromEvent e]}) := by
  induction events generalizing i p with
  | nil => rfl
  | cons e rest ih =>
      simp only [backfill,ih,List.map_cons,List.cons.injEq,true_and]
      exact List.map_congr_left (fun e' _ => by
        rw [groupOfSignature (addEventSignature (clock i) p _ i).2 rfl])

section Steps
variable {info : TableInfo} {s : Tracked V}

omit [∀ d, Scalar (V d)] in
theorem checkedKeys (h : Represents info s) {r : TableRow} (checked : s.store.checkColumnsOfRow r = true) :
    r.row.keys = info.schema.keys := by
  simp only [checkColumnsOfRow,Bool.and_eq_true,List.all_eq_true,Std.ExtTreeMap.mem_keys,
    Std.ExtTreeMap.contains_iff_mem,knownColumn h] at checked
  exact OrderedMap.keysExt (fun k => ⟨checked.1 k,checked.2 k⟩)

theorem addRowRepresents (h : Represents info s) (clock) {r : TableRow} (keys : r.row.keys = info.schema.keys) :
    Represents info (s.addRow clock r) := by
  unfold Tracked.addRow TableStore.addRow
  cases ready : s.store.isReadyToBeFilled with
  | false => exact h
  | true =>
      have known : r.row.keys.all (s.store.columnToIdMap.contains ·) = true := by
        simp only [keys,List.all_eq_true,Std.ExtTreeMap.mem_keys,Std.ExtTreeMap.contains_iff_mem,knownColumn h,
          imp_self,implies_true]
      simp only [known,Bool.not_true,Bool.false_eq_true,if_false,if_true]
      have same := feedSignature clock s.store.allEvents.length 0 s.store.preprocessors
        ⟨[],r.timestamp,r.row.toList.map Prod.snd⟩
      refine ⟨h.schema,?_,?_,?_,?_,?_⟩
      · simp only [List.map_append,h.rows,feedEvent,List.map_cons,List.map_nil]
      · intro r' member
        rcases List.mem_append.mp member with old | new
        · exact h.keys r' old
        · rw [List.mem_singleton.mp new,keys]
      · intro e member
        rw [groupKeys same rfl]
        rcases List.mem_append.mp member with old | new
        · exact h.groups e old
        · rw [List.mem_singleton.mp new,feedEvent,List.nil_append]
          rfl
      · rw [signatureIds same,signatureLength same,h.ids]
      · rw [signatureLength same]
        exact h.routes

theorem createRepresents (h : Represents info s) (clock d name) (pre : PreProcessorInfo (V d)) :
    Represents info {s with store := (s.store.createPreprocessor clock d name pre).1} := by
  unfold TableStore.createPreprocessor
  split
  · rename_i groupIds columnIds _ _
    have kept := backfillSignature clock 0 (PreProcessor.new s.store.preprocessors.length pre groupIds columnIds)
      s.store.allEvents
    simp only [backfillEvents]
    refine ⟨h.schema,?_,h.keys,?_,?_,?_⟩
    · rw [List.map_map]
      exact h.rows
    · intro e member
      obtain ⟨old,before,rfl⟩ := List.mem_map.mp member
      simp only [h.groups old before,List.map_append,List.map_cons,List.map_nil]
      congr 2
      exact (groupOfSignature kept.2 rfl).symm
    · simp only [List.map_append,h.ids,List.map_cons,List.map_nil,List.length_append,List.length_singleton,
        List.range_succ,kept.1]
      rfl
    · intro other i found
      rw [Std.ExtTreeMap.getElem?_insert] at found
      rw [List.length_append,List.length_singleton]
      split at found
      · cases found
        exact Nat.lt_succ_self _
      · exact Nat.lt_succ_of_lt (h.routes other i found)
  · exact h

omit [∀ d, Scalar (V d)] in
theorem resignedRepresents (h : Represents info s) {ps : List (AnyPreProcessor V)}
    (same : ps.map signature = s.store.preprocessors.map signature) :
    Represents info {s with store := {s.store with preprocessors := ps}} where
  schema := h.schema
  rows := h.rows
  keys := h.keys
  groups e member := (h.groups e member).trans (groupKeys same rfl).symm
  ids := by rw [signatureIds same,signatureLength same,h.ids]
  routes name i found := by
    rw [signatureLength same]
    exact h.routes name i found

theorem getModelInputRepresents (h : Represents info s) {clock name rows store result}
    (ok : s.store.getModelInput clock name rows = some (store,result)) : Represents info {s with store := store} := by
  rcases modelInputCases ok with ⟨_,rfl,_⟩ | ⟨i,d,p,_,here,⟨_,rfl,_⟩ | ⟨_,p',_,_,ran,rfl,_⟩⟩
  · exact h
  · exact h
  · obtain ⟨inside,at'⟩ := List.getElem?_eq_some_iff.mp here
    refine resignedRepresents h ?_
    have kept : signature ⟨d,p'⟩ = signature s.store.preprocessors[i] := by
      rw [at']
      exact Prod.ext_iff.mpr (modelInputSignature ran)
    have bound : i < (s.store.preprocessors.map signature).length := by simpa using inside
    have self := List.set_getElem_self bound
    rw [List.getElem_map] at self
    rw [List.map_set,kept,self]

theorem stepRepresents (h : Represents info s) {clock} {a : Action V} (fromTable : FromTable info a) {next : Tracked V}
    (taken : step s (clock,a) = some next) : Represents info next := by
  cases a with
  | addEvent r =>
      simp only [step,Option.some.injEq] at taken
      subst taken
      split
      · rename_i checked
        exact addRowRepresents h clock (checkedKeys h checked)
      · exact h
  | callback cells =>
      simp only [step,bind,Option.bind_eq_some_iff] at taken
      obtain ⟨⟨timestamp,row⟩,read,taken⟩ := taken
      cases timestamp with
      | none =>
          cases taken
          exact h
      | some t =>
          cases taken
          exact addRowRepresents h clock (readCellsKeys fromTable.1 fromTable.2 read)
  | setToFillInMemory =>
      cases taken
      exact ⟨h.schema,h.rows,h.keys,h.groups,h.ids,h.routes⟩
  | createPreprocessor d name pre =>
      cases taken
      exact createRepresents h clock d name pre
  | getModelInput name rows =>
      simp only [step,bind,Option.bind_eq_some_iff] at taken
      obtain ⟨⟨store,result⟩,ran,taken⟩ := taken
      cases taken
      exact getModelInputRepresents h ran

end Steps

theorem reachableRepresents {info : TableInfo} {actions : List ((Nat → Nat → Int) × Action V)} {final : Tracked V}
    (fromTable : ∀ a ∈ actions, FromTable info a.2) (ok : run step (Tracked.new info) actions = some final) :
    Represents info final := by
  have guarded : Guarded step (fun _ a => FromTable info a.2) (Tracked.new info) actions :=
    guardedOfAll (fun _ a member => fromTable a member)
  have preserved : ∀ s (a : (Nat → Nat → Int) × Action V) next, Represents info s → FromTable info a.2 →
      step s a = some next → Represents info next := fun _ _ _ inv table taken => stepRepresents inv table taken
  exact guardedInvariant preserved (newRepresents info) guarded ok

theorem reachableAligned {info : TableInfo} {actions : List ((Nat → Nat → Int) × Action V)} {final : Tracked V}
    (fromTable : ∀ a ∈ actions, FromTable info a.2) (ok : run step (Tracked.new info) actions = some final) :
    Aligned final :=
  representsAligned (reachableRepresents fromTable ok)

theorem reachableAlignedCarts : ∃ final : Tracked IntValues, Aligned final ∧ final.given.length = 2 := by
  let info : TableInfo := ⟨"carts",.ofList [("user","TEXT"),("items","INT")],60⟩
  let now : Nat → Nat → Int := fun _ _ => 100
  let actions : List ((Nat → Nat → Int) × Action IntValues) :=
    [(now,.setToFillInMemory),(now,.addEvent ⟨100,.ofList [("items","3"),("user","ann")]⟩),
      (now,.createPreprocessor .int32 "ranker" ⟨[60],[⟨"items","Sum",0⟩],["user"],"carts"⟩),
      (now,.callback [("TIMESTAMP",some "90"),("items",some "4"),("user",none)])]
  have fromTable : ∀ a ∈ actions, FromTable info a.2 := by
    intro a member
    simp only [actions,List.mem_cons,List.not_mem_nil,or_false] at member
    rcases member with rfl | rfl | rfl | rfl
    · trivial
    · trivial
    · trivial
    · exact ⟨by decide +kernel,by decide +kernel⟩
  obtain ⟨final,ok,two⟩ : ∃ final, run step (Tracked.new info) actions = some final ∧ final.given.length = 2 :=
    ⟨_,rfl,by decide +kernel⟩
  exact ⟨final,reachableAligned fromTable ok,two⟩

end NimbleNet.TableStoreInvariant
