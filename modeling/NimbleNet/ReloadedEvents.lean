import NimbleNet.InsertStatement
import NimbleNet.TableStoreInvariant

/-! An event that add_event keeps in memory, and the same event read back from the
database after a restart. SQLite is an argument: what a column of a STRICT table gives
back for an inserted text, and the row that a statement inserts. -/
namespace NimbleNet.ReloadedEvents
open InsertStatement OrderedMap SqlLiterals TableStoreInvariant UserEventsManager

/- `comesBack type text`: the text of a value that was inserted as a literal into a
column of the type. `insert`: the cells of the inserted row as a SELECT delivers them,
or none for an error. -/
structure Sqlite where
  comesBack : String → String → String
  insert : String → Option (List (String × Option String))

structure Documented (q : Sqlite) (info : TableInfo) (insertTime : Int) (columns : List (String × String)) : Prop where
  textUnchanged : ∀ text, q.comesBack "TEXT" text = text
  stampUnchanged : q.comesBack "INT" (toString insertTime) = toString insertTime
  inserts : ∀ statement cells, scan quote none statement.toList = some (insertTokens info.name insertTime columns) →
    q.insert statement = some cells →
      cells = ("TIMESTAMP",some (q.comesBack "INT" (toString insertTime))) ::
        info.schema.toList.map (fun c => (c.1,some (q.comesBack c.2 ((rowOf columns).getD c.1 ""))))

def lastAdded {V : ElementType → Type} (s : TableStore V) : Option (Int × List String) :=
  s.allEvents.getLast?.map (fun e => (e.timestamp,e.row))

def Canonical (q : Sqlite) (info : TableInfo) (columns : List (String × String)) : Prop :=
  ∀ c ∈ columns, ∀ type ∈ info.schema[c.1]?, type ≠ "TEXT" → q.comesBack type c.2 = c.2

section Stamp

theorem leadingDigits (n : Nat) : leadingNat (Nat.toDigits 10 n) = n := by
  have all : ∀ c ∈ Nat.toDigits 10 n, c.isDigit = true := fun c member =>
    Nat.isDigit_of_mem_toDigits (by decide) (by decide) member
  rw [leadingNat,List.takeWhile_eq_self_iff.mpr all]
  exact Nat.ofDigitChars_ten_toDigits

theorem digitsStart (n : Nat) : ∃ c rest, Nat.toDigits 10 n = c :: rest ∧ c.isDigit = true := by
  cases digits : Nat.toDigits 10 n with
  | nil => exact absurd digits Nat.toDigits_ne_nil
  | cons c rest =>
      exact ⟨c,rest,rfl,Nat.isDigit_of_mem_toDigits (by decide) (by decide) (digits ▸ List.mem_cons_self)⟩

theorem digitPlain {c : Char} (digit : c.isDigit = true) : isSpace c = false ∧ c ≠ '-' ∧ c ≠ '+' := by
  refine ⟨?_,?_,?_⟩
  · simp only [Char.isDigit,Bool.and_eq_true,decide_eq_true_eq] at digit
    have low : 48 ≤ c.toNat := digit.1
    simp only [isSpace,Bool.or_eq_false_iff,beq_eq_false_iff_ne,Bool.and_eq_false_iff,decide_eq_false_iff_not]
    omega
  · rintro rfl
    exact absurd digit (by decide)
  · rintro rfl
    exact absurd digit (by decide)

theorem leadingPlain {c : Char} {rest : List Char} (digit : c.isDigit = true) :
    leadingInt (c :: rest) = leadingNat (c :: rest) := by
  obtain ⟨solid,minus,plus⟩ := digitPlain digit
  unfold leadingInt
  rw [List.dropWhile_cons,solid]
  simp only [Bool.false_eq_true,if_false]
  split
  · rename_i same
    exact absurd (List.cons.inj same).1 minus
  · rename_i same
    exact absurd (List.cons.inj same).1 plus
  · rfl

theorem leadingMinus (digits : List Char) : leadingInt ('-' :: digits) = -(leadingNat digits : Int) := by
  simp [leadingInt,isSpace]

theorem stollOf {text : String} {value : Int} (read : leadingInt text.toList = value)
    (start : ∃ c rest, c.isDigit = true ∧ (text.toList = c :: rest ∨ text.toList = '-' :: c :: rest))
    (low : -2 ^ 63 ≤ value) (high : value < 2 ^ 63) : stoll text = some value := by
  obtain ⟨c,rest,digit,shape⟩ := start
  obtain ⟨solid,minus,plus⟩ := digitPlain digit
  unfold stoll
  rw [read]
  rcases shape with here | here
  · simp only [here,List.dropWhile_cons,solid,Bool.false_eq_true,if_false]
    split
    · rename_i same
      exact absurd (List.cons.inj same).1 minus
    · rename_i same
      exact absurd (List.cons.inj same).1 plus
    · simp only [List.headD_cons,digit,if_true,if_pos (And.intro low high)]
  · have minusSolid : isSpace '-' = false := by decide
    simp only [here,List.dropWhile_cons,minusSolid,Bool.false_eq_true,if_false,List.headD_cons,digit,if_true,
      if_pos (And.intro low high)]

theorem stollText {t : Int} (low : -2 ^ 63 ≤ t) (high : t < 2 ^ 63) : stoll (toString t) = some t := by
  rw [Int.toString_eq_repr,Int.repr_eq_if]
  split
  · rename_i positive
    obtain ⟨c,rest,digits,digit⟩ := digitsStart t.toNat
    have read := leadingDigits t.toNat
    have text := (Nat.toList_repr).trans digits
    refine stollOf ?_ ⟨c,rest,digit,.inl text⟩ low high
    rw [text,leadingPlain digit,← digits,read]
    omega
  · rename_i negative
    obtain ⟨c,rest,digits,digit⟩ := digitsStart (-t).toNat
    have read := leadingDigits (-t).toNat
    have text : ("-" ++ (-t).toNat.repr).toList = '-' :: c :: rest := by
      rw [String.toList_append,Nat.toList_repr,digits]
      rfl
    refine stollOf ?_ ⟨c,rest,digit,.inr text⟩ low high
    rw [text,leadingMinus,← digits,read]
    omega

end Stamp

section Rows
variable {columns : List (String × String)}

theorem foldFound (distinct : (columns.map Prod.fst).Nodup) (row : StdMap String) (k v : String) :
    (columns.foldl (fun row (key,value) => row.insert key value) row)[k]? = some v ↔
      (k,v) ∈ columns ∨ (k ∉ columns.map Prod.fst ∧ row[k]? = some v) := by
  induction columns generalizing row with
  | nil => simp
  | cons c rest ih =>
      obtain ⟨name,value⟩ := c
      have ⟨fresh,later⟩ := List.nodup_cons.mp distinct
      rw [List.foldl_cons,ih later]
      by_cases same : k = name
      · subst same
        have absent : ∀ w, (k,w) ∉ rest := fun w member => fresh (List.mem_map.mpr ⟨(k,w),member,rfl⟩)
        simp [absent,eq_comm]
      · simp [insertOther same,same]

theorem rowFound (distinct : (columns.map Prod.fst).Nodup) (k v : String) :
    (rowOf columns)[k]? = some v ↔ (k,v) ∈ columns := by
  rw [rowOf,foldFound distinct]
  simp

theorem valuesSame {row row' : StdMap String} (keys : row.keys = row'.keys) :
    row.toList.map Prod.snd = row'.toList.map Prod.snd ↔ row = row' := by
  constructor
  · intro values
    refine Std.ExtTreeMap.toList_inj.mp ?_
    rw [← List.zip_unzip row.toList,← List.zip_unzip row'.toList,List.unzip_eq_map,List.unzip_eq_map]
    simp only [Std.ExtTreeMap.map_fst_toList_eq_keys,keys,values]
  · rintro rfl
    rfl

theorem readRest {rest : List (String × String)} (plain : ∀ c ∈ rest, c.1 ≠ "TIMESTAMP") (timestamp : Option Int)
    (row : StdMap String) :
    (rest.map (fun c => (c.1,some c.2))).foldlM (fun (timestamp,row) (name,value) =>
      if name = "TIMESTAMP" then (value.bind stoll).map (fun t => (some t,row))
      else some (timestamp,row.insert name (value.getD "NULL"))) (timestamp,row) =
    some (timestamp,rest.foldl (fun row (key,value) => row.insert key value) row) := by
  induction rest generalizing row with
  | nil => rfl
  | cons c others ih =>
      have here := plain c List.mem_cons_self
      rw [List.map_cons,List.foldlM_cons]
      simp only [here,if_false,Option.getD_some,bind,Option.bind_some]
      rw [ih (fun d member => plain d (List.mem_cons_of_mem c member)),List.foldl_cons]

end Rows

section Reload
variable {q : Sqlite} {info : TableInfo} {columns : List (String × String)} {stamp insertTime : Int}

def backOf (q : Sqlite) (info : TableInfo) (columns : List (String × String)) : List (String × String) :=
  info.schema.toList.map (fun c => (c.1,q.comesBack c.2 ((rowOf columns).getD c.1 "")))

theorem backNames : (backOf q info columns).map Prod.fst = info.schema.keys := by
  rw [backOf,List.map_map,← Std.ExtTreeMap.map_fst_toList_eq_keys]
  rfl

theorem backFound (k v : String) : (rowOf (backOf q info columns))[k]? = some v ↔
    ∃ type, info.schema[k]? = some type ∧ q.comesBack type ((rowOf columns).getD k "") = v := by
  have distinct : ((backOf q info columns).map Prod.fst).Nodup := by
    rw [backNames]
    exact Std.ExtTreeMap.nodup_keys
  rw [rowFound distinct,backOf,List.mem_map]
  constructor
  · rintro ⟨⟨name,type⟩,member,same⟩
    cases same
    exact ⟨type,Std.ExtTreeMap.mem_toList_iff_getElem?_eq_some.mp member,rfl⟩
  · rintro ⟨type,there,rfl⟩
    exact ⟨(k,type),Std.ExtTreeMap.mem_toList_iff_getElem?_eq_some.mpr there,rfl⟩

theorem readBack (range : -2 ^ 63 ≤ insertTime ∧ insertTime < 2 ^ 63) (noStamp : "TIMESTAMP" ∉ info.schema)
    (documented : Documented q info insertTime columns) {cells : List (String × Option String)}
    (reads : ReadsBack info.name insertTime columns)
    (inserted : q.insert (insertCommand info.name insertTime columns) = some cells) :
    readCells cells = some (some insertTime,rowOf (backOf q info columns)) := by
  have plain : ∀ c ∈ backOf q info columns, c.1 ≠ "TIMESTAMP" := by
    intro c member same
    have name : c.1 ∈ (backOf q info columns).map Prod.fst := List.mem_map_of_mem member
    rw [backNames,Std.ExtTreeMap.mem_keys,same] at name
    exact noStamp name
  have shape := documented.inserts _ cells reads inserted
  have rest : info.schema.toList.map (fun c => (c.1,some (q.comesBack c.2 ((rowOf columns).getD c.1 "")))) =
      (backOf q info columns).map (fun c => (c.1,some c.2)) := by
    rw [backOf,List.map_map]
    rfl
  rw [rest,documented.stampUnchanged] at shape
  rw [shape,readCells,List.foldlM_cons]
  simp only [if_true,Option.bind_some,stollText range.1 range.2,Option.map_some,bind]
  exact readRest plain (some insertTime) ∅

theorem backSame (distinct : (columns.map Prod.fst).Nodup) (schema : ∀ k, k ∈ columns.map Prod.fst ↔ k ∈ info.schema)
    (text : ∀ text, q.comesBack "TEXT" text = text) :
    rowOf columns = rowOf (backOf q info columns) ↔ Canonical q info columns := by
  have value : ∀ c ∈ columns, (rowOf columns).getD c.1 "" = c.2 := fun c member => by
    rw [Std.ExtTreeMap.getD_eq_getD_getElem?,(rowFound distinct c.1 c.2).mpr member,Option.getD_some]
  constructor
  · intro same c member type there _
    have back := (rowFound distinct c.1 c.2).mpr member
    rw [same,backFound] at back
    obtain ⟨type',there',returned⟩ := back
    cases there.symm.trans there'
    rwa [value c member] at returned
  · intro canonical
    have unchanged : ∀ c ∈ columns, ∀ type ∈ info.schema[c.1]?, q.comesBack type c.2 = c.2 := by
      intro c member type there
      by_cases isText : type = "TEXT"
      · rw [isText,text]
      · exact canonical c member type there isText
    refine Std.ExtTreeMap.ext_getElem? (fun k => Option.ext (fun v => ?_))
    rw [backFound,rowFound distinct]
    constructor
    · intro member
      have known := (schema k).mp (List.mem_map_of_mem member)
      obtain ⟨type,there⟩ := Option.isSome_iff_exists.mp (Std.ExtTreeMap.mem_iff_isSome_getElem?.mp known)
      exact ⟨type,there,by rw [value (k,v) member]; exact unchanged (k,v) member type there⟩
    · rintro ⟨type,there,rfl⟩
      have known : k ∈ info.schema := Std.ExtTreeMap.mem_iff_isSome_getElem?.mpr (by rw [there]; rfl)
      obtain ⟨⟨name,w⟩,member,rfl⟩ := List.mem_map.mp ((schema k).mpr known)
      have kept := unchanged (name,w) member type there
      have read := value (name,w) member
      rw [read,kept]
      exact member

end Reload

section Agree
variable {V : ElementType → Type} [∀ d, Scalar (V d)] {q : Sqlite} {info : TableInfo} {stamp insertTime : Int}
  {columns : List (String × String)}

theorem addRowLast {s : Tracked V} (shape : Represents info s) (ready : s.store.isReadyToBeFilled = true)
    (clock : Nat → Nat → Int) {r : TableRow} (keys : r.row.keys = info.schema.keys) :
    lastAdded (s.store.addRow clock r) = some (r.timestamp,r.row.toList.map Prod.snd) := by
  have rows := (addRowRepresents shape clock keys).rows
  simp only [Tracked.addRow,ready,if_true] at rows
  rw [lastAdded,← List.getLast?_map,rows,List.getLast?_map,List.getLast?_append]
  rfl

/- The two copies of an event agree exactly if the clock did not tick between its two
readings and every number was written the way SQLite writes it. -/
theorem reloadAgreesIff {dump : Json → String} {parse : String → Option Json} {m : UserEventsManager V} {event : String}
    {given given' : List TableRow} {tableStore restarted : TableStore V} {exec : String → Bool}
    {clock clock' : Nat → Nat → Int} {cells : List (String × Option String)}
    (here : accepted dump parse m event info.name = some (tableStore,columns))
    (live : Represents info ⟨tableStore,given⟩ ∧ tableStore.isReadyToBeFilled = true)
    (reload : Represents info ⟨restarted,given'⟩ ∧ restarted.isReadyToBeFilled = true)
    (distinct : (columns.map Prod.fst).Nodup) (noStamp : "TIMESTAMP" ∉ info.schema)
    (range : -2 ^ 63 ≤ insertTime ∧ insertTime < 2 ^ 63) (documented : Documented q info insertTime columns)
    (executed : exec (insertCommand info.name insertTime columns) = true)
    (inserted : q.insert (insertCommand info.name insertTime columns) = some cells) (clean : Clean info.name columns) :
    ∃ kept filled, m.addEvent dump parse exec clock stamp insertTime event info.name =
        .returned true {m with tableStoreMap := m.tableStoreMap.insert info.name kept} ∧
      addRowsToTableStore clock' restarted cells = some filled ∧
      (lastAdded kept = lastAdded filled ↔ stamp = insertTime ∧ Canonical q info columns) := by
  have checked : tableStore.checkColumnsOfRow ⟨stamp,rowOf columns⟩ = true := (acceptedSome here).2.2
  have keys : (rowOf columns).keys = info.schema.keys := checkedKeys live.1 checked
  have schema : ∀ k, k ∈ columns.map Prod.fst ↔ k ∈ info.schema := fun k => by
    rw [← rowKeys,← Std.ExtTreeMap.mem_keys,keys,Std.ExtTreeMap.mem_keys]
  have backDistinct : ((backOf q info columns).map Prod.fst).Nodup := by
    rw [backNames]
    exact Std.ExtTreeMap.nodup_keys
  have backKeys : (rowOf (backOf q info columns)).keys = info.schema.keys :=
    keysExt (fun k => by rw [rowKeys,backNames,Std.ExtTreeMap.mem_keys])
  have read := readBack range noStamp documented (readsBackClean clean) inserted
  refine ⟨tableStore.addRow clock ⟨stamp,rowOf columns⟩,
    restarted.addRow clock' ⟨insertTime,rowOf (backOf q info columns)⟩,?_,?_,?_⟩
  · rw [addEventSends here,if_pos executed]
  · rw [addRowsToTableStore,read]
    rfl
  · rw [addRowLast live.1 live.2 clock keys,addRowLast reload.1 reload.2 clock' backKeys,Option.some.injEq,Prod.mk.injEq]
    simp only [valuesSame (keys.trans backKeys.symm),backSame distinct schema documented.textUnchanged]

end Agree

section Clicks

def intColumns (info : TableInfo) (now : Int) (columns : List (String × String)) : Sqlite where
  comesBack type text := if type = "TEXT" then text else toString (leadingInt text.toList)
  insert statement :=
    if statement = insertCommand info.name now columns then
      some (("TIMESTAMP",some (toString (leadingInt (toString now).toList))) :: info.schema.toList.map (fun c =>
        (c.1,some (if c.2 = "TEXT" then (rowOf columns).getD c.1 ""
          else toString (leadingInt ((rowOf columns).getD c.1 "").toList)))))
    else none

theorem intDocumented {info : TableInfo} {now : Int} (columns : List (String × String))
    (stamp : toString (leadingInt (toString now).toList) = toString now) :
    Documented (intColumns info now columns) info now columns where
  textUnchanged text := by simp [intColumns]
  stampUnchanged := by
    rw [intColumns]
    exact stamp
  inserts statement cells _ inserted := by
    simp only [intColumns] at inserted
    split at inserted
    · exact (Option.some.inj inserted).symm
    · contradiction

def clicksInfo : TableInfo := ⟨"UserClicks",.ofList [("winnerPercent","INT")],60⟩

def clicks : TableStore IntValues := (TableStore.new clicksInfo).setToFillInMemory

theorem clicksRepresents : Represents clicksInfo ⟨clicks,[]⟩ :=
  have fresh := newRepresents (V := IntValues) clicksInfo
  ⟨fresh.schema,fresh.rows,fresh.keys,fresh.groups,fresh.ids,fresh.routes⟩

def clicksManager : UserEventsManager IntValues := ⟨(∅ : StdMap (TableStore IntValues)).insert "UserClicks" clicks,∅⟩

def clickParse (value : String) : String → Option Json := fun _ => some (.object [("winnerPercent",.string value)])

theorem clickAccepted {dump : Json → String} (value event : String)
    (checked : clicks.checkColumnsOfRow ⟨0,rowOf [("winnerPercent",value)]⟩ = true) :
    accepted dump (clickParse value) clicksManager event "UserClicks" = some (clicks,[("winnerPercent",value)]) := by
  have there : clicksManager.tableStoreMap["UserClicks"]? = some clicks := by simp [clicksManager]
  have parsed : clickParse value event = some (.object [("winnerPercent",.string value)]) := rfl
  have read : columnsOfEvent dump (.object [("winnerPercent",.string value)]) = some [("winnerPercent",value)] := rfl
  simp only [accepted,there,parsed,read,checked,bind,Option.bind_some,if_true]

theorem leadingZeroLost : ¬ ∀ (event : String) (insertTime : Int) (cells : List (String × Option String)) (q : Sqlite)
    (columns : List (String × String)) (kept filled : TableStore IntValues), Documented q clicksInfo insertTime columns →
    accepted (fun _ => "") (clickParse "012345") clicksManager event "UserClicks" = some (clicks,columns) →
    q.insert (insertCommand "UserClicks" insertTime columns) = some cells →
    clicksManager.addEvent (fun _ => "") (clickParse "012345") (fun _ => true) (fun _ _ => 0) insertTime insertTime event
      "UserClicks" =
      .returned true {clicksManager with tableStoreMap := clicksManager.tableStoreMap.insert "UserClicks" kept} →
    addRowsToTableStore (fun _ _ => 0) clicks cells = some filled → lastAdded kept = lastAdded filled := by
  intro claim
  have here := @clickAccepted (fun _ => "") "012345" "click" (by decide +kernel)
  have same := claim "click" 100 [("TIMESTAMP",some "100"),("winnerPercent",some "12345")]
    (intColumns clicksInfo 100 [("winnerPercent","012345")]) [("winnerPercent","012345")]
    (clicks.addRow (fun _ _ => 0) ⟨100,rowOf [("winnerPercent","012345")]⟩)
    (clicks.addRow (fun _ _ => 0) ⟨100,rowOf [("winnerPercent","12345")]⟩)
    (intDocumented _ (by decide +kernel)) here (by decide +kernel) (by rw [addEventSends here,if_pos rfl]) rfl
  exact absurd same (by decide +kernel)

theorem reloadAgreesClick : ∃ kept filled,
    clicksManager.addEvent (fun _ => "") (clickParse "12345") (fun _ => true) (fun _ _ => 0) 100 100 "click" "UserClicks" =
      .returned true {clicksManager with tableStoreMap := clicksManager.tableStoreMap.insert "UserClicks" kept} ∧
    addRowsToTableStore (fun _ _ => 0) clicks [("TIMESTAMP",some "100"),("winnerPercent",some "12345")] = some filled ∧
    (lastAdded kept = lastAdded filled ↔
      (100 : Int) = 100 ∧ Canonical (intColumns clicksInfo 100 [("winnerPercent","12345")]) clicksInfo
        [("winnerPercent","12345")]) := by
  have here : accepted (fun _ => "") (clickParse "12345") clicksManager "click" clicksInfo.name =
      some (clicks,[("winnerPercent","12345")]) := clickAccepted "12345" "click" (by decide +kernel)
  exact reloadAgreesIff here ⟨clicksRepresents,rfl⟩ ⟨clicksRepresents,rfl⟩ (by decide) (by decide +kernel) (by decide)
    (intDocumented _ (by decide +kernel)) rfl (by decide +kernel) (by decide)

end Clicks
end NimbleNet.ReloadedEvents
