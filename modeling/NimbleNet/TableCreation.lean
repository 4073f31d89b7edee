import NimbleNet.UserEventsManager

/-! create_table: the table in the database and the table store in memory. SQLite is an
argument; a statement that fails changes nothing. -/
namespace NimbleNet.TableCreation
open UserEventsManager

structure DbTable where
  sql : String
  rows : List TableRow

abbrev Database := StdMap DbTable

/- `select`: what the callback of a query leaves behind. `schemaOf`: the columns, without
TIMESTAMP, and types that a CREATE text declares. -/
structure Sqlite where
  select : Database → String → Option String
  exec : Database → String → Option Database
  schemaOf : String → StdMap String

variable {V : ElementType → Type} (q : Sqlite)

def selectSql (tableName : String) : String := "SELECT sql FROM sqlite_schema where name='" ++ cString tableName ++ "';"

def getExistingCreateTableCommand (db : Database) (tableName : String) : String :=
  (q.select db (selectSql tableName)).getD ""

def tableColumnFields (info : TableInfo) : String :=
  info.schema.toList.foldl (fun text (name,type) => text ++ (", " ++ name ++ " " ++ type)) ""

def definition (info : TableInfo) : String :=
  "CREATE TABLE " ++ cString info.name ++ " (TIMESTAMP INT" ++ cString (tableColumnFields info) ++ ") STRICT"

def createCommand (info : TableInfo) : String := definition info ++ ";"

def dropCommand (info : TableInfo) : String := "Drop table " ++ cString info.name ++ ";"

def createTableInDb (debugMode : Bool) (db : Database) (info : TableInfo) : Database × Bool :=
  let create (db : Database) : Database × Bool :=
    match q.exec db (createCommand info) with
    | none => (db,false)
    | some db' => (db',true)
  let existing := getExistingCreateTableCommand q db info.name
  if existing = "" then create db
  else if existing ++ ";" = createCommand info then (db,true)
  else if !debugMode then (db,false)
  else
    match q.exec db (dropCommand info) with
    | none => (db,false)
    | some dropped => create dropped

def deleteCommand (now : Int) (info : TableInfo) : String :=
  "DELETE FROM " ++ cString info.name ++ " where TIMESTAMP <" ++ toString (now - info.expiryTimeInMins * 60)

/- The outcome of the DELETE is only logged. -/
def createTable (debugMode : Bool) (now : Int) (m : UserEventsManager V) (db : Database) (tableInfoJson : Json) :
    UserEventsManager V × Database × Bool :=
  match TableInfo.fromJson tableInfoJson with
  | none => (m,db,false)
  | some info =>
      match createTableInDb q debugMode db info with
      | (db',false) => (m,db',false)
      | (db',true) =>
          ({m with tableStoreMap := m.tableStoreMap.insert info.name (.new info)},
            (q.exec db' (deleteCommand now info)).getD db',true)

structure Documented (info : TableInfo) : Prop where
  selects : ∀ db text, q.select db (selectSql info.name) = some text → text = (db[info.name]?.map DbTable.sql).getD ""
  drops : ∀ db db', q.exec db (dropCommand info) = some db' → db' = db.erase info.name
  creates : ∀ db db', q.exec db (createCommand info) = some db' →
    db[info.name]? = none ∧ db' = db.insert info.name ⟨definition info,[]⟩
  declares : q.schemaOf (definition info) = info.schema
  deletes : ∀ (now : Int) db db', q.exec db (deleteCommand now info) = some db' →
    db'[info.name]?.map DbTable.sql = db[info.name]?.map DbTable.sql

def Consistent (m m' : UserEventsManager V) (db db' : Database) (info : TableInfo) : Bool → Prop
  | false => m' = m ∧ db'[info.name]? = db[info.name]?
  | true => ∃ table tableStore, db'[info.name]? = some table ∧ m'.tableStoreMap[info.name]? = some tableStore ∧
      tableStore.tableInfo.schema = q.schemaOf table.sql ∧ tableStore.columns = (q.schemaOf table.sql).keys

/- In debug mode, a table with another text is dropped, and the new one cannot be created. -/
def DropsInVain (debugMode : Bool) (db : Database) (info : TableInfo) : Prop :=
  debugMode = true ∧ getExistingCreateTableCommand q db info.name ≠ "" ∧
    getExistingCreateTableCommand q db info.name ++ ";" ≠ createCommand info ∧
    ∃ dropped, q.exec db (dropCommand info) = some dropped ∧ q.exec dropped (createCommand info) = none

section Creation
variable {q} {debugMode : Bool} {db : Database} {info : TableInfo}

theorem existingRead (documented : Documented q info) (some : getExistingCreateTableCommand q db info.name ≠ "") :
    ∃ table, db[info.name]? = .some table ∧ getExistingCreateTableCommand q db info.name = table.sql := by
  unfold getExistingCreateTableCommand at some ⊢
  cases read : q.select db (selectSql info.name) with
  | none =>
      rw [read] at some
      exact absurd rfl some
  | some text =>
      have shown := documented.selects db text read
      rw [read,Option.getD_some] at some
      cases there : db[info.name]? with
      | none =>
          rw [there] at shown
          exact absurd shown some
      | some table =>
          rw [there] at shown
          exact ⟨table,rfl,shown⟩

theorem createEnds (documented : Documented q info) {db : Database} :
    (q.exec db (createCommand info) = none ∨ ∃ db' table, q.exec db (createCommand info) = some db' ∧
      db'[info.name]? = some table ∧ table.sql = definition info) := by
  cases created : q.exec db (createCommand info) with
  | none => exact .inl rfl
  | some db' =>
      obtain ⟨_,rfl⟩ := documented.creates db db' created
      exact .inr ⟨_,⟨definition info,[]⟩,rfl,Std.ExtTreeMap.getElem?_insert_self,rfl⟩

theorem createTableInDbEnds (documented : Documented q info) :
    (DropsInVain q debugMode db info ∧ createTableInDb q debugMode db info = (db.erase info.name,false)) ∨
    (¬ DropsInVain q debugMode db info ∧ (createTableInDb q debugMode db info = (db,false) ∨
      ∃ db' table, createTableInDb q debugMode db info = (db',true) ∧ db'[info.name]? = some table ∧
        table.sql = definition info)) := by
  unfold createTableInDb
  by_cases absent : getExistingCreateTableCommand q db info.name = ""
  · refine .inr ⟨fun vain => vain.2.1 absent,?_⟩
    simp only [absent,if_true]
    rcases @createEnds q info documented db with failed | ⟨db',table,created,there,text⟩
    · exact .inl (by simp only [failed])
    · simp only [created]
      exact .inr ⟨db',table,rfl,there,text⟩
  · simp only [absent,if_false]
    by_cases same : getExistingCreateTableCommand q db info.name ++ ";" = createCommand info
    · refine .inr ⟨fun vain => vain.2.2.1 same,.inr ?_⟩
      obtain ⟨table,there,text⟩ := existingRead documented absent
      simp only [same,if_true]
      rw [text] at same
      exact ⟨db,table,rfl,there,String.append_left_inj ";" |>.mp same⟩
    · simp only [same,if_false]
      cases debug : debugMode with
      | false =>
          refine .inr ⟨fun vain => Bool.false_ne_true vain.1,.inl ?_⟩
          simp only [Bool.not_false,if_true]
      | true =>
          simp only [Bool.not_true,Bool.false_eq_true,if_false]
          cases dropped : q.exec db (dropCommand info) with
          | none =>
              refine .inr ⟨fun vain => ?_,.inl rfl⟩
              obtain ⟨_,_,_,db',dropped',_⟩ := vain
              rw [dropped] at dropped'
              contradiction
          | some db' =>
              have erased := documented.drops db db' dropped
              rcases @createEnds q info documented db' with failed | ⟨db'',table,created,there,text⟩
              · refine .inl ⟨⟨rfl,absent,same,db',dropped,failed⟩,?_⟩
                rw [← erased]
                simp only [failed]
              · simp only [created]
                refine .inr ⟨fun vain => ?_,.inr ⟨db'',table,rfl,there,text⟩⟩
                obtain ⟨_,_,_,other,dropped',failed⟩ := vain
                cases dropped.symm.trans dropped'
                rw [created] at failed
                contradiction

theorem deleteKeeps (documented : Documented q info) (now : Int) {db : Database} {table : DbTable}
    (there : db[info.name]? = some table) :
    ∃ table', ((q.exec db (deleteCommand now info)).getD db)[info.name]? = some table' ∧ table'.sql = table.sql := by
  cases deleted : q.exec db (deleteCommand now info) with
  | none => exact ⟨table,there,rfl⟩
  | some db' =>
      have same := documented.deletes now db db' deleted
      rw [there,Option.map_some] at same
      exact Option.map_eq_some_iff.mp same

end Creation

section Consistency
variable {V : ElementType → Type} {q : Sqlite} {debugMode : Bool} {now : Int} {m : UserEventsManager V} {db : Database}
  {tableInfoJson : Json} {info : TableInfo}

theorem consistentUnlessDropped (parsed : TableInfo.fromJson tableInfoJson = some info) (documented : Documented q info) :
    Consistent q m (createTable q debugMode now m db tableInfoJson).1 db (createTable q debugMode now m db tableInfoJson).2.1
      info (createTable q debugMode now m db tableInfoJson).2.2 ↔ ¬ DropsInVain q debugMode db info := by
  unfold createTable
  rcases @createTableInDbEnds q debugMode db info documented with
    ⟨vain,ended⟩ | ⟨proper,ended | ⟨db',table,ended,there,text⟩⟩
  · simp only [parsed,ended,Consistent]
    refine iff_of_false (fun ⟨_,same⟩ => ?_) (not_not_intro vain)
    obtain ⟨table,there,_⟩ := existingRead documented vain.2.1
    rw [there] at same
    simp at same
  · simp [parsed,ended,Consistent,proper]
  · simp only [parsed,ended,Consistent]
    refine iff_of_true ?_ proper
    obtain ⟨table',there',same⟩ := deleteKeeps documented now there
    refine ⟨table',.new info,there',Std.ExtTreeMap.getElem?_insert_self,?_,?_⟩
    · rw [same,text,documented.declares]
      rfl
    · rw [same,text,documented.declares]
      rfl

theorem consistentIff (q : Sqlite) (debugMode : Bool) (now : Int) (m : UserEventsManager V) (db : Database)
    (tableInfoJson : Json) (info : TableInfo) (parsed : TableInfo.fromJson tableInfoJson = some info)
    (documented : Documented q info) :
    Consistent q m (createTable q debugMode now m db tableInfoJson).1 db (createTable q debugMode now m db tableInfoJson).2.1
      info (createTable q debugMode now m db tableInfoJson).2.2 ↔ ¬ DropsInVain q debugMode db info :=
  consistentUnlessDropped parsed documented

theorem unparsedKeeps (unparsed : TableInfo.fromJson tableInfoJson = none) :
    createTable q debugMode now m db tableInfoJson = (m,db,false) := by
  rw [createTable,unparsed]

end Consistency

section Orders

def orders (type : String) : TableInfo := ⟨"orders",.ofList [("amount",type)],60⟩

theorem ordersName (type : String) : (orders type).name = "orders" := rfl

def ordersJson (type : String) : Json :=
  .object [("tableName",.string "orders"),("schema",.object [("amount",.string type)]),("expiryInMins",.integer 60)]

def deletedBefore (statement : String) : Option Int :=
  let start := "DELETE FROM orders where TIMESTAMP <".toList
  if start.isPrefixOf statement.toList then (String.ofList (statement.toList.drop start.length)).toInt? else none

def onOrders (type : String) (creates : Bool) : Sqlite where
  select db _ := some ((db["orders"]?.map DbTable.sql).getD "")
  exec db statement :=
    if statement = dropCommand (orders type) then db["orders"]?.map (fun _ => db.erase "orders")
    else if statement = createCommand (orders type) then
      if db["orders"]? = none ∧ creates = true then some (db.insert "orders" ⟨definition (orders type),[]⟩) else none
    else do
      let bound ← deletedBefore statement
      let table ← db["orders"]?
      some (db.insert "orders" {table with rows := table.rows.filter (fun r => bound ≤ r.timestamp)})
  schemaOf text := if text = definition (orders type) then (orders type).schema else ∅

theorem deleteBegins (now : Int) (info : TableInfo) : ∃ rest, deleteCommand now info = "DELETE FROM " ++ rest :=
  ⟨cString info.name ++ (" where TIMESTAMP <" ++ toString (now - info.expiryTimeInMins * 60)),
    (String.append_assoc ..).trans (String.append_assoc ..)⟩

theorem dropBegins (info : TableInfo) : ∃ rest, dropCommand info = "Drop table " ++ rest :=
  ⟨cString info.name ++ ";",String.append_assoc ..⟩

theorem createBegins (info : TableInfo) : ∃ rest, createCommand info = "CREATE TABLE " ++ rest :=
  ⟨cString info.name ++ (" (TIMESTAMP INT" ++ (cString (tableColumnFields info) ++ (") STRICT" ++ ";"))),by
    rw [← String.append_assoc,← String.append_assoc,← String.append_assoc,← String.append_assoc]
    exact Eq.refl (definition info ++ ";")⟩

theorem startsApart {start start' : String} (long : 2 ≤ start.toList.length) (long' : 2 ≤ start'.toList.length)
    (apart : start.toList.take 2 ≠ start'.toList.take 2) (rest rest' : String) : start ++ rest ≠ start' ++ rest' := by
  intro same
  have letters := congrArg (fun text : String => text.toList.take 2) same
  simp only [String.toList_append,List.take_append_of_le_length long,List.take_append_of_le_length long'] at letters
  exact apart letters

theorem deletesNoOther (now : Int) (info : TableInfo) :
    deleteCommand now info ≠ dropCommand info ∧ deleteCommand now info ≠ createCommand info := by
  obtain ⟨deleted,deletes⟩ := deleteBegins now info
  obtain ⟨dropped,drops⟩ := dropBegins info
  obtain ⟨created,creates⟩ := createBegins info
  rw [deletes,drops,creates]
  exact ⟨startsApart (by decide) (by decide) (by decide) deleted dropped,
    startsApart (by decide) (by decide) (by decide) deleted created⟩

theorem dropsNotCreates (info : TableInfo) : dropCommand info ≠ createCommand info := by
  obtain ⟨dropped,drops⟩ := dropBegins info
  obtain ⟨created,creates⟩ := createBegins info
  rw [drops,creates]
  exact startsApart (by decide) (by decide) (by decide) dropped created

theorem onOrdersDocumented (type : String) (creates : Bool) : Documented (onOrders type creates) (orders type) where
  selects db text read := (Option.some.inj read).symm
  drops db db' dropped := by
    simp only [onOrders,if_true,Option.map_eq_some_iff] at dropped
    obtain ⟨table,_,same⟩ := dropped
    exact same.symm
  creates db db' created := by
    simp only [onOrders,if_neg (dropsNotCreates (orders type)).symm,if_true] at created
    split at created
    · rename_i asked
      exact ⟨asked.1,(Option.some.inj created).symm⟩
    · contradiction
  declares := by simp only [onOrders,if_true]
  deletes now db db' deleted := by
    have ⟨dropped,created⟩ := deletesNoOther now (orders type)
    simp only [onOrders,if_neg dropped,if_neg created,bind,Option.bind_eq_some_iff] at deleted
    obtain ⟨bound,_,table,there,same⟩ := deleted
    cases same
    rw [ordersName,there,Std.ExtTreeMap.getElem?_insert_self]
    rfl

def oldOrders : Database := (∅ : Database).insert "orders" ⟨definition (orders "INT"),[⟨100,.ofList [("amount","3")]⟩]⟩

theorem consistentReal : Consistent (onOrders "REAL" true) (⟨∅,∅⟩ : UserEventsManager IntValues)
      (createTable (onOrders "REAL" true) true 0 ⟨∅,∅⟩ oldOrders (ordersJson "REAL")).1 oldOrders
      (createTable (onOrders "REAL" true) true 0 (⟨∅,∅⟩ : UserEventsManager IntValues) oldOrders (ordersJson "REAL")).2.1
      (orders "REAL") (createTable (onOrders "REAL" true) true 0 (⟨∅,∅⟩ : UserEventsManager IntValues) oldOrders (ordersJson "REAL")).2.2 ↔
    ¬ DropsInVain (onOrders "REAL" true) true oldOrders (orders "REAL") :=
  consistentIff (onOrders "REAL" true) true 0 ⟨∅,∅⟩ oldOrders (ordersJson "REAL") (orders "REAL") rfl
    (onOrdersDocumented "REAL" true)

/- VARCHAR is no type of a STRICT table, so the CREATE fails; the old table is gone by then. -/
theorem oldTableDropped : ¬ ∀ (q : Sqlite) (m : UserEventsManager IntValues) (db : Database) (json : Json) (info : TableInfo),
    TableInfo.fromJson json = some info → Documented q info →
      Consistent q m (createTable q true 0 m db json).1 db (createTable q true 0 m db json).2.1 info
        (createTable q true 0 m db json).2.2 := by
  intro claim
  have documented := onOrdersDocumented "VARCHAR" false
  have consistent := claim (onOrders "VARCHAR" false) ⟨∅,∅⟩ oldOrders (ordersJson "VARCHAR") (orders "VARCHAR") rfl documented
  have proper := (consistentUnlessDropped rfl documented).mp consistent
  have there : oldOrders["orders"]? = some ⟨definition (orders "INT"),[⟨100,.ofList [("amount","3")]⟩]⟩ :=
    Std.ExtTreeMap.getElem?_insert_self
  have existing : getExistingCreateTableCommand (onOrders "VARCHAR" false) oldOrders "orders" = definition (orders "INT") := by
    simp only [getExistingCreateTableCommand,onOrders,there,Option.map_some,Option.getD_some]
  refine proper ⟨rfl,?_,?_,oldOrders.erase "orders",?_,?_⟩
  · rw [ordersName,existing]
    decide +kernel
  · rw [ordersName,existing]
    decide +kernel
  · simp only [onOrders,if_true,there,Option.map_some]
  · simp only [onOrders,if_neg (dropsNotCreates (orders "VARCHAR")).symm,if_true,Bool.false_eq_true,and_false,if_false]

end Orders
end NimbleNet.TableCreation
