import NimbleNet.SqlLiterals
import NimbleNet.UserEventsManager

/-! The statement that add_event sends, as SQL reads its literals. It is pasted together
without any escaping, and printed up to the first NUL of each part. -/
namespace NimbleNet.InsertStatement
open SqlLiterals UserEventsManager

abbrev quote : Char := '\''

abbrev nul : Char := '\x00'

def plains (s : String) : List (Token Char) := s.toList.map .plain

def insertTokens (tableName : String) (now : Int) (columns : List (String × String)) : List (Token Char) :=
  plains "INSERT INTO " ++ plains tableName ++ plains " (TIMESTAMP " ++
    columns.flatMap (fun c => plains (" ," ++ c.1 ++ " ")) ++ plains ") VALUES (" ++ [.literal (toString now).toList] ++
    plains " " ++ columns.flatMap (fun c => plains ", " ++ [.literal c.2.toList] ++ plains " ") ++ plains ");"

def ReadsBack (tableName : String) (now : Int) (columns : List (String × String)) : Prop :=
  scan quote none (insertCommand tableName now columns).toList = some (insertTokens tableName now columns)
instance (tableName : String) (now : Int) (columns : List (String × String)) : Decidable (ReadsBack tableName now columns) := by
  unfold ReadsBack; infer_instance

def PlainText (s : String) : Prop := quote ∉ s.toList ∧ nul ∉ s.toList
instance (s : String) : Decidable (PlainText s) := by unfold PlainText; infer_instance

def Clean (tableName : String) (columns : List (String × String)) : Prop :=
  PlainText tableName ∧ ∀ c ∈ columns, PlainText c.1 ∧ PlainText c.2
instance (tableName : String) (columns : List (String × String)) : Decidable (Clean tableName columns) := by
  unfold Clean; infer_instance

section Command

theorem foldlText {append : String → String × String → String} {piece : String × String → List Char}
    (each : ∀ text c, (append text c).toList = text.toList ++ piece c) (columns : List (String × String)) :
    (columns.foldl append "").toList = columns.flatMap piece := by
  have general : ∀ text, (columns.foldl append text).toList = text.toList ++ columns.flatMap piece := by
    induction columns with
    | nil => simp
    | cons c rest ih =>
        intro text
        rw [List.foldl_cons,ih,each,List.flatMap_cons,List.append_assoc]
  rw [general,String.toList_empty,List.nil_append]

def keysText (columns : List (String × String)) : List Char := columns.flatMap (fun c => (" ," ++ c.1 ++ " ").toList)

def valuesText (columns : List (String × String)) : List Char := columns.flatMap (fun c => (", '" ++ c.2 ++ "' ").toList)

def printed (text : List Char) : List Char := text.takeWhile (· ≠ nul)

theorem keysFold (columns : List (String × String)) :
    (columns.foldl (fun text (key,_) => text ++ (" ," ++ key ++ " ")) "").toList = keysText columns := by
  unfold keysText
  rw [foldlText]
  rintro text ⟨key,value⟩
  exact String.toList_append

theorem valuesFold (columns : List (String × String)) :
    (columns.foldl (fun text (_,value) => text ++ (", '" ++ value ++ "' ")) "").toList = valuesText columns := by
  unfold valuesText
  rw [foldlText]
  rintro text ⟨key,value⟩
  exact String.toList_append

theorem cStringText (s : String) : (cString s).toList = printed s.toList := String.toList_ofList

theorem commandText (tableName : String) (now : Int) (columns : List (String × String)) :
    (insertCommand tableName now columns).toList = "INSERT INTO ".toList ++ (printed tableName.toList ++
      (" (TIMESTAMP ".toList ++ (printed (keysText columns) ++ (") VALUES (".toList ++ (quote :: ((toString now).toList ++
        quote :: ' ' :: (printed (valuesText columns) ++ ");".toList))))))) := by
  have before : ") VALUES ('".toList = ") VALUES (".toList ++ [quote] := by decide
  have behind : "' ".toList = [quote,' '] := by decide
  unfold insertCommand
  simp only [String.toList_append,cStringText,keysFold,valuesFold,before,behind,List.append_assoc,List.cons_append,
    List.nil_append]

theorem printedWhole {text : List Char} (free : nul ∉ text) : printed text = text := by
  refine List.takeWhile_eq_self_iff.mpr (fun c member => ?_)
  exact decide_eq_true (fun same => free (same ▸ member))

theorem printedLength (text : List Char) : (printed text).length ≤ text.length :=
  (List.takeWhile_prefix _).length_le

theorem printedShort {text : List Char} (whole : (printed text).length = text.length) : nul ∉ text := by
  have same : printed text = text := List.IsPrefix.eq_of_length (List.takeWhile_prefix _) whole
  intro member
  have kept := List.mem_takeWhile_imp (same.symm ▸ member : nul ∈ printed text)
  exact absurd kept (by decide)

theorem timeFree (now : Int) : quote ∉ (toString now).toList :=
  MachineNumbers.intTextFree (by decide) (by decide) now

theorem keysPlain (columns : List (String × String)) :
    (keysText columns).map Token.plain = columns.flatMap (fun c => plains (" ," ++ c.1 ++ " ")) :=
  List.map_flatMap

theorem keysFree {x : Char} (outside : x ∉ " ,".toList) {columns : List (String × String)}
    (free : ∀ c ∈ columns, x ∉ c.1.toList) : x ∉ keysText columns := by
  intro member
  obtain ⟨c,column,inside⟩ := List.mem_flatMap.mp member
  simp only [String.toList_append,List.mem_append] at inside
  rcases inside with (start | key) | blank
  · exact outside start
  · exact free c column key
  · have same : x = ' ' := by simpa using blank
    exact outside (by simp [same])

end Command

section Scan
variable {tableName : String} {now : Int} {columns : List (String × String)}

theorem scanValues (free : ∀ c ∈ columns, quote ∉ c.2.toList) (rest : List Char) :
    scan quote none (valuesText columns ++ rest) = (scan quote none rest).map
      (columns.flatMap (fun c => plains ", " ++ [.literal c.2.toList] ++ plains " ") ++ ·) := by
  induction columns with
  | nil => simp [valuesText]
  | cons c others ih =>
      have comma : ", '".toList = ", ".toList ++ [quote] := by decide
      have behind : "' ".toList = quote :: ' ' :: [] := by decide
      have blank : quote ∉ ", ".toList := by decide
      have later := ih (fun d member => free d (List.mem_cons_of_mem c member))
      have text : valuesText (c :: others) ++ rest =
          ", ".toList ++ (quote :: (c.2.toList ++ quote :: ' ' :: (valuesText others ++ rest))) := by
        simp only [valuesText,List.flatMap_cons,String.toList_append,comma,behind,List.append_assoc,List.cons_append,
          List.nil_append]
      rw [text,scanPlain blank,scanLiteral (free c List.mem_cons_self) (by decide),scan,if_neg (by decide),later]
      simp only [Option.map_map]
      congr 1

theorem readsBackClean (clean : Clean tableName columns) : ReadsBack tableName now columns := by
  obtain ⟨table,each⟩ := clean
  have keys := fun c member => (each c member).1
  have values := fun c member => (each c member).2
  have insert : quote ∉ "INSERT INTO ".toList := by decide
  have timestamp : quote ∉ " (TIMESTAMP ".toList := by decide
  have valuesWord : quote ∉ ") VALUES (".toList := by decide
  have endText : quote ∉ ");".toList := by decide
  have valuesWhole : nul ∉ valuesText columns := by
    intro member
    obtain ⟨c,column,inside⟩ := List.mem_flatMap.mp member
    simp only [String.toList_append,List.mem_append] at inside
    rcases inside with (start | value) | behind
    · exact absurd start (by decide)
    · exact (values c column).2 value
    · exact absurd behind (by decide)
  have last : scan quote none ");".toList = some (plains ");") := by
    have read := scanPlain endText []
    rwa [List.append_nil,scan,Option.map_some,List.append_nil] at read
  rw [ReadsBack,commandText,printedWhole table.2,
    printedWhole (keysFree (by decide) (fun c member => (keys c member).2)),printedWhole valuesWhole,scanPlain insert,
    scanPlain table.1,scanPlain timestamp,scanPlain (keysFree (by decide) (fun c member => (keys c member).1)),
    scanPlain valuesWord,scanLiteral (timeFree now) (by decide),scan,if_neg (by decide),
    scanValues (fun c member => (values c member).1),last,keysPlain]
  simp [insertTokens,plains]

theorem weightsPlains (s : String) : weights quote (plains s) = s.toList.length := weightsPlain quote s.toList

def valueQuotes (columns : List (String × String)) : Nat := (columns.map (fun c => c.2.toList.count quote)).sum

theorem weightsValues (columns : List (String × String)) :
    weights quote (columns.flatMap (fun c => plains ", " ++ [Token.literal c.2.toList] ++ plains " ")) =
      (valuesText columns).length + valueQuotes columns := by
  induction columns with
  | nil => rfl
  | cons c rest ih =>
      simp only [valuesText,valueQuotes,List.flatMap_cons,List.length_append,List.map_cons,List.sum_cons,weightsAppend,
        weightsCons,weightsNil,weightsPlains,weight,String.toList_append] at ih ⊢
      have start : ", '".toList.length = ", ".toList.length + 1 := by decide
      have behind : "' ".toList.length = " ".toList.length + 1 := by decide
      omega

theorem weightsStatement (tableName : String) (now : Int) (columns : List (String × String)) :
    weights quote (insertTokens tableName now columns) = "INSERT INTO ".toList.length + tableName.toList.length +
      " (TIMESTAMP ".toList.length + (keysText columns).length + ") VALUES (".toList.length +
      ((toString now).toList.length + (toString now).toList.count quote + 2) + " ".toList.length +
      ((valuesText columns).length + valueQuotes columns) + ");".toList.length := by
  rw [insertTokens,← keysPlain]
  simp only [weightsAppend,weightsCons,weightsNil,weightsValues,weightsPlains,weightsPlain,weight]

theorem plainsMember {s : String} {c : Char} (member : c ∈ s.toList) : Token.plain c ∈ plains s :=
  List.mem_map_of_mem member

/- The tokens take as much text as there is: nothing is cut off by a NUL, and no quote
of a value is read as two. -/
theorem cleanReadsBack (read : ReadsBack tableName now columns) : Clean tableName columns := by
  have free := scanPlainFree _ _ _ read
  have sizes := scanWeights _ _ _ read
  rw [weightsStatement,commandText] at sizes
  simp only [List.length_append,List.length_cons,opened] at sizes
  have table := printedLength tableName.toList
  have keys := printedLength (keysText columns)
  have values := printedLength (valuesText columns)
  have blank : " ".toList.length = 1 := by decide
  have wholeTable := @printedShort tableName.toList (by omega)
  have wholeKeys := @printedShort (keysText columns) (by omega)
  have wholeValues := @printedShort (valuesText columns) (by omega)
  have quotes : valueQuotes columns = 0 := by omega
  refine ⟨⟨fun inside => free ?_,wholeTable⟩,fun c column => ⟨⟨fun inside => free ?_,fun inside => wholeKeys ?_⟩,
    fun inside => ?_,fun inside => wholeValues ?_⟩⟩
  · simp [insertTokens,plainsMember inside]
  · have member : Token.plain quote ∈ columns.flatMap (fun c => plains (" ," ++ c.1 ++ " ")) :=
      List.mem_flatMap.mpr ⟨c,column,plainsMember (by simp [inside])⟩
    simp [insertTokens,member]
  · exact List.mem_flatMap.mpr ⟨c,column,by simp [inside]⟩
  · have none := List.sum_eq_zero_iff.mp quotes _ (List.mem_map_of_mem column)
    exact List.count_eq_zero.mp none inside
  · exact List.mem_flatMap.mpr ⟨c,column,by simp [inside]⟩

theorem readsBackIff (tableName : String) (now : Int) (columns : List (String × String)) :
    ReadsBack tableName now columns ↔ Clean tableName columns :=
  ⟨cleanReadsBack,readsBackClean⟩

end Scan

section Sent
variable {V : ElementType → Type} [∀ d, Scalar (V d)] (dump : Json → String) (parse : String → Option Json)

def rowOf (columns : List (String × String)) : StdMap String :=
  columns.foldl (fun row (key,value) => row.insert key value) ∅

theorem rowKeys (columns : List (String × String)) (k : String) : k ∈ rowOf columns ↔ k ∈ columns.map Prod.fst := by
  have general : ∀ row : StdMap String,
      k ∈ columns.foldl (fun row (key,value) => row.insert key value) row ↔ k ∈ columns.map Prod.fst ∨ k ∈ row := by
    induction columns with
    | nil => simp
    | cons c rest ih =>
        intro row
        rw [List.foldl_cons,ih,Std.ExtTreeMap.mem_insert,Std.LawfulEqCmp.compare_eq_iff_eq,List.map_cons,List.mem_cons]
        grind
  rw [rowOf,general]
  simp

def accepted (m : UserEventsManager V) (event tableName : String) : Option (TableStore V × List (String × String)) := do
  let tableStore ← m.tableStoreMap[tableName]?
  let eventMapTable ← parse event
  let columns ← columnsOfEvent dump eventMapTable
  if tableStore.checkColumnsOfRow ⟨0,rowOf columns⟩ then some (tableStore,columns) else none

variable {dump parse} {m : UserEventsManager V} {exec : String → Bool} {clock : Nat → Nat → Int} {stamp insertTime : Int}
  {event tableName : String}

omit [∀ d, Scalar (V d)] in
theorem acceptedSome {tableStore : TableStore V} {columns : List (String × String)}
    (here : accepted dump parse m event tableName = some (tableStore,columns)) :
    m.tableStoreMap[tableName]? = some tableStore ∧
      (∃ eventMapTable, parse event = some eventMapTable ∧ columnsOfEvent dump eventMapTable = some columns) ∧
      tableStore.checkColumnsOfRow ⟨stamp,rowOf columns⟩ = true := by
  simp only [accepted,bind,Option.bind_eq_some_iff] at here
  obtain ⟨tableStore',table,eventMapTable,parsed,columns',read,here⟩ := here
  split at here
  · rename_i checked
    cases here
    exact ⟨table,⟨eventMapTable,parsed,read⟩,checked⟩
  · contradiction

theorem addEventSends {tableStore : TableStore V} {columns : List (String × String)}
    (here : accepted dump parse m event tableName = some (tableStore,columns)) :
    m.addEvent dump parse exec clock stamp insertTime event tableName =
      if exec (insertCommand tableName insertTime columns) then
        .returned true {m with
          tableStoreMap := m.tableStoreMap.insert tableName (tableStore.addRow clock ⟨stamp,rowOf columns⟩)}
      else .returned false m := by
  obtain ⟨table,⟨eventMapTable,parsed,read⟩,checked⟩ := @acceptedSome V dump parse m stamp event tableName _ _ here
  simp only [rowOf] at checked
  simp only [addEvent,table,parsed,read,rowOf,checked,Bool.not_true,Bool.false_eq_true,if_false]

end Sent

theorem apostropheEndsLiteral : ¬ ∀ (tableName : String) (now : Int) (columns : List (String × String)),
    ReadsBack tableName now columns := by
  intro claim
  have read := claim "orders" 100 [("amount","1"),("user","O'Neil")]
  exact absurd (cleanReadsBack read) (by decide)

end NimbleNet.InsertStatement
