import NimbleNet.PendingLogs

/-! From the calls of the logger to the body of an upload: write_log prints a type in front
of each message and a newline behind it, and send_logs makes an entry of each line. -/
namespace NimbleNet.LogFraming
open Logger PendingLogs

structure CString where
  text : String
  ended : '\x00' ∉ text.toList

inductive LogCall where
  | LOGDEBUG (buf : CString)
  | LOGINFO (buf : CString)
  | LOGWARN (buf : CString)
  | LOGERROR (buf : CString)
  | LOGFATAL (buf : CString)
  | LOGMETRICS (metricType metricJsonString : CString)
  | OUTSIDELOG (buf : CString)

namespace LogCall

def message : LogCall → String
  | LOGDEBUG buf => buf.text
  | LOGINFO buf => buf.text
  | LOGWARN buf => buf.text
  | LOGERROR buf => buf.text
  | LOGFATAL buf => buf.text
  | LOGMETRICS metricType metricJsonString => metricType.text ++ " ::: " ++ metricJsonString.text
  | OUTSIDELOG buf => buf.text

def type : LogCall → String
  | LOGDEBUG _ => "DEBUG:::"
  | LOGINFO _ => "INFO:::"
  | LOGWARN _ => "WARN:::"
  | LOGERROR _ => "ERROR:::"
  | LOGFATAL _ => "FATAL:::"
  | LOGMETRICS _ _ => "METRICS:::"
  | OUTSIDELOG _ => "OUTSIDE:::"

end LogCall

/- `log.substr(0,log.find(":::"))`; without a mark it is the whole log. -/
def beforeMark : List Char → List Char
  | ':' :: ':' :: ':' :: _ => []
  | c :: rest => c :: beforeMark rest
  | [] => []

def logTypeOf (log : String) : String := String.ofList (beforeMark log.toList)

def LogCall.tag (call : LogCall) : String := logTypeOf call.type

structure LoggingConfig where
  deviceId : String
  clientId : String
  service : String
  source : String
  tags : String

def bodyEntry (config : LoggingConfig) (log : String) : Json :=
  .object [("deviceID",.string config.deviceId),("message",.string log),("logType",.string (logTypeOf log)),
    ("service",.string config.service),("clientId",.string config.clientId),("ddsource",.string config.source),
    ("ddtags",.string config.tags)]

def bodyArray (config : LoggingConfig) (x : Sending) : List Json := x.logs.map (fun line => bodyEntry config line.text)

structure Written where
  call : LogCall
  now : ClockReading
  later : ClockReading
  reopening : Reopening

def Written.record (localTime : Int → String) (w : Written) : String :=
  entry localTime w.now w.call.message w.call.type

def writeCalls (localTime : Int → String) : Nat → List Written → Logger → Logger
  | _,[],l => l
  | first,w :: rest,l => writeCalls localTime (first + (numbered first (w.record localTime)).length) rest
      (l.writeLog localTime w.now w.later w.reopening first w.call.message w.call.type)

def linesOf (localTime : Int → String) : Nat → List Written → List Line
  | _,[] => []
  | first,w :: rest => numbered first (w.record localTime) ++
      linesOf localTime (first + (numbered first (w.record localTime)).length) rest

def Carries (call : LogCall) (entry : Json) : Prop :=
  entry.find? "logType" = some (.string call.tag) ∧
    ∃ text : String, entry.find? "message" = some (.string text) ∧ call.message.toList <:+ text.toList

def RoundTrip (calls : List LogCall) (body : List Json) : Prop := List.Forall₂ Carries calls body

section Text

theorem beforeMarkFound {tag : List Char} (plain : ':' ∉ tag) (rest : List Char) :
    beforeMark (tag ++ ':' :: ':' :: ':' :: rest) = tag := by
  induction tag with
  | nil => rfl
  | cons c tag ih =>
      have other : c ≠ ':' := fun same => plain (same ▸ List.mem_cons_self)
      have later := ih (fun member => plain (List.mem_cons_of_mem c member))
      rw [List.cons_append]
      unfold beforeMark
      split
      · rename_i same
        exact absurd (List.cons.inj same).1 other
      · rename_i same
        obtain ⟨rfl,rfl⟩ := List.cons.inj same
        rw [later]
      · contradiction

theorem typeMarked (call : LogCall) : ':' ∉ call.tag.toList ∧ '\n' ∉ call.type.toList ∧
    call.type.toList = call.tag.toList ++ [':',':',':'] := by
  have types : ∀ type ∈ ["DEBUG:::","INFO:::","WARN:::","ERROR:::","FATAL:::","METRICS:::","OUTSIDE:::"],
      ':' ∉ (logTypeOf type).toList ∧ '\n' ∉ type.toList ∧ type.toList = (logTypeOf type).toList ++ [':',':',':'] := by
    decide +kernel
  refine types call.type ?_
  cases call
  all_goals simp [LogCall.type]

theorem logTypeKept (call : LogCall) {log : String} {rest : List Char} (start : log.toList = call.type.toList ++ rest) :
    logTypeOf log = call.tag := by
  obtain ⟨plain,_,shape⟩ := typeMarked call
  rw [logTypeOf,start,shape,List.append_assoc]
  exact (congrArg String.ofList (beforeMarkFound plain rest)).trans String.ofList_toList

theorem splitOnce {sep : Char} {text : List Char} : (text.splitOn sep).length = 1 ↔ sep ∉ text := by
  constructor
  · intro once member
    obtain ⟨before,behind,rfl⟩ := List.append_of_mem member
    rw [List.splitOn_append_cons_self,List.length_append] at once
    have first := List.length_pos_iff.mpr (List.splitOn_ne_nil sep before)
    have second := List.length_pos_iff.mpr (List.splitOn_ne_nil sep behind)
    omega
  · intro free
    rw [List.splitOn_eq_singleton free]
    rfl

theorem numberedTexts (first : Nat) (text : String) :
    (numbered first text).map (·.text) = (text.toList.splitOn '\n').map String.ofList := by
  rw [numbered,List.map_map]
  conv_rhs => rw [← List.zipIdx_map_fst first (text.toList.splitOn '\n')]
  rw [List.map_map]
  rfl

theorem linesTexts (localTime : Int → String) (first : Nat) (calls : List Written) :
    (linesOf localTime first calls).map (·.text) =
      calls.flatMap (fun w => ((w.record localTime).toList.splitOn '\n').map String.ofList) := by
  induction calls generalizing first with
  | nil => rfl
  | cons w rest ih => rw [linesOf,List.map_append,numberedTexts,ih,List.flatMap_cons]

end Text

section Files
variable {localTime : Int → String}

def HasOnly (lines : List Line) (l : Logger) : Prop := ∀ fileName, l.linesIn fileName = [] ∨ l.linesIn fileName = lines

theorem movedHasOnly {lines : List Line} {l : Logger} (only : HasOnly lines l) (o : Reopening) (fileName : String) :
    HasOnly lines (l.moveAway o fileName) := by
  intro other
  have touched : ∀ files : StdMap (List Line),
      (if o.reopens.isSome then files.insertIfNew writeFile [] else files).getD other [] = files.getD other [] := by
    intro files
    split
    · exact OrderedMap.touchGetD files writeFile other _
    · rfl
  rw [moveAway,linesIn,touched]
  cases found : l.files[writeFile]? with
  | none => exact only other
  | some there =>
      have here : l.linesIn writeFile = there := by
        rw [linesIn,Std.ExtTreeMap.getD_eq_getD_getElem?,found,Option.getD_some]
      cases o.renames with
      | false => exact only other
      | true =>
          simp only [if_true,OrderedMap.insertGetD,OrderedMap.eraseGetD]
          split
          · exact here ▸ only writeFile
          · split
            · exact .inl rfl
            · exact only other

theorem bytesAppend (before lines : List Line) : bytes (before ++ lines) = bytes before + bytes lines := by
  simp only [bytes,List.map_append,List.sum_append]

theorem roomBefore {before lines : List Line} (room : isFull (before ++ lines) = false) : isFull before = false := by
  simp only [isFull,bytesAppend,decide_eq_false_iff_not] at room ⊢
  omega

/- All calls go to one file, which may be moved away behind the last one. -/
theorem writeCallsOnly {calls : List Written} {first : Nat} {l : Logger}
    (empty : ∀ fileName, fileName ≠ writeFile → l.linesIn fileName = []) (open' : l.writeFilePtr.isSome = true)
    (room : isFull (l.linesIn writeFile ++ linesOf localTime first calls.dropLast) = false) :
    HasOnly (l.linesIn writeFile ++ linesOf localTime first calls) (writeCalls localTime first calls l) := by
  induction calls generalizing first l with
  | nil =>
      intro fileName
      rw [linesOf,List.append_nil]
      by_cases same : fileName = writeFile
      · exact .inr (congrArg l.linesIn same)
      · exact .inl (empty fileName same)
  | cons w rest ih =>
      obtain ⟨position,opened⟩ := Option.isSome_iff_exists.mp open'
      obtain ⟨l',appended⟩ : ∃ l', l' = l.append (numbered first (w.record localTime)) := ⟨_,rfl⟩
      have lines : l'.linesIn writeFile = l.linesIn writeFile ++ numbered first (w.record localTime) := by
        rw [appended,linesInAppend,if_pos rfl]
      have others : ∀ fileName, fileName ≠ writeFile → l'.linesIn fileName = [] := by
        intro fileName other
        rw [appended,linesInAppend,if_neg other]
        exact empty fileName other
      have wrote : l.writeLog localTime w.now w.later w.reopening first w.call.message w.call.type =
          if isFull (l'.linesIn writeFile) then l'.moveAway w.reopening (newFileName localTime w.later) else l' := by
        rw [writeLog,opened,appended]
        rfl
      rw [linesOf,← List.append_assoc,← lines]
      cases rest with
      | nil =>
          have only : HasOnly (l'.linesIn writeFile) l' := by
            intro fileName
            by_cases same : fileName = writeFile
            · exact .inr (congrArg l'.linesIn same)
            · exact .inl (others fileName same)
          rw [linesOf,List.append_nil,writeCalls,writeCalls,wrote]
          split
          · exact movedHasOnly only _ _
          · exact only
      | cons next rest =>
          rw [List.dropLast_cons_cons,linesOf,← List.append_assoc,← lines] at room
          rw [writeCalls,wrote,if_neg (by simp [roomBefore room])]
          exact ih others (by rw [appended]; rfl) room

theorem sendLogsReads {lines : List Line} {l : Logger} {c : SendCall} {fileName : String} {x : Sending}
    (only : HasOnly lines l) (sent : (l.sendLogs c fileName).2 = some x) : x.logs = lines := by
  unfold sendLogs at sent
  split at sent
  · cases sent
  · rename_i some
    cases sent
    unfold readLogs at some ⊢
    split at some
    · rename_i opens
      rw [if_pos opens]
      exact (only fileName).resolve_left some
    · contradiction

theorem sentLines {lines : List Line} {l : Logger} {c : SendCall} {initComplete : Bool} {x : Sending}
    (only : HasOnly lines l) (sent : (l.sendPendingLogs localTime c initComplete).2 = some x) : x.logs = lines := by
  unfold sendPendingLogs at sent
  split at sent
  · split at sent
    · exact sendLogsReads only sent
    · split at sent
      · exact sendLogsReads (movedHasOnly only _ _) sent
      · cases sent
  · cases sent

end Files

section RoundTrips
variable {localTime : Int → String}

theorem recordShape (localTime : Int → String) (w : Written) : ∃ before, (w.record localTime).toList =
    w.call.type.toList ++ before ∧ w.call.message.toList <:+ (w.record localTime).toList := by
  refine ⟨" ".toList ++ (getStringDate localTime w.now).toList ++ " ::: ".toList ++ w.call.message.toList,?_,?_⟩
  · simp only [Written.record,entry,String.toList_append,List.append_assoc]
  · rw [Written.record,entry,String.toList_append]
    exact List.suffix_append _ _

theorem recordLine (strftime : ∀ t, '\n' ∉ (localTime t).toList) (w : Written) :
    '\n' ∉ (w.record localTime).toList ↔ '\n' ∉ w.call.message.toList := by
  have milli := MachineNumbers.intTextFree (x := '\n') (by decide) (by decide) (w.now.microseconds.tdiv 1000)
  have blank : '\n' ∉ " ".toList ∧ '\n' ∉ ":".toList ∧ '\n' ∉ " ::: ".toList := by decide
  simp only [Written.record,entry,getStringDate,String.toList_append,List.mem_append,not_or,(typeMarked w.call).2.1,
    blank.1,blank.2.1,blank.2.2,strftime,milli,not_false_eq_true,true_and]

theorem entryCarries (config : LoggingConfig) (w : Written) : Carries w.call (bodyEntry config (w.record localTime)) := by
  obtain ⟨before,shape,ends⟩ := recordShape localTime w
  have kept := logTypeKept w.call shape
  refine ⟨?_,w.record localTime,rfl,ends⟩
  rw [← kept]
  rfl

theorem wholeRecords {calls : List Written} (lines : ∀ w ∈ calls, '\n' ∉ (w.record localTime).toList) :
    calls.flatMap (fun w => ((w.record localTime).toList.splitOn '\n').map String.ofList) =
      calls.map (fun w => w.record localTime) := by
  induction calls with
  | nil => rfl
  | cons w rest ih =>
      rw [List.flatMap_cons,ih (fun other member => lines other (List.mem_cons_of_mem _ member)),
        List.splitOn_eq_singleton (lines w List.mem_cons_self)]
      simp only [List.map_cons,List.map_nil,String.ofList_toList,List.singleton_append]

theorem eachOnce {α : Type} {size : α → Nat} (some : ∀ x, 1 ≤ size x) {xs : List α}
    (total : xs.length = (xs.map size).sum) : ∀ x ∈ xs, size x = 1 := by
  induction xs with
  | nil => simp
  | cons x rest ih =>
      have least := List.length_le_sum_of_one_le (rest.map size) (by simp [some])
      have here := some x
      simp only [List.length_map,List.length_cons,List.map_cons,List.sum_cons] at least total
      exact List.forall_mem_cons.mpr ⟨by omega,ih (by omega)⟩

theorem roundTripIff (config : LoggingConfig) (localTime : Int → String) (strftime : ∀ t, '\n' ∉ (localTime t).toList)
    (calls : List Written) (first : Nat) (l : Logger) (c : SendCall) (initComplete : Bool) (x : Sending)
    (empty : ∀ fileName, l.linesIn fileName = []) (open' : l.writeFilePtr.isSome = true)
    (oneFile : isFull (linesOf localTime first calls.dropLast) = false)
    (sent : ((writeCalls localTime first calls l).sendPendingLogs localTime c initComplete).2 = some x) :
    RoundTrip (calls.map (·.call)) (bodyArray config x) ↔ ∀ w ∈ calls, '\n' ∉ w.call.message.toList := by
  have only := writeCallsOnly (fun fileName _ => empty fileName) open' (by rwa [empty,List.nil_append])
  rw [empty,List.nil_append] at only
  have logs := sentLines only sent
  have texts : bodyArray config x =
      (calls.flatMap (fun w => ((w.record localTime).toList.splitOn '\n').map String.ofList)).map (bodyEntry config) := by
    rw [← linesTexts localTime first,bodyArray,logs,List.map_map]
    rfl
  rw [texts]
  simp only [← recordLine strftime]
  constructor
  · intro framed
    have size := framed.length_eq
    simp only [List.length_map,List.length_flatMap] at size
    intro w member
    have some : ∀ w : Written, 1 ≤ ((w.record localTime).toList.splitOn '\n').length :=
      fun w => List.length_pos_iff.mpr (List.splitOn_ne_nil _ _)
    exact splitOnce.mp (eachOnce some size w member)
  · intro lines
    rw [wholeRecords lines,List.map_map,RoundTrip,List.forall₂_map_left_iff,List.forall₂_map_right_iff,List.forall₂_same]
    exact fun w _ => entryCarries config w

end RoundTrips

section Uploads

def androidConfig : LoggingConfig := ⟨"device","client","nimbleSDK","android","env:nimblepoc,version:1.0"⟩

def freshLogger : Logger := ⟨(∅ : StdMap (List Line)).insert writeFile [],some 0,0,5⟩

def noon (call : LogCall) : Written := ⟨call,⟨0,0⟩,⟨0,0⟩,⟨true,some 0⟩⟩

def firstSend : SendCall := ⟨6000000000,[writeFile],⟨0,0⟩,⟨true,some 0⟩,true,true,6000000000⟩

theorem freshEmpty (fileName : String) : freshLogger.linesIn fileName = [] := by
  rw [linesIn,freshLogger,OrderedMap.insertGetD]
  split
  · rfl
  · simp

def noonTime (_ : Int) : String := "1970-01-01 12:00:00"

def sentOf (calls : List Written) : Option Sending :=
  ((writeCalls noonTime 0 calls freshLogger).sendPendingLogs noonTime firstSend false).2

theorem forgedMetric : ¬ ∀ (calls : List Written) (x : Sending), sentOf calls = some x →
    RoundTrip (calls.map (·.call)) (bodyArray androidConfig x) := by
  intro claim
  have types : (sentOf [noon (.OUTSIDELOG ⟨"tapped\nMETRICS::: now ::: INFERENCE ::: \x7b\x7d",by decide⟩)]).map
      (fun x => x.logs.map (fun line => logTypeOf line.text)) = some ["OUTSIDE","METRICS"] := by decide +kernel
  obtain ⟨x,sent,types⟩ := Option.map_eq_some_iff.mp types
  have entries := (claim _ x sent).length_eq
  have lines := congrArg List.length types
  rw [List.length_map] at lines
  rw [bodyArray,List.length_map,List.length_map,lines] at entries
  exact absurd entries (by decide)

def debugCall : LogCall := .LOGDEBUG ⟨"a:::b",by decide⟩

def metricsCall : LogCall := .LOGMETRICS ⟨"INFERENCE",by decide⟩ ⟨"\x7b\x7d",by decide⟩

theorem roundTripTwo : ∃ x, sentOf [noon debugCall,noon metricsCall] = some x ∧
    RoundTrip [debugCall,metricsCall] (bodyArray androidConfig x) := by
  have some : (sentOf [noon debugCall,noon metricsCall]).isSome = true := by decide +kernel
  obtain ⟨x,sent⟩ := Option.isSome_iff_exists.mp some
  have room : isFull (linesOf noonTime 0 [noon debugCall]) = false := by decide +kernel
  have line : '\n' ∉ "1970-01-01 12:00:00".toList := by decide +kernel
  have plain : ∀ w ∈ [noon debugCall,noon metricsCall], '\n' ∉ w.call.message.toList := by decide +kernel
  exact ⟨x,sent,(roundTripIff androidConfig noonTime (fun _ => line) [noon debugCall,noon metricsCall] 0 freshLogger firstSend
    false x freshEmpty rfl room sent).mpr plain⟩

end Uploads
end NimbleNet.LogFraming
