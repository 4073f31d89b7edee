import NimbleNet.HeldItems
import NimbleNet.Logger
import NimbleNet.OrderedMap
import NimbleNet.StepRuns

/-! Log lines on their way from write_log to an upload. A call of send_pending_logs is
cut at the upload and at the removal behind it: upload_logs itself logs a line, so that
write_log runs there, and so do the lines of other errors. -/
namespace NimbleNet.PendingLogs
open HeldItems Logger StepRuns

structure Tracked where
  logger : Logger
  sending : Option Sending
  written : List Line
  uploaded : List Line

inductive Answer where
  | returned (didSend : Bool)
  | threw

inductive Action where
  | writeLog (now later : ClockReading) (o : Reopening) (message type : String)
  | sendPendingLogs (c : SendCall) (initComplete : Bool)
  | answer (a : Answer) (timeAfter : Int)
  | finish (removes : Bool) (timeAfter : Int)

def newLines (localTime : Int → String) (s : Tracked) (now : ClockReading) (message type : String) : List Line :=
  if s.logger.writeFilePtr.isSome then numbered s.written.length (entry localTime now message type) else []

def step (localTime : Int → String) (s : Tracked) : Action → Option Tracked
  | .writeLog now later o message type => some {s with
      logger := s.logger.writeLog localTime now later o s.written.length message type
      written := s.written ++ newLines localTime s now message type}
  | .sendPendingLogs c initComplete =>
      match s.sending with
      | none =>
          let sent := s.logger.sendPendingLogs localTime c initComplete
          some {s with logger := sent.1, sending := sent.2}
      | some _ => none
  | .answer a timeAfter =>
      match s.sending with
      | some ⟨fileName,logs,false⟩ =>
          match a with
          | .returned true => some {s with sending := some ⟨fileName,logs,true⟩, uploaded := s.uploaded ++ logs}
          | .returned false => some {s with logger := {s.logger with lastLogTime := timeAfter}, sending := none}
          | .threw => some {s with sending := none}
      | _ => none
  | .finish removes timeAfter =>
      match s.sending with
      | some ⟨fileName,_,true⟩ => some {s with
          logger := {s.logger.remove removes fileName with lastLogTime := timeAfter}
          sending := none}
      | _ => none

def holds (l : Logger) (fileName : String) (line : Line) : Prop := line ∈ l.linesIn fileName

def NoLineLost (s : Tracked) : Prop := Kept (holds s.logger) (· ∈ s.uploaded) (· ∈ s.written)

def Unsent (s : Tracked) (fileName : String) : Prop := ∃ line ∈ s.logger.linesIn fileName, line ∉ s.uploaded
instance (s : Tracked) (fileName : String) : Decidable (Unsent s fileName) := by unfold Unsent; infer_instance

def movedTo (localTime : Int → String) (s : Tracked) : Action → Option String
  | .writeLog now later o message type =>
      if s.logger.writeFilePtr.isSome && o.renames &&
          isFull (s.logger.linesIn writeFile ++ numbered s.written.length (entry localTime now message type)) then
        some (newFileName localTime later)
      else none
  | .sendPendingLogs c initComplete =>
      if s.logger.isDue c.timeNow && (getNewFileToSendLog c.entries).isNone && s.logger.isWorthSending initComplete &&
          c.reopening.renames then
        some (newFileName localTime c.now)
      else none
  | _ => none

def readFrom (localTime : Int → String) (s : Tracked) : Action → Option String
  | .sendPendingLogs c initComplete =>
      if s.logger.isDue c.timeNow then
        match getNewFileToSendLog c.entries with
        | some fileName => some fileName
        | none =>
            if s.logger.isWorthSending initComplete then
              some (if c.reopening.renames then writeFile else newFileName localTime c.now)
            else none
      else none
  | _ => none

/- No file with unsent lines is replaced by a rename, or removed because it could not be
opened; and the file that is removed after an upload is still the one that was read. -/
structure Safe (localTime : Int → String) (s : Tracked) (a : Action) : Prop where
  freeName : ∀ fileName ∈ movedTo localTime s a, ¬ Unsent s fileName
  opened : ∀ c initComplete, a = .sendPendingLogs c initComplete → c.opens = false → c.removes = true →
    ∀ fileName ∈ readFrom localTime s a, ¬ Unsent s fileName
  sameFile : ∀ timeAfter, a = .finish true timeAfter → ∀ x ∈ s.sending, s.logger.linesIn x.fileName = x.logs

structure InFlight (s : Tracked) (x : Sending) : Prop where
  apart : x.fileName ≠ writeFile
  behind : ∀ line ∈ x.logs, ¬ holds s.logger writeFile line
  known : ∀ line ∈ x.logs, line ∈ s.written
  sent : x.didSend = true → ∀ line ∈ x.logs, line ∈ s.uploaded
  place : s.logger.linesIn x.fileName = x.logs ∨
    ∃ line ∈ s.logger.linesIn x.fileName, line ∉ x.logs ∧ line ∉ s.uploaded

structure Tracks (s : Tracked) : Prop where
  once : Once (holds s.logger)
  known : ∀ fileName line, holds s.logger fileName line → line ∈ s.written
  sent : ∀ line ∈ s.uploaded, line ∈ s.written
  fresh : ∀ line ∈ s.written, line.number < s.written.length
  opened : s.logger.writeFilePtr.isSome = true → writeFile ∈ s.logger.files
  unsent : ∀ line, holds s.logger writeFile line → line ∉ s.uploaded
  sending : ∀ x ∈ s.sending, InFlight s x

section Files
variable {l : Logger} {localTime : Int → String}

theorem newNameApart (now : ClockReading) : newFileName localTime now ≠ writeFile := by
  intro same
  have letters := congrArg String.toList same
  rw [newFileName,String.toList_append,String.toList_append] at letters
  have second := congrArg (fun cs : List Char => cs[1]?) letters
  simp [writeFile] at second

theorem linesInAppend (lines : List Line) (other : String) : (l.append lines).linesIn other =
    if other = writeFile then l.linesIn writeFile ++ lines else l.linesIn other :=
  OrderedMap.insertGetD l.files writeFile other _ _

theorem holdsAppend (lines : List Line) : holds (l.append lines) = added writeFile (· ∈ lines) (holds l) := by
  funext fileName line
  simp only [holds,linesInAppend,added]
  split
  · rename_i same
    simp [same]
  · rename_i other
    simp [other]

theorem linesInMoved {o : Reopening} {fileName : String} (there : writeFile ∈ l.files) (other : String) :
    (l.moveAway o fileName).linesIn other =
      if o.renames then
        if other = fileName then l.linesIn writeFile else if other = writeFile then [] else l.linesIn other
      else l.linesIn other := by
  have found : l.files[writeFile]? = some (l.linesIn writeFile) := by
    obtain ⟨lines,here⟩ := Option.isSome_iff_exists.mp (Std.ExtTreeMap.mem_iff_isSome_getElem?.mp there)
    rw [here,linesIn,Std.ExtTreeMap.getD_eq_getD_getElem?,here,Option.getD_some]
  have touched : ∀ files : StdMap (List Line),
      (if o.reopens.isSome then files.insertIfNew writeFile [] else files).getD other [] = files.getD other [] := by
    intro files
    split
    · exact OrderedMap.touchGetD files writeFile other _
    · rfl
  rw [moveAway,linesIn,touched,found]
  cases o.renames with
  | false => rfl
  | true =>
      simp only [if_true,OrderedMap.insertGetD,OrderedMap.eraseGetD]
      rfl

theorem holdsMoved {o : Reopening} {fileName : String} (there : writeFile ∈ l.files) (apart : fileName ≠ writeFile)
    (renames : o.renames = true) : holds (l.moveAway o fileName) = renamed writeFile fileName (holds l) := by
  funext other line
  simp only [holds,linesInMoved there,renames,if_true,renamed]
  split
  · rename_i same
    simp [same]
  · rename_i different
    split
    · rename_i same
      simp [same,apart.symm]
    · rename_i different'
      simp [different,different']

theorem holdsStays {o : Reopening} {fileName : String} (there : writeFile ∈ l.files)
    (renames : o.renames = false) : holds (l.moveAway o fileName) = holds l := by
  funext other line
  simp only [holds,linesInMoved there,renames,Bool.false_eq_true,if_false]

theorem movedOpen {o : Reopening} {fileName : String} (open' : (l.moveAway o fileName).writeFilePtr.isSome = true) :
    writeFile ∈ (l.moveAway o fileName).files := by
  have reopens : o.reopens.isSome = true := open'
  simp only [moveAway,reopens,if_true,Std.ExtTreeMap.mem_insertIfNew,Std.ReflCmp.compare_self,true_or]

theorem holdsRemoved (fileName : String) : holds (l.remove true fileName) = removed fileName (holds l) := by
  funext other line
  simp only [holds,remove,if_true,linesIn,OrderedMap.eraseGetD,removed]
  split
  · rename_i same
    simp [same]
  · rename_i different
    simp [different]

end Files

section Numbers

theorem numberedRange {first : Nat} {text : String} {line : Line} (member : line ∈ numbered first text) :
    first ≤ line.number ∧ line.number < first + (numbered first text).length := by
  obtain ⟨⟨characters,number⟩,inside,rfl⟩ := List.mem_map.mp member
  rw [numbered,List.length_map,List.length_zipIdx]
  exact ⟨List.le_snd_of_mem_zipIdx inside,List.snd_lt_add_of_mem_zipIdx inside⟩

theorem numberedSome (first : Nat) (text : String) : numbered first text ≠ [] := by
  intro none
  have empty := congrArg List.length none
  rw [numbered,List.length_map,List.length_zipIdx] at empty
  exact List.splitOn_ne_nil _ _ (List.length_eq_zero_iff.mp empty)

end Numbers

section Steps
variable {localTime : Int → String} {s : Tracked}

theorem notUnsent {fileName : String} : ¬ Unsent s fileName ↔ ∀ line, holds s.logger fileName line → line ∈ s.uploaded := by
  simp [Unsent,holds]

theorem appendTracks (inv : Tracks s) (kept : NoLineLost s) (text : String) {next : Tracked}
    (same : next = {s with
      logger := s.logger.append (numbered s.written.length text)
      written := s.written ++ numbered s.written.length text}) : Tracks next ∧ NoLineLost next := by
  subst same
  have fresh : ∀ line ∈ numbered s.written.length text, line ∉ s.written := fun line new old =>
    absurd (inv.fresh line old) (not_lt.mpr (numberedRange new).1)
  have unheld : ∀ line, line ∈ numbered s.written.length text → ∀ fileName, ¬ holds s.logger fileName line :=
    fun line new fileName held => fresh line new (inv.known fileName line held)
  have heldNow := holdsAppend (l := s.logger) (numbered s.written.length text)
  refine ⟨⟨?_,?_,?_,?_,?_,?_,?_⟩,?_⟩
  · simp only [heldNow]
    exact onceAdded inv.once unheld
  · simp only [heldNow]
    rintro fileName line (old | ⟨_,new⟩)
    · exact List.mem_append_left _ (inv.known fileName line old)
    · exact List.mem_append_right _ new
  · exact fun line member => List.mem_append_left _ (inv.sent line member)
  · intro line member
    rw [List.length_append]
    rcases List.mem_append.mp member with old | new
    · exact Nat.lt_add_right _ (inv.fresh line old)
    · exact (numberedRange new).2
  · intro _
    exact Std.ExtTreeMap.mem_insert_self
  · simp only [heldNow]
    rintro line (old | ⟨_,new⟩)
    · exact inv.unsent line old
    · exact fun uploaded => fresh line new (inv.sent line uploaded)
  · intro x here
    have flight := inv.sending x here
    refine ⟨flight.apart,?_,fun line member => List.mem_append_left _ (flight.known line member),flight.sent,?_⟩
    · simp only [heldNow]
      rintro line member (old | ⟨_,new⟩)
      · exact flight.behind line member old
      · exact fresh line new (flight.known line member)
    · simp only [linesInAppend,if_neg flight.apart]
      exact flight.place
  · have more := @keptAdded _ _ _ _ _ writeFile (· ∈ numbered s.written.length text) kept
    simp only [NoLineLost,heldNow,List.mem_append]
    exact more

theorem movedTracks (inv : Tracks s) {o : Reopening} {fileName : String}
    (apart : fileName ≠ writeFile) (there : writeFile ∈ s.logger.files)
    (idle : s.sending = none ∨ s.logger.linesIn writeFile ≠ []) {next : Tracked}
    (same : next = {s with logger := s.logger.moveAway o fileName}) :
    Tracks next ∧ (NoLineLost next ↔ NoLineLost s ∧ (o.renames = true → ¬ Unsent s fileName)) := by
  subst same
  cases renames : o.renames with
  | false =>
      have heldNow := @holdsStays s.logger o fileName there renames
      have lines : ∀ other, (s.logger.moveAway o fileName).linesIn other = s.logger.linesIn other := fun other => by
        rw [linesInMoved there,renames]
        rfl
      refine ⟨⟨?_,?_,inv.sent,inv.fresh,movedOpen,?_,?_⟩,?_⟩
      · simp only [heldNow]
        exact inv.once
      · simp only [heldNow]
        exact inv.known
      · simp only [heldNow]
        exact inv.unsent
      · intro x here
        have flight := inv.sending x here
        refine ⟨flight.apart,?_,flight.known,flight.sent,?_⟩
        · simp only [heldNow]
          exact flight.behind
        · simp only [lines]
          exact flight.place
      · simp only [NoLineLost,heldNow]
        simp
  | true =>
      have heldNow := @holdsMoved s.logger o fileName there apart renames
      have lines := @linesInMoved s.logger o fileName there
      simp only [renames,if_true] at lines
      refine ⟨⟨?_,?_,inv.sent,inv.fresh,movedOpen,?_,?_⟩,?_⟩
      · simp only [heldNow]
        exact onceRenamed inv.once
      · simp only [heldNow]
        rintro other line (⟨_,old⟩ | ⟨_,_,old⟩)
        · exact inv.known writeFile line old
        · exact inv.known other line old
      · simp only [heldNow]
        rintro line (⟨same,_⟩ | ⟨other,_,_⟩)
        · exact absurd same.symm apart
        · exact absurd rfl other
      · intro x here
        have flight := inv.sending x here
        refine ⟨flight.apart,?_,flight.known,flight.sent,?_⟩
        · simp only [heldNow]
          rintro line _ (⟨same,_⟩ | ⟨other,_,_⟩)
          · exact absurd same.symm apart
          · exact absurd rfl other
        · simp only [lines]
          split
          · rcases idle with none | some
            · rw [none] at here
              contradiction
            · obtain ⟨line,member⟩ := List.exists_mem_of_ne_nil _ some
              exact .inr ⟨line,member,fun logged => flight.behind line logged member,inv.unsent line member⟩
          · rw [if_neg flight.apart]
            exact flight.place
      · simp only [NoLineLost,heldNow,true_imp_iff,notUnsent]
        exact keptRenamed inv.once apart.symm inv.known

theorem removedTracks (inv : Tracks s) {removes : Bool} {fileName : String}
    (apart : fileName ≠ writeFile) {t : Int} {next : Tracked}
    (same : next = {s with logger := {s.logger.remove removes fileName with lastLogTime := t}, sending := none}) :
    Tracks next ∧ (NoLineLost next ↔ NoLineLost s ∧ (removes = true → ¬ Unsent s fileName)) := by
  subst same
  cases removes with
  | false =>
      refine ⟨⟨inv.once,inv.known,inv.sent,inv.fresh,inv.opened,inv.unsent,by simp⟩,?_⟩
      simp only [Bool.false_eq_true,false_imp_iff,and_true]
      rfl
  | true =>
      have heldNow : holds {s.logger.remove true fileName with lastLogTime := t} = removed fileName (holds s.logger) :=
        holdsRemoved fileName
      refine ⟨⟨?_,?_,inv.sent,inv.fresh,?_,?_,by simp⟩,?_⟩
      · simp only [heldNow]
        exact onceRemoved inv.once
      · simp only [heldNow]
        exact fun other line held => inv.known other line held.2
      · intro open'
        have there := inv.opened open'
        simp only [remove,if_true,Std.ExtTreeMap.mem_erase,ne_eq,Std.LawfulEqCmp.compare_eq_iff_eq]
        exact ⟨apart,there⟩
      · simp only [heldNow]
        exact fun line held => inv.unsent line held.2
      · simp only [NoLineLost,heldNow,true_imp_iff,notUnsent]
        exact keptRemoved inv.once inv.known

theorem sendLogsTracks (inv : Tracks s) {fileName : String} (apart : fileName ≠ writeFile) (c : SendCall)
    {next : Tracked} (same : next = {s with
      logger := (s.logger.sendLogs c fileName).1
      sending := (s.logger.sendLogs c fileName).2}) :
    Tracks next ∧ (NoLineLost next ↔ NoLineLost s ∧ (c.opens = false → c.removes = true → ¬ Unsent s fileName)) := by
  by_cases none : s.logger.readLogs c.opens fileName = []
  · rw [sendLogs,if_pos none] at same
    obtain ⟨inv',kept'⟩ := removedTracks inv apart same
    refine ⟨inv',kept'.trans (and_congr_right (fun _ => ?_))⟩
    cases opens : c.opens with
    | false => simp
    | true =>
        have empty : s.logger.linesIn fileName = [] := by simpa [readLogs,opens] using none
        simp [Unsent,empty]
  · rw [sendLogs,if_neg none] at same
    subst same
    have opens : c.opens = true := by
      by_contra closed
      exact none (by simp [readLogs,closed])
    have logs : s.logger.readLogs c.opens fileName = s.logger.linesIn fileName := by simp [readLogs,opens]
    refine ⟨⟨inv.once,inv.known,inv.sent,inv.fresh,inv.opened,inv.unsent,?_⟩,?_⟩
    · intro x here
      cases Option.mem_some_iff.mp here
      rw [logs]
      refine ⟨apart,fun line member held => ?_,fun line member => inv.known fileName line member,by simp,.inl rfl⟩
      exact apart (inv.once fileName writeFile line member held)
    · simp only [opens,Bool.true_eq_false,false_imp_iff,and_true]
      rfl

theorem pickedApart {entries : List String} {fileName : String} (picked : getNewFileToSendLog entries = some fileName) :
    fileName ≠ writeFile := by
  have chosen := List.find?_some picked
  simpa using chosen

theorem unsentMoved {o : Reopening} {fileName : String} (there : writeFile ∈ s.logger.files) :
    Unsent {s with logger := s.logger.moveAway o fileName} fileName ↔
      Unsent s (if o.renames then writeFile else fileName) := by
  simp only [Unsent,linesInMoved there,if_true]
  cases o.renames <;> rfl

theorem sendTracks (inv : Tracks s) (idle : s.sending = none) (c : SendCall) (initComplete : Bool) {next : Tracked}
    (same : next = {s with
      logger := (s.logger.sendPendingLogs localTime c initComplete).1
      sending := (s.logger.sendPendingLogs localTime c initComplete).2}) :
    Tracks next ∧ (NoLineLost next ↔ NoLineLost s ∧
      (∀ fileName ∈ movedTo localTime s (.sendPendingLogs c initComplete), ¬ Unsent s fileName) ∧
      (c.opens = false → c.removes = true →
        ∀ fileName ∈ readFrom localTime s (.sendPendingLogs c initComplete), ¬ Unsent s fileName)) := by
  unfold sendPendingLogs at same
  cases due : s.logger.isDue c.timeNow with
  | false =>
      have asIs : next = s := by
        simp only [same,due,Bool.false_eq_true,if_false,← idle]
      subst asIs
      exact ⟨inv,by simp [movedTo,readFrom,due]⟩
  | true =>
      cases picked : getNewFileToSendLog c.entries with
      | some fileName =>
          simp only [due,if_true,picked] at same
          obtain ⟨inv',kept'⟩ := sendLogsTracks inv (pickedApart picked) c same
          refine ⟨inv',kept'.trans ?_⟩
          simp [movedTo,readFrom,due,picked]
      | none =>
          cases worth : s.logger.isWorthSending initComplete with
          | false =>
              have asIs : next = s := by
                simp only [same,due,picked,worth,Bool.false_eq_true,if_true,if_false,← idle]
              subst asIs
              exact ⟨inv,by simp [movedTo,readFrom,due,picked,worth]⟩
          | true =>
              simp only [due,if_true,picked,worth] at same
              have open' : s.logger.writeFilePtr.isSome = true := by
                cases ptr : s.logger.writeFilePtr with
                | none => simp [isWorthSending,ptr] at worth
                | some position => rfl
              have there := inv.opened open'
              have apart := @newNameApart localTime c.now
              obtain ⟨moved,renamed⟩ := @movedTracks s inv c.reopening _ apart there (.inl idle) _ rfl
              obtain ⟨inv',kept'⟩ := sendLogsTracks moved apart c same
              refine ⟨inv',kept'.trans ?_⟩
              rw [renamed,unsentMoved there,and_assoc]
              cases renames : c.reopening.renames with
              | false => simp [movedTo,readFrom,due,picked,worth,renames]
              | true => simp [movedTo,readFrom,due,picked,worth,renames]

theorem writeTracks (inv : Tracks s) (kept : NoLineLost s) {now later : ClockReading} {o : Reopening} {message type : String}
    {next : Tracked} (taken : step localTime s (.writeLog now later o message type) = some next) :
    Tracks next ∧ (NoLineLost next ↔
      ∀ fileName ∈ movedTo localTime s (.writeLog now later o message type), ¬ Unsent s fileName) := by
  have same := (Option.some.inj taken).symm
  cases ptr : s.logger.writeFilePtr with
  | none =>
      have asIs : next = s := by
        simp only [same,writeLog,newLines,ptr,Option.isSome_none,Bool.false_eq_true,if_false,List.append_nil]
      subst asIs
      exact ⟨inv,iff_of_true kept (by simp [movedTo,ptr])⟩
  | some position =>
      let printed : Tracked := {s with
        logger := s.logger.append (numbered s.written.length (entry localTime now message type))
        written := s.written ++ numbered s.written.length (entry localTime now message type)}
      have lines : printed.logger.linesIn writeFile =
          s.logger.linesIn writeFile ++ numbered s.written.length (entry localTime now message type) := by
        simp only [printed,linesInAppend,if_true]
      obtain ⟨inv',kept'⟩ := @appendTracks s inv kept (entry localTime now message type) printed rfl
      simp only [writeLog,newLines,ptr,Option.isSome_some,if_true] at same
      cases full : isFull (printed.logger.linesIn writeFile) with
      | false =>
          have asIs : next = printed := by
            rw [same]
            simp only [printed] at full ⊢
            simp only [full,Bool.false_eq_true,if_false]
          rw [asIs]
          rw [lines] at full
          exact ⟨inv',iff_of_true kept' (by simp [movedTo,full])⟩
      | true =>
          have apart := @newNameApart localTime later
          have asMoved : next = {printed with logger := printed.logger.moveAway o (newFileName localTime later)} := by
            rw [same]
            simp only [printed] at full ⊢
            simp only [full,if_true]
          have some : printed.logger.linesIn writeFile ≠ [] := by
            rw [lines]
            exact List.append_ne_nil_of_right_ne_nil _ (numberedSome _ _)
          have there : writeFile ∈ printed.logger.files := inv'.opened rfl
          obtain ⟨inv'',kept''⟩ := movedTracks inv' apart there (.inr some) asMoved
          have target : Unsent printed (newFileName localTime later) ↔ Unsent s (newFileName localTime later) := by
            simp only [Unsent,printed,linesInAppend,if_neg apart]
          rw [lines] at full
          refine ⟨inv'',kept''.trans ?_⟩
          cases renames : o.renames with
          | false => simp [movedTo,renames,kept']
          | true => simp [movedTo,renames,ptr,full,kept',target]

theorem answerTracks (inv : Tracks s) (kept : NoLineLost s) {a : Answer} {timeAfter : Int} {next : Tracked}
    (taken : step localTime s (.answer a timeAfter) = some next) : Tracks next ∧ NoLineLost next := by
  simp only [step] at taken
  split at taken
  · rename_i fileName logs sending
    have flight := inv.sending _ sending
    split at taken
    · cases taken
      refine ⟨⟨inv.once,inv.known,?_,inv.fresh,inv.opened,?_,?_⟩,keptMore (fun _ => List.mem_append_left logs) kept⟩
      · intro line member
        rcases List.mem_append.mp member with old | new
        · exact inv.sent line old
        · exact flight.known line new
      · intro line held member
        rcases List.mem_append.mp member with old | new
        · exact inv.unsent line held old
        · exact flight.behind line new held
      · intro x here
        cases Option.mem_some_iff.mp here
        refine ⟨flight.apart,flight.behind,flight.known,fun _ line => List.mem_append_right _,?_⟩
        rcases flight.place with same | ⟨line,held,other,unsent⟩
        · exact .inl same
        · refine .inr ⟨line,held,other,fun member => ?_⟩
          rcases List.mem_append.mp member with old | new
          · exact unsent old
          · exact other new
    · cases taken
      exact ⟨⟨inv.once,inv.known,inv.sent,inv.fresh,inv.opened,inv.unsent,by simp⟩,kept⟩
    · cases taken
      exact ⟨⟨inv.once,inv.known,inv.sent,inv.fresh,inv.opened,inv.unsent,by simp⟩,kept⟩
  · contradiction

theorem finishTracks (inv : Tracks s) (kept : NoLineLost s) {removes : Bool} {timeAfter : Int} {next : Tracked}
    (taken : step localTime s (.finish removes timeAfter) = some next) :
    Tracks next ∧ (NoLineLost next ↔ (removes = true → ∀ x ∈ s.sending, s.logger.linesIn x.fileName = x.logs)) := by
  simp only [step] at taken
  split at taken
  · rename_i fileName logs sending
    have flight := inv.sending _ sending
    obtain ⟨inv',kept'⟩ := removedTracks inv flight.apart (Option.some.inj taken).symm
    refine ⟨inv',kept'.trans ?_⟩
    simp only [kept,true_and,sending,Option.mem_some_iff,forall_eq']
    refine imp_congr_right (fun _ => ⟨fun spent => ?_,fun same => ?_⟩)
    · rcases flight.place with same | ⟨line,held,_,unsent⟩
      · exact same
      · exact absurd ⟨line,held,unsent⟩ spent
    · rintro ⟨line,held,unsent⟩
      rw [same] at held
      exact unsent (flight.sent rfl line held)
  · contradiction

theorem stepExact {a : Action} {next : Tracked} (inv : Tracks s) (kept : NoLineLost s)
    (taken : step localTime s a = some next) : Tracks next ∧ (NoLineLost next ↔ Safe localTime s a) := by
  cases a with
  | writeLog now later o message type =>
      obtain ⟨inv',exact'⟩ := writeTracks inv kept taken
      refine ⟨inv',exact'.trans ⟨fun free => ⟨free,?_,?_⟩,Safe.freeName⟩⟩ <;> (intros; contradiction)
  | sendPendingLogs c initComplete =>
      simp only [step] at taken
      split at taken
      · rename_i idle
        obtain ⟨inv',exact'⟩ := @sendTracks localTime s inv idle c initComplete next (Option.some.inj taken).symm
        refine ⟨inv',exact'.trans ⟨fun ⟨_,free,opened⟩ => ⟨free,?_,by intros; contradiction⟩,fun safe => ?_⟩⟩
        · intro c' initComplete' same
          cases same
          exact opened
        · exact ⟨kept,safe.freeName,safe.opened c initComplete rfl⟩
      · contradiction
  | answer a timeAfter =>
      obtain ⟨inv',kept'⟩ := answerTracks inv kept taken
      refine ⟨inv',iff_of_true kept' ⟨by simp [movedTo],?_,?_⟩⟩ <;> (intros; contradiction)
  | finish removes timeAfter =>
      obtain ⟨inv',exact'⟩ := finishTracks inv kept taken
      refine ⟨inv',exact'.trans ⟨fun same => ⟨by simp [movedTo],by intros; contradiction,?_⟩,fun safe => ?_⟩⟩
      · intro t here
        cases here
        exact same rfl
      · rintro rfl
        exact safe.sameFile timeAfter rfl

end Steps

section Runs
variable {localTime : Int → String} {s final : Tracked} {actions : List Action}

structure Started (s : Tracked) : Prop where
  once : Once (holds s.logger)
  written : ∀ line, line ∈ s.written ↔ ∃ fileName, holds s.logger fileName line
  fresh : ∀ line ∈ s.written, line.number < s.written.length
  opened : s.logger.writeFilePtr.isSome = true → writeFile ∈ s.logger.files
  uploaded : s.uploaded = []
  sending : s.sending = none

theorem startedTracks (start : Started s) : Tracks s ∧ NoLineLost s := by
  refine ⟨⟨start.once,fun fileName line held => (start.written line).mpr ⟨fileName,held⟩,?_,start.fresh,start.opened,?_,?_⟩,
    fun line written => .inr ((start.written line).mp written)⟩
  · simp [start.uploaded]
  · simp [start.uploaded]
  · simp [start.sending]

theorem keptWhileSafe (start : Started s) (ok : run (step localTime) s actions = some final) :
    Always (step localTime) NoLineLost s actions ↔ Guarded (step localTime) (Safe localTime) s actions :=
  alwaysIffGuarded (fun _ _ _ inv kept taken => stepExact inv kept taken) (startedTracks start).1 (startedTracks start).2 ok

/- No line is lost exactly if no rename takes the name of a file with unsent lines, no such
file is removed unread, and no file that is being uploaded is replaced before its removal. -/
theorem linesKeptIff (localTime : Int → String) (s final : Tracked) (actions : List Action) (start : Started s)
    (ok : run (step localTime) s actions = some final) :
    Always (step localTime) NoLineLost s actions ↔ Guarded (step localTime) (Safe localTime) s actions :=
  keptWhileSafe start ok

def newYear : Int → String := fun _ => "2024-01-01 00:00:00"

def emptyLogger : Tracked := ⟨⟨(∅ : StdMap (List Line)).insert writeFile [],some 0,0,5⟩,none,[],[]⟩

def message : Action := .writeLog ⟨0,1000⟩ ⟨0,1000⟩ ⟨true,some 0⟩ "started" "INFO:::"

def pending (opens : Bool) : Action :=
  .sendPendingLogs ⟨6000000000,[writeFile],⟨0,2000⟩,⟨true,some 0⟩,opens,true,6000000000⟩ false

theorem emptyStarted : Started emptyLogger where
  once a b line here := by
    simp only [holds,emptyLogger,linesIn,OrderedMap.insertGetD] at here
    split at here
    · contradiction
    · simp at here
  written line := by
    simp only [holds,emptyLogger,linesIn,OrderedMap.insertGetD]
    simp
  fresh := by simp [emptyLogger]
  opened _ := Std.ExtTreeMap.mem_insert_self
  uploaded := rfl
  sending := rfl

theorem linesKeptUploaded :
    Always (step newYear) NoLineLost emptyLogger [message,pending true,.answer (.returned true) 7,message,.finish true 7] ↔
      Guarded (step newYear) (Safe newYear) emptyLogger
        [message,pending true,.answer (.returned true) 7,message,.finish true 7] := by
  have runs : (run (step newYear) emptyLogger
      [message,pending true,.answer (.returned true) 7,message,.finish true 7]).isSome = true := by decide +kernel
  obtain ⟨final,ok⟩ := Option.isSome_iff_exists.mp runs
  exact linesKeptIff newYear emptyLogger final _ emptyStarted ok

theorem unreadFileRemoved : ¬ ∀ (localTime : Int → String) (s final : Tracked) (actions : List Action), Started s →
    run (step localTime) s actions = some final → Always (step localTime) NoLineLost s actions := by
  intro claim
  have runs : (run (step newYear) emptyLogger [message,pending false]).isSome = true := by decide +kernel
  obtain ⟨final,ok⟩ := Option.isSome_iff_exists.mp runs
  have safe := (keptWhileSafe emptyStarted ok).mp (claim newYear emptyLogger final _ emptyStarted ok)
  have asked := (safe.2 _ rfl).1.opened _ _ rfl rfl rfl writeFile (by decide +kernel)
  exact asked (by decide +kernel)

end Runs
end NimbleNet.PendingLogs
