import NimbleNet.PendingLogs

/-! How often a logger uploads, while its interval stays. The clock of a run is the one that
send_pending_logs reads; it does not go back. -/
namespace NimbleNet.UploadPacing
open Logger PendingLogs StepRuns

/- `starts`: when a call came to an upload, the last one first. `threws`: the uploads that an
exception left. -/
structure Paced where
  tracked : Tracked
  clock : Int
  starts : List Int
  threws : Nat

def start (logger : Logger) (begin : Int) : Paced := ⟨⟨logger,none,[],[]⟩,begin,[],0⟩

def inOrder (clock : Int) : Action → Bool
  | .writeLog _ _ _ _ _ => true
  | .sendPendingLogs c _ => clock ≤ c.timeNow && c.timeNow ≤ c.timeAfter
  | .answer _ timeAfter => clock ≤ timeAfter
  | .finish _ timeAfter => clock ≤ timeAfter

def step (localTime : Int → String) (s : Paced) (a : Action) : Option Paced :=
  if inOrder s.clock a then do
    let next ← PendingLogs.step localTime s.tracked a
    match a with
    | .writeLog _ _ _ _ _ => some {s with tracked := next}
    | .sendPendingLogs c _ =>
        if next.sending.isSome then some {s with tracked := next, clock := c.timeNow, starts := c.timeNow :: s.starts}
        else some {s with tracked := next, clock := c.timeAfter}
    | .answer .threw timeAfter => some {s with tracked := next, clock := timeAfter, threws := s.threws + 1}
    | .answer _ timeAfter => some {s with tracked := next, clock := timeAfter}
    | .finish _ timeAfter => some {s with tracked := next, clock := timeAfter}
  else none

/- What has to pass between two uploads: more than the interval, in whole seconds. -/
def gap (timerInterval : Int) : Int := max 0 ((timerInterval + 1) * 1000000000)

def Paced.answered (s : Paced) : Int :=
  (s.starts.length : Int) - s.threws - if s.tracked.sending.isSome then 1 else 0

section Calls
variable {localTime : Int → String} {l : Logger} {c : SendCall} {initComplete : Bool}

theorem duePassed (due : l.isDue c.timeNow = true) (recent : l.lastLogTime ≤ c.timeNow) :
    l.lastLogTime + gap l.timerInterval ≤ c.timeNow := by
  unfold isDue at due
  unfold gap
  have passed : l.timerInterval < (c.timeNow - l.lastLogTime).tdiv 1000000000 := of_decide_eq_true due
  rw [Int.tdiv_eq_ediv_of_nonneg (by omega)] at passed
  omega

theorem sendLogsClock (fileName : String) : (l.sendLogs c fileName).1.timerInterval = l.timerInterval ∧
    ((l.sendLogs c fileName).2.isSome = true → (l.sendLogs c fileName).1.lastLogTime = l.lastLogTime) ∧
    ((l.sendLogs c fileName).2.isSome = false → (l.sendLogs c fileName).1.lastLogTime = c.timeAfter) := by
  unfold sendLogs remove
  split
  · split <;> simp
  · simp

theorem sendClock : (l.sendPendingLogs localTime c initComplete).1.timerInterval = l.timerInterval ∧
    ((l.sendPendingLogs localTime c initComplete).2.isSome = true →
      (l.sendPendingLogs localTime c initComplete).1.lastLogTime = l.lastLogTime ∧ l.isDue c.timeNow = true) ∧
    ((l.sendPendingLogs localTime c initComplete).2.isSome = false →
      (l.sendPendingLogs localTime c initComplete).1.lastLogTime = l.lastLogTime ∨
        (l.sendPendingLogs localTime c initComplete).1.lastLogTime = c.timeAfter) := by
  unfold sendPendingLogs
  split
  · rename_i due
    split
    · rename_i fileName _
      obtain ⟨interval,some,none⟩ := @sendLogsClock l c fileName
      exact ⟨interval,fun sends => ⟨some sends,due⟩,fun stops => .inr (none stops)⟩
    · split
      · obtain ⟨interval,some,none⟩ :=
          @sendLogsClock (l.moveAway c.reopening (newFileName localTime c.now)) c (newFileName localTime c.now)
        exact ⟨interval,fun sends => ⟨some sends,due⟩,fun stops => .inr (none stops)⟩
      · simp
  · simp

theorem writeClock {now later : ClockReading} {o : Reopening} {first : Nat} {message type : String} :
    (l.writeLog localTime now later o first message type).timerInterval = l.timerInterval ∧
      (l.writeLog localTime now later o first message type).lastLogTime = l.lastLogTime := by
  unfold writeLog
  split
  · exact ⟨rfl,rfl⟩
  · dsimp only
    split <;> exact ⟨rfl,rfl⟩

end Calls

section Steps
variable {localTime : Int → String} {begin timerInterval : Int} {s next : Paced} {a : Action}

structure Inv (begin timerInterval : Int) (s : Paced) : Prop where
  interval : s.tracked.logger.timerInterval = timerInterval
  recent : s.tracked.logger.lastLogTime ≤ s.clock
  since : begin ≤ s.clock
  behind : s.answered ≤ 0 ∨ (s.answered - 1) * gap timerInterval ≤ s.tracked.logger.lastLogTime - begin
  now : (s.starts.length - s.threws - 1 : Int) * gap timerInterval ≤ s.clock - begin

theorem gapNonneg (timerInterval : Int) : 0 ≤ gap timerInterval := le_max_left _ _

theorem quietInv (h : Inv begin timerInterval s) (starts : next.starts = s.starts) (threws : next.threws = s.threws)
    (sending : next.tracked.sending.isSome = s.tracked.sending.isSome)
    (interval : next.tracked.logger.timerInterval = s.tracked.logger.timerInterval) (later : s.clock ≤ next.clock)
    (last : next.tracked.logger.lastLogTime = s.tracked.logger.lastLogTime ∨
      next.tracked.logger.lastLogTime = next.clock) : Inv begin timerInterval next := by
  have answered : next.answered = s.answered := by simp only [Paced.answered,starts,threws,sending]
  have recent := h.recent
  have since := h.since
  have now := h.now
  refine ⟨interval.trans h.interval,by omega,by omega,?_,by rw [starts,threws]; omega⟩
  rw [answered]
  exact h.behind.imp_right (fun behind => by omega)

theorem answeredInv (h : Inv begin timerInterval s) (starts : next.starts = s.starts) (threws : next.threws = s.threws)
    (ended : next.tracked.sending = none)
    (interval : next.tracked.logger.timerInterval = s.tracked.logger.timerInterval) (later : s.clock ≤ next.clock)
    (last : next.tracked.logger.lastLogTime = next.clock) : Inv begin timerInterval next := by
  have answered : next.answered = s.starts.length - s.threws := by
    simp [Paced.answered,starts,threws,ended]
  have since := h.since
  have now := h.now
  refine ⟨interval.trans h.interval,last.le,by omega,.inr ?_,by rw [starts,threws]; omega⟩
  rw [answered,last]
  omega

theorem beginsInv {c : SendCall} (h : Inv begin timerInterval s) (first : s.clock ≤ c.timeNow)
    (idle : s.tracked.sending = none) (begins : next.tracked.sending.isSome = true)
    (starts : next.starts = c.timeNow :: s.starts) (threws : next.threws = s.threws) (clock : next.clock = c.timeNow)
    (interval : next.tracked.logger.timerInterval = s.tracked.logger.timerInterval)
    (last : next.tracked.logger.lastLogTime = s.tracked.logger.lastLogTime)
    (due : s.tracked.logger.isDue c.timeNow = true) : Inv begin timerInterval next := by
  have passed := duePassed due (h.recent.trans first)
  rw [h.interval] at passed
  have answered : s.answered = s.starts.length - s.threws := by simp [Paced.answered,idle]
  have still : next.answered = s.answered := by
    simp only [Paced.answered,starts,threws,begins,idle,List.length_cons]
    simp
    omega
  have due : s.answered * gap timerInterval ≤ c.timeNow - begin := by
    rcases h.behind with none | behind
    · have few := mul_nonpos_of_nonpos_of_nonneg none (gapNonneg timerInterval)
      linarith only [few,h.since,first]
    · rw [sub_one_mul] at behind
      linarith only [behind,passed]
  refine ⟨interval.trans h.interval,?_,?_,?_,?_⟩
  · rw [last,clock]
    exact h.recent.trans first
  · rw [clock]
    exact h.since.trans first
  · rw [still,last]
    exact h.behind
  · have same : ((next.starts.length : Int) - next.threws - 1) = s.answered := by
      rw [starts,threws,answered,List.length_cons]
      omega
    rw [same,clock]
    exact due

theorem threwInv (h : Inv begin timerInterval s) (sending : s.tracked.sending.isSome = true)
    (ended : next.tracked.sending = none) (starts : next.starts = s.starts) (threws : next.threws = s.threws + 1)
    (same : next.tracked.logger = s.tracked.logger) (later : s.clock ≤ next.clock) : Inv begin timerInterval next := by
  have still : next.answered = s.answered := by
    simp only [Paced.answered,starts,threws,ended,sending]
    simp
    omega
  have fewer : (next.starts.length - next.threws - 1 : Int) * gap timerInterval ≤
      (s.starts.length - s.threws - 1 : Int) * gap timerInterval := by
    refine mul_le_mul_of_nonneg_right ?_ (gapNonneg timerInterval)
    rw [starts,threws]
    omega
  refine ⟨same ▸ h.interval,same ▸ h.recent.trans later,h.since.trans later,?_,?_⟩
  · rw [still,same]
    exact h.behind
  · exact fewer.trans (h.now.trans (sub_le_sub_right later begin))

theorem stepInv (s : Paced) (a : Action) (next : Paced) (h : Inv begin timerInterval s)
    (taken : step localTime s a = some next) : Inv begin timerInterval next := by
  unfold step at taken
  split at taken
  case isFalse => contradiction
  rename_i ordered
  simp only [bind,Option.bind_eq_some_iff] at taken
  obtain ⟨tracked,moved,taken⟩ := taken
  cases a with
  | writeLog now later o message type =>
      cases moved
      cases taken
      obtain ⟨interval,last⟩ := @writeClock localTime s.tracked.logger now later o s.tracked.written.length message type
      exact quietInv h rfl rfl rfl interval le_rfl (.inl last)
  | sendPendingLogs c initComplete =>
      simp only [inOrder,Bool.and_eq_true,decide_eq_true_eq] at ordered
      obtain ⟨first,second⟩ := ordered
      obtain ⟨interval,sends,stops⟩ := @sendClock localTime s.tracked.logger c initComplete
      simp only [PendingLogs.step] at moved
      split at moved
      case h_2 => contradiction
      rename_i idle
      cases moved
      dsimp only at taken
      split at taken <;> rename_i sending
      · obtain ⟨last,due⟩ := sends sending
        cases taken
        exact beginsInv h first idle sending rfl rfl rfl interval last due
      · cases taken
        refine quietInv h rfl rfl ?_ interval (first.trans second) (stops (Bool.not_eq_true _ ▸ sending))
        rw [idle]
        exact Bool.not_eq_true _ ▸ sending
  | answer answer timeAfter =>
      have later : s.clock ≤ timeAfter := of_decide_eq_true ordered
      simp only [PendingLogs.step] at moved
      split at moved
      case h_2 => contradiction
      rename_i fileName logs sending
      cases answer with
      | returned didSend =>
          cases didSend with
          | true =>
              cases moved
              cases taken
              exact quietInv h rfl rfl (by rw [sending]; rfl) rfl later (.inl rfl)
          | false =>
              cases moved
              cases taken
              exact answeredInv h rfl rfl rfl rfl later rfl
      | threw =>
          cases moved
          cases taken
          exact threwInv h (by rw [sending]; rfl) rfl rfl rfl rfl later
  | finish removes timeAfter =>
      have later : s.clock ≤ timeAfter := of_decide_eq_true ordered
      simp only [PendingLogs.step] at moved
      split at moved
      case h_2 => contradiction
      cases moved
      cases taken
      refine answeredInv h rfl rfl rfl ?_ later rfl
      simp only [remove]
      split <;> rfl

end Steps

section Results
variable {localTime : Int → String} {logger : Logger} {begin : Int} {actions : List Action} {final : Paced}

theorem uploadsPaced (ok : run (step localTime) (start logger begin) actions = some final)
    (recent : logger.lastLogTime ≤ begin) :
    (final.starts.length - final.threws - 1 : Int) * gap logger.timerInterval ≤ final.clock - begin := by
  have nonneg := gapNonneg logger.timerInterval
  have first : Inv begin logger.timerInterval (start logger begin) :=
    ⟨rfl,recent,le_rfl,.inl (by simp [Paced.answered,start]),by simp [start]; omega⟩
  exact (runInvariant _ stepInv first ok).now

def pendingAt (timeNow timeAfter : Int) : Action :=
  .sendPendingLogs ⟨timeNow,[writeFile],⟨0,2000⟩,⟨true,some 0⟩,true,true,timeAfter⟩ false

def twoUploads : List Action :=
  [message,pendingAt 6000000000 6000000000,.answer (.returned true) 6000000007,.finish true 6000000009,message,
    pendingAt 8000000000 8000000000,pendingAt 12000000009 12000000009]

theorem uploadsPacedTwice : ∃ final : Paced, run (step newYear) (start emptyLogger.logger 0) twoUploads = some final ∧
    final.starts.length = 2 ∧
    (final.starts.length - final.threws - 1 : Int) * gap emptyLogger.logger.timerInterval ≤ final.clock - 0 := by
  have runs : (run (step newYear) (start emptyLogger.logger 0) twoUploads).any (fun s => decide (s.starts.length = 2)) = true := by
    decide +kernel
  obtain ⟨final,ok,two⟩ := (Option.any_eq_true _ _).mp runs
  exact ⟨final,ok,of_decide_eq_true two,uploadsPaced ok le_rfl⟩

end Results

end NimbleNet.UploadPacing
