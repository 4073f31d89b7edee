import NimbleNet.ColumnTracking
import NimbleNet.StepRuns

/-! Any calls of add_event and remove_events on one column while the vector of all events
grows. Recorded are the indices that were added, the last oldestValidIndex, and
whether every read of the vector was inside it. -/
namespace NimbleNet.ColumnRuns
open AggregateColumn ColumnTracking LogSuffix StepRuns

def extremeReads (pick : Int → Int → Int) (allEvents : List TableEvent) (oldestValidIndex : Int) (i : Int)
    (isChanged : Bool) (col : Column Int) (stored : Int) : List Int :=
  if inside : 0 ≤ i ∧ i < allEvents.length then
    if isChanged = false ∧ oldestValidIndex ≤ i then []
    else
      let event := eventAt allEvents i
      if col.config.inGroup event then
        let value := col.config.valueOf event
        if isChanged then
          if col.totalCount = 0 then
            i :: extremeReads pick allEvents oldestValidIndex (i + 1) isChanged
              {col with totalCount := col.totalCount + 1, oldestIndex := i} value
          else
            i :: extremeReads pick allEvents oldestValidIndex (i + 1) isChanged
              {col with totalCount := col.totalCount + 1} (pick stored value)
        else if value = stored then
          i :: extremeReads pick allEvents oldestValidIndex (oldestValidIndex - 1 + 1) true
            {col with totalCount := 0} col.config.defaultValue
        else
          i :: extremeReads pick allEvents oldestValidIndex (i + 1) isChanged
            {col with totalCount := col.totalCount - 1} stored
      else i :: extremeReads pick allEvents oldestValidIndex (i + 1) isChanged col stored
  else []
termination_by (if isChanged then 0 else 1, (allEvents.length - i).toNat)
decreasing_by all_goals simp_all [Prod.lex_def]; try omega

theorem extremeReadsInside (pick : Int → Int → Int) (log v i changed) (col : Column Int) (stored) :
    ∀ j ∈ extremeReads pick log v i changed col stored, 0 ≤ j ∧ j < log.length := by
  fun_induction extremeReads <;> simp_all

def removeReads (col : Column Int) (stored : Int) (allEvents : List TableEvent) (oldestValidIndex : Int) : List Int :=
  match col.config.kind with
  | .min => extremeReads min allEvents oldestValidIndex col.oldestIndex false col stored
  | .max => extremeReads max allEvents oldestValidIndex col.oldestIndex false col stored
  | _ => indices col.oldestIndex oldestValidIndex

structure ColumnRun where
  allEvents : List TableEvent
  column : Column Int
  stored : Int
  added : List Nat
  valid : Option Int
  inside : Bool
  deriving DecidableEq

inductive Action where
  | append (e : TableEvent)
  | addEvent (newEventIndex : Nat)
  | removeEvents (oldestValidIndex : Int)

namespace ColumnRun

def start (kind : ColumnKind) (preprocessorId columnId : Nat) (group : String) (storeSlot : Nat) (default : Int) :
    ColumnRun :=
  ⟨[],create kind preprocessorId columnId group storeSlot default,default,[],none,true⟩

def mine (s : ColumnRun) (i : Nat) : Bool := s.column.config.inGroup (eventAt s.allEvents i)

def valueAt (s : ColumnRun) (i : Nat) : Int := s.column.config.valueOf (eventAt s.allEvents i)

def isLive (s : ColumnRun) (i : Nat) : Bool := s.mine i && s.valid.all (fun v => decide (v ≤ (i : Int)))

def liveAdded (s : ColumnRun) : List Int := (s.added.filter s.isLive).map s.valueAt

end ColumnRun

def Ordered (s : ColumnRun) : Action → Prop
  | .append _ => True
  | .addEvent i => i < s.allEvents.length ∧ ∀ j ∈ s.added, j < i
  | .removeEvents v => (∀ w ∈ s.valid, w ≤ v) ∧ v ≤ s.allEvents.length

instance (s : ColumnRun) (a : Action) : Decidable (Ordered s a) := by
  cases a <;> simp only [Ordered] <;> infer_instance

def call (s : ColumnRun) : Action → ColumnRun
  | .append e => {s with allEvents := s.allEvents ++ [e]}
  | .addEvent i =>
      let (column,stored) := addEvent s.column s.stored (eventAt s.allEvents i) i
      {s with column := column, stored := stored, added := s.added ++ [i]}
  | .removeEvents v =>
      let (column,stored) := removeEvents s.column s.stored s.allEvents v
      {s with
        column := column, stored := stored, valid := some v,
        inside := s.inside && (removeReads s.column s.stored s.allEvents v).all (fun j =>
          decide (0 ≤ j ∧ j < s.allEvents.length))}

@[simp] theorem callAppendAdded (s : ColumnRun) (e : TableEvent) : (call s (.append e)).added = s.added := rfl

@[simp] theorem callAddEventAdded (s : ColumnRun) (i : Nat) : (call s (.addEvent i)).added = s.added ++ [i] := rfl

def step (s : ColumnRun) (a : Action) : Option ColumnRun := if Ordered s a then some (call s a) else none

def Complete (s : ColumnRun) : Action → Prop
  | .removeEvents _ => ∀ j ∈ s.added, s.mine j = true → ∀ i ∈ List.range s.allEvents.length, j < i → s.mine i = true →
      i ∈ s.added
  | _ => True

def NotNegative (s : ColumnRun) : Action → Prop
  | .removeEvents v => v < 0 → ∀ j ∈ s.added, s.mine j = false
  | _ => True

def SkippedBelow (s : ColumnRun) : Action → Prop
  | .append _ => True
  | .addEvent i => s.mine i = true → ∀ w ∈ s.valid, w ≤ i
  | .removeEvents v => ∀ i ∈ List.range s.allEvents.length, v ≤ i → s.mine i = true → i ∈ s.added

def Promised (s : ColumnRun) (a : Action) : Prop := NotNegative s a ∧ SkippedBelow s a

instance (s : ColumnRun) (a : Action) : Decidable (Complete s a) := by
  cases a <;> simp only [Complete] <;> infer_instance

instance (s : ColumnRun) (a : Action) : Decidable (NotNegative s a) := by
  cases a <;> simp only [NotNegative] <;> infer_instance

instance (s : ColumnRun) (a : Action) : Decidable (SkippedBelow s a) := by
  cases a <;> simp only [SkippedBelow] <;> infer_instance

instance (s : ColumnRun) (a : Action) : Decidable (Promised s a) := by
  unfold Promised
  infer_instance

structure Correct (s : ColumnRun) : Prop where
  inside : s.inside = true
  total : s.column.totalCount = s.liveAdded.length
  stored : s.stored = reference s.column.config.kind s.column.config.defaultValue s.liveAdded

section Selected
variable {p : TableEvent → Bool} {log : List TableEvent}

theorem eventAtAppend {i : Nat} (inside : i < log.length) (e : TableEvent) :
    eventAt (log ++ [e]) i = eventAt log i := by
  simp [eventAt,List.getD_eq_getElem?_getD,List.getElem?_append_left inside]

theorem eventAtEnd (e : TableEvent) : eventAt (log ++ [e]) log.length = e := by
  simp [eventAt,List.getD_eq_getElem?_getD]

theorem selectedIndices (o : Nat) : selected p log o =
    ((List.range log.length).filter (fun i : Nat => p (eventAt log i) && decide (o ≤ i))).map (fun i : Nat => eventAt log i) := by
  induction log using List.reverseRecOn with
  | nil => simp [selected]
  | append_singleton log e ih =>
      have before : (List.range log.length).filter (fun i : Nat => p (eventAt (log ++ [e]) i) && decide (o ≤ i)) =
          (List.range log.length).filter (fun i : Nat => p (eventAt log i) && decide (o ≤ i)) :=
        List.filter_congr (fun i inside => by rw [eventAtAppend (List.mem_range.mp inside)])
      have events : ∀ is : List Nat, (∀ i ∈ is, i < log.length) →
          is.map (fun i : Nat => eventAt (log ++ [e]) i) = is.map (fun i : Nat => eventAt log i) :=
        fun is inside => List.map_congr_left (fun i member => eventAtAppend (inside i member) e)
      rw [List.length_append,List.length_singleton,List.range_succ,List.filter_append,List.map_append,before,
        events _ (fun i member => List.mem_range.mp (List.mem_filter.mp member).1),← ih]
      by_cases order : o ≤ log.length
      · rw [selectedAppend p order]
        cases mine : p e <;> simp [eventAtEnd,mine,order]
      · rw [selectedEnd p (by simp; omega),selectedEnd p (by omega)]
        simp [order]

theorem addedSelected {added : List Nat} (sorted : added.Pairwise (· < ·)) (known : ∀ i ∈ added, i < log.length)
    {o : Nat} (all : ∀ i < log.length, o ≤ i → p (eventAt log i) = true → i ∈ added) :
    (added.filter (fun i : Nat => p (eventAt log i) && decide (o ≤ i))).map (fun i : Nat => eventAt log i) = selected p log o := by
  rw [selectedIndices]
  congr 1
  have nodup : added.Nodup := sorted.imp (fun less => Nat.ne_of_lt less)
  refine List.Perm.eq_of_pairwise (fun (a b : Nat) _ _ (less : a < b) (more : b < a) => by omega) (sorted.filter _)
    (List.pairwise_lt_range.filter _)
    ((List.perm_ext_iff_of_nodup (nodup.filter _) (List.nodup_range.filter _)).mpr (fun i => ?_))
  simp only [List.mem_filter,List.mem_range,Bool.and_eq_true,decide_eq_true_eq]
  constructor
  · rintro ⟨member,mine,order⟩
    exact ⟨known i member,mine,order⟩
  · rintro ⟨inside,mine,order⟩
    exact ⟨all i inside order mine,mine,order⟩

end Selected

/- Where the counted events are: the removal loop starts at `o`, and the group's events
from there on were all added up to some added `j`. -/
structure CountedFrom (s : ColumnRun) (o j : Nat) : Prop where
  oldest : s.column.oldestIndex = o
  valid : ∀ w ∈ s.valid, w ≤ o
  live : ∀ i ∈ s.added, s.isLive i = true → o ≤ i
  added : j ∈ s.added
  order : o ≤ j
  mine : s.mine j = true
  upTo : ∀ i < s.allEvents.length, o ≤ i → i ≤ j → s.mine i = true → i ∈ s.added

structure Tracking (s : ColumnRun) : Prop where
  sorted : s.added.Pairwise (· < ·)
  known : ∀ i ∈ s.added, i < s.allEvents.length
  counts : Counts s.column s.stored s.liveAdded
  counted : s.liveAdded ≠ [] → ∃ o j, CountedFrom s o j

theorem startTracking (kind preprocessorId columnId group storeSlot default) :
    Tracking (.start kind preprocessorId columnId group storeSlot default) where
  sorted := .nil
  known := by simp [ColumnRun.start]
  counts := tracksCounts (createTracks [] kind preprocessorId columnId group storeSlot default)
  counted some := by simp [ColumnRun.start,ColumnRun.liveAdded] at some

section Steps
variable {s : ColumnRun}

theorem appendMine {i : Nat} (inside : i < s.allEvents.length) (e : TableEvent) :
    (call s (.append e)).mine i = s.mine i := by
  simp only [ColumnRun.mine,call,eventAtAppend inside]

theorem appendIsLive {i : Nat} (inside : i < s.allEvents.length) (e : TableEvent) :
    (call s (.append e)).isLive i = s.isLive i := by
  rw [ColumnRun.isLive,ColumnRun.isLive,appendMine inside]
  rfl

theorem appendLive (known : ∀ i ∈ s.added, i < s.allEvents.length) (e : TableEvent) :
    (call s (.append e)).liveAdded = s.liveAdded := by
  have same : s.added.filter (call s (.append e)).isLive = s.added.filter s.isLive :=
    List.filter_congr (fun i member => appendIsLive (known i member) e)
  unfold ColumnRun.liveAdded
  rw [callAppendAdded,same]
  refine List.map_congr_left (fun i member => ?_)
  simp only [ColumnRun.valueAt,call,eventAtAppend (known i (List.mem_filter.mp member).1)]

theorem appendTracking (h : Tracking s) (e : TableEvent) : Tracking (call s (.append e)) where
  sorted := h.sorted
  known i member := by
    have inside := h.known i member
    simp only [call,List.length_append,List.length_singleton]
    omega
  counts := by
    rw [appendLive h.known]
    exact h.counts
  counted some := by
    rw [appendLive h.known] at some
    obtain ⟨o,j,c⟩ := h.counted some
    refine ⟨o,j,c.oldest,c.valid,fun i member live => c.live i member ?_,c.added,c.order,?_,fun i _ order le mine => ?_⟩
    · rwa [appendIsLive (h.known i member)] at live
    · rw [appendMine (h.known j c.added)]
      exact c.mine
    · have inside := Nat.lt_of_le_of_lt le (h.known j c.added)
      rw [appendMine inside] at mine
      exact c.upTo i inside order le mine

theorem addMine (i k : Nat) : (call s (.addEvent i)).mine k = s.mine k := by
  simp only [ColumnRun.mine,call,addEventConfig]

theorem removeMine (v : Int) (k : Nat) : (call s (.removeEvents v)).mine k = s.mine k := by
  simp only [ColumnRun.mine,call,removeEventsConfig]

theorem noneLive (none : s.liveAdded = []) : ∀ i ∈ s.added, s.isLive i = false := by
  intro i member
  by_contra live
  have inside : i ∈ s.added.filter s.isLive := List.mem_filter.mpr ⟨member,by simpa using live⟩
  rw [List.map_eq_nil_iff.mp none] at inside
  cases inside

theorem addLive {i : Nat} (passed : s.mine i = true → ∀ w ∈ s.valid, w ≤ i) :
    (call s (.addEvent i)).liveAdded = s.liveAdded ++ if s.mine i then [s.valueAt i] else [] := by
  have live : (call s (.addEvent i)).isLive = s.isLive := by
    funext k
    rw [ColumnRun.isLive,addMine]
    rfl
  have value : (call s (.addEvent i)).valueAt = s.valueAt := by
    funext k
    simp only [ColumnRun.valueAt,call,addEventConfig]
  unfold ColumnRun.liveAdded
  rw [live,value,callAddEventAdded,List.filter_append,List.map_append]
  cases mine : s.mine i with
  | false => simp [ColumnRun.isLive,mine]
  | true =>
      have here : s.isLive i = true := by
        rw [ColumnRun.isLive,mine,Bool.true_and,Option.all_eq_true]
        exact fun w found => decide_eq_true (passed mine w found)
      simp [here]

theorem addIsLive (i k : Nat) : (call s (.addEvent i)).isLive k = s.isLive k := by
  rw [ColumnRun.isLive,addMine]
  rfl

theorem addCounted {o j i : Nat} (c : CountedFrom s o j) (later : ∀ k ∈ s.added, k < i) :
    CountedFrom (call s (.addEvent i)) o j where
  oldest := by
    cases mine : s.mine i with
    | false =>
        simp only [call,addEventOther mine]
        exact c.oldest
    | true =>
        simp only [call,addEventOldest mine,c.oldest]
        split <;> omega
  valid := c.valid
  live k member live := by
    rw [addIsLive] at live
    rcases List.mem_append.mp member with old | new
    · exact c.live k old live
    · have less := later j c.added
      have order := c.order
      rw [List.mem_singleton.mp new]
      omega
  added := List.mem_append_left _ c.added
  order := c.order
  mine := by
    rw [addMine]
    exact c.mine
  upTo k inside order le mine := by
    rw [addMine] at mine
    exact List.mem_append_left _ (c.upTo k inside order le mine)

theorem addFirst {i : Nat} (fresh : s.column.oldestIndex = -1) (none : s.liveAdded = []) (mine : s.mine i = true)
    (passed : ∀ w ∈ s.valid, w ≤ i) : CountedFrom (call s (.addEvent i)) i i where
  oldest := by simp only [call,addEventOldest mine,fresh,if_true]
  valid := passed
  live k member live := by
    rw [addIsLive] at live
    rcases List.mem_append.mp member with old | new
    · rw [noneLive none k old] at live
      contradiction
    · exact (List.mem_singleton.mp new).ge
  added := List.mem_append_right _ (List.mem_singleton_self i)
  order := le_rfl
  mine := by rwa [addMine]
  upTo k _ order le _ := by
    rw [Nat.le_antisymm le order]
    exact List.mem_append_right _ (List.mem_singleton_self i)

theorem addTracking (h : Tracking s) {i : Nat} (ordered : Ordered s (.addEvent i)) (promised : Promised s (.addEvent i)) :
    Tracking (call s (.addEvent i)) := by
  obtain ⟨inside,later⟩ := ordered
  have live := addLive promised.2
  refine ⟨?_,?_,?_,?_⟩
  · exact List.pairwise_append.mpr ⟨h.sorted,List.pairwise_singleton _ _,fun j member k last =>
      (List.mem_singleton.mp last) ▸ later j member⟩
  · intro k member
    rcases List.mem_append.mp member with old | new
    · exact h.known k old
    · rw [List.mem_singleton.mp new]
      exact inside
  · rw [live]
    cases mine : s.mine i with
    | false =>
        simp only [Bool.false_eq_true,if_false,List.append_nil,call,addEventOther mine]
        exact h.counts
    | true => exact addCounts h.counts mine i
  · intro some
    by_cases none : s.liveAdded = []
    · have mine : s.mine i = true := by
        by_contra other
        simp [live,none,eq_false_of_ne_true other] at some
      exact ⟨i,i,addFirst (h.counts.oldest.mpr none) none mine (promised.2 mine)⟩
    · obtain ⟨o,j,c⟩ := h.counted none
      exact ⟨o,j,addCounted c later⟩

theorem removeLive (v : Int) : (call s (.removeEvents v)).liveAdded =
    (s.added.filter (fun i : Nat => s.mine i && decide (v ≤ i))).map s.valueAt := by
  unfold ColumnRun.liveAdded
  have live : (call s (.removeEvents v)).isLive = (fun i : Nat => s.mine i && decide (v ≤ i)) := by
    funext i
    rw [ColumnRun.isLive,removeMine]
    rfl
  have value : (call s (.removeEvents v)).valueAt = s.valueAt := by
    funext i
    simp only [ColumnRun.valueAt,call,removeEventsConfig]
  rw [live,value]
  rfl

theorem removeNone {v : Int} (ordered : ∀ w ∈ s.valid, w ≤ v) (none : s.liveAdded = []) :
    (call s (.removeEvents v)).liveAdded = [] := by
  rw [removeLive,List.map_eq_nil_iff,List.filter_eq_nil_iff]
  intro i member both
  have dead := noneLive none i member
  simp only [Bool.and_eq_true,decide_eq_true_eq] at both
  rw [ColumnRun.isLive,both.1,Bool.true_and,Option.all_eq_false] at dead
  obtain ⟨w,found,order⟩ := dead
  have le := ordered w found
  rw [decide_eq_false_iff_not] at order
  omega

theorem liveFrom {o : Nat} (h : Tracking s) (all : ∀ i < s.allEvents.length, o ≤ i → s.mine i = true → i ∈ s.added) :
    (s.added.filter (fun i : Nat => s.mine i && decide (o ≤ i))).map s.valueAt =
      (selected s.column.config.inGroup s.allEvents o).map s.column.config.valueOf := by
  rw [← addedSelected h.sorted h.known all,List.map_map]
  rfl

theorem liveCounted {o j : Nat} (c : CountedFrom s o j) :
    s.liveAdded = (s.added.filter (fun i : Nat => s.mine i && decide (o ≤ i))).map s.valueAt := by
  unfold ColumnRun.liveAdded
  refine congrArg (List.map s.valueAt) (List.filter_congr (fun i member => ?_))
  rw [Bool.eq_iff_iff]
  constructor
  · intro live
    have order := c.live i member live
    simp only [ColumnRun.isLive,Bool.and_eq_true] at live
    simp [live.1,order]
  · intro both
    simp only [Bool.and_eq_true,decide_eq_true_eq] at both
    rw [ColumnRun.isLive,both.1,Bool.true_and,Option.all_eq_true]
    intro w found
    have le := c.valid w found
    exact decide_eq_true (by omega)

theorem removeSettled (h : Tracking s) {o j v : Nat} (c : CountedFrom s o j) (used : s.liveAdded ≠ [])
    (ordered : Ordered s (.removeEvents v)) (complete : Complete s (.removeEvents v))
    (promised : Promised s (.removeEvents v)) :
    Settled s.column (call s (.removeEvents v)).liveAdded v (removeEvents s.column s.stored s.allEvents v) := by
  obtain ⟨later,inside⟩ := ordered
  by_cases order : o ≤ v
  · have all : ∀ i < s.allEvents.length, o ≤ i → s.mine i = true → i ∈ s.added := by
      intro i inside order mine
      by_cases le : i ≤ j
      · exact c.upTo i inside order le mine
      · exact complete j c.added c.mine i (List.mem_range.mpr inside) (by omega) mine
    have counted := (liveCounted c).trans (liveFrom h all)
    have tracks : Tracks s.allEvents s.column s.stored s.liveAdded :=
      ⟨h.counts.total,h.counts.stored,h.counts.sum,h.counts.oldest.mpr,fun _ =>
        ⟨o,c.oldest,by omega,counted⟩⟩
    have left : (call s (.removeEvents v)).liveAdded =
        (selected s.column.config.inGroup s.allEvents v).map s.column.config.valueOf := by
      rw [removeLive,← liveFrom h (fun i inside order mine => promised.2 i (List.mem_range.mpr inside) (by omega) mine)]
      simp only [Nat.cast_le]
    rw [left]
    exact removeSettles tracks used c.oldest order (by omega) counted
  · have same : (call s (.removeEvents v)).liveAdded = s.liveAdded := by
      rw [removeLive,liveCounted c]
      refine congrArg (List.map s.valueAt) (List.filter_congr (fun i member => ?_))
      cases mine : s.mine i with
      | false => rfl
      | true =>
          simp only [Bool.true_and,Nat.cast_le,decide_eq_decide]
          refine ⟨fun below => c.live i member ?_,fun above => by omega⟩
          rw [ColumnRun.isLive,mine,Bool.true_and,Option.all_eq_true]
          intro w found
          have le := later w found
          exact decide_eq_true (by omega)
    rw [same]
    exact removeBelowSettles h.counts used c.oldest (by omega)

def Extreme (kind : ColumnKind) : Prop := kind = .min ∨ kind = .max

theorem removeInside (h : Tracking s) {v : Int} (ordered : Ordered s (.removeEvents v))
    (filled : Extreme s.column.config.kind ∨ v < 0 ∨ s.column.oldestIndex ≠ -1) :
    ∀ i ∈ removeReads s.column s.stored s.allEvents v, 0 ≤ i ∧ i < s.allEvents.length := by
  have between (simple : ¬ Extreme s.column.config.kind) : ∀ i ∈ indices s.column.oldestIndex v,
      0 ≤ i ∧ i < s.allEvents.length := by
    intro i member
    obtain ⟨low,high⟩ := indicesMem member
    have inside := ordered.2
    by_cases none : s.liveAdded = []
    · have fresh := h.counts.oldest.mpr none
      rcases filled with extreme | negative | used
      · exact absurd extreme simple
      · omega
      · exact absurd fresh used
    · obtain ⟨o,_,c⟩ := h.counted none
      have start := c.oldest
      omega
  unfold removeReads
  cases kind : s.column.config.kind with
  | min => exact extremeReadsInside _ _ _ _ _ _ _
  | max => exact extremeReadsInside _ _ _ _ _ _ _
  | sum => exact between (by simp [Extreme,kind])
  | count => exact between (by simp [Extreme,kind])
  | average => exact between (by simp [Extreme,kind])

theorem removeOutside {v : Int} (simple : ¬ Extreme s.column.config.kind) (fresh : s.column.oldestIndex = -1)
    (above : 0 ≤ v) : -1 ∈ removeReads s.column s.stored s.allEvents v := by
  have first : -1 ∈ indices s.column.oldestIndex v := by
    rw [fresh,indicesStep (by omega)]
    exact List.mem_cons_self
  unfold removeReads
  cases kind : s.column.config.kind <;> first | exact first | simp [Extreme,kind] at simple

theorem removeEmpty (h : Tracking s) {v : Int} (none : s.liveAdded = [])
    (filled : Extreme s.column.config.kind ∨ v < 0 ∨ s.column.oldestIndex ≠ -1) :
    Counts (call s (.removeEvents v)).column (call s (.removeEvents v)).stored [] := by
  have fresh := h.counts.oldest.mpr none
  have counts := h.counts
  rw [none] at counts
  have tracks : Tracks s.allEvents s.column s.stored [] :=
    ⟨counts.total,counts.stored,counts.sum,fun _ => fresh,fun used => absurd rfl used⟩
  refine tracksCounts (removeEmptyTracks tracks ?_)
  rcases filled with extreme | negative | used
  · exact .inr extreme
  · exact .inl negative
  · exact absurd fresh used

theorem removeCounted {v : Nat} (settled : Settled s.column
    (call s (.removeEvents v)).liveAdded v (removeEvents s.column s.stored s.allEvents v))
    (promised : Promised s (.removeEvents v)) (some : (call s (.removeEvents v)).liveAdded ≠ []) :
    ∃ k, CountedFrom (call s (.removeEvents v)) v k := by
  obtain ⟨k,member,both⟩ : ∃ k ∈ s.added, (s.mine k && decide ((v : Int) ≤ k)) = true := by
    by_contra none
    push Not at none
    rw [removeLive] at some
    exact some (by rw [List.map_eq_nil_iff,List.filter_eq_nil_iff]; exact none)
  simp only [Bool.and_eq_true,decide_eq_true_eq,Nat.cast_le] at both
  refine ⟨k,?_,?_,?_,member,both.2,?_,?_⟩
  · have oldest := settled.oldest
    rw [if_neg some] at oldest
    exact oldest
  · intro w found
    cases found
    exact le_rfl
  · intro i _ live
    rw [ColumnRun.isLive,Bool.and_eq_true,Option.all_eq_true] at live
    exact_mod_cast of_decide_eq_true (live.2 v rfl)
  · rw [removeMine]
    exact both.1
  · intro i inside order _ mine
    rw [removeMine] at mine
    exact promised.2 i (List.mem_range.mpr inside) (by exact_mod_cast order) mine

theorem removeTracking (h : Tracking s) {v : Int} (ordered : Ordered s (.removeEvents v))
    (complete : Complete s (.removeEvents v)) (promised : Promised s (.removeEvents v))
    (filled : Extreme s.column.config.kind ∨ v < 0 ∨ s.column.oldestIndex ≠ -1) :
    Tracking (call s (.removeEvents v)) := by
  by_cases none : s.liveAdded = []
  · have left := removeNone ordered.1 none
    refine ⟨h.sorted,h.known,?_,fun some => absurd left some⟩
    rw [left]
    exact removeEmpty h none filled
  · obtain ⟨o,j,c⟩ := h.counted none
    have index : 0 ≤ v := by
      by_contra negative
      have other := promised.1 (by omega) j c.added
      rw [c.mine] at other
      contradiction
    obtain ⟨n,rfl⟩ := Int.eq_ofNat_of_zero_le index
    have settled := removeSettled h c none ordered complete promised
    exact ⟨h.sorted,h.known,settledCounts settled,fun some => ⟨n,removeCounted settled promised some⟩⟩

end Steps

section Runs

def Filled (s : ColumnRun) : Action → Prop
  | .removeEvents v => v < 0 ∨ s.column.oldestIndex ≠ -1
  | _ => True

instance (s : ColumnRun) (a : Action) : Decidable (Filled s a) := by
  cases a <;> simp only [Filled] <;> infer_instance

theorem callKind (s : ColumnRun) (a : Action) : (call s a).column.config.kind = s.column.config.kind := by
  cases a with
  | append e => rfl
  | addEvent i => simp only [call,addEventConfig]
  | removeEvents v => simp only [call,removeEventsConfig]

theorem callTracking {s : ColumnRun} {a : Action} (h : Tracking s) (inside : s.inside = true) (ordered : Ordered s a)
    (complete : Complete s a) (promised : Promised s a) (filled : Extreme s.column.config.kind ∨ Filled s a) :
    Tracking (call s a) ∧ (call s a).inside = true := by
  cases a with
  | append e => exact ⟨appendTracking h e,inside⟩
  | addEvent i => exact ⟨addTracking h ordered promised,inside⟩
  | removeEvents v =>
      refine ⟨removeTracking h ordered complete promised filled,?_⟩
      simp only [call,inside,Bool.true_and,List.all_eq_true,decide_eq_true_eq]
      exact removeInside h ordered filled

theorem trackingCorrect {s : ColumnRun} (h : Tracking s) (inside : s.inside = true) : Correct s :=
  ⟨inside,h.counts.total,h.counts.stored⟩

structure Tracked (s : ColumnRun) : Prop where
  simple : ¬ Extreme s.column.config.kind
  tracking : s.inside = true → Tracking s

theorem stepTracked {s next : ColumnRun} {a : Action} (h : Tracked s) (good : Correct s)
    (within : Complete s a ∧ Promised s a) (taken : step s a = some next) :
    Tracked next ∧ (Correct next ↔ Filled s a) := by
  unfold step at taken
  split at taken <;> try contradiction
  rename_i ordered
  cases taken
  have simple : ¬ Extreme (call s a).column.config.kind := by
    rw [callKind]
    exact h.simple
  by_cases filled : Filled s a
  · obtain ⟨tracking,inside⟩ := callTracking (h.tracking good.inside) good.inside ordered within.1 within.2 (.inr filled)
    exact ⟨⟨simple,fun _ => tracking⟩,iff_of_true (trackingCorrect tracking inside) filled⟩
  · have outside : (call s a).inside = false := by
      cases a with
      | append e => exact absurd trivial filled
      | addEvent i => exact absurd trivial filled
      | removeEvents v =>
          simp only [Filled,not_or,not_lt,not_not] at filled
          simp only [call,Bool.and_eq_false_iff,List.all_eq_false]
          exact .inr ⟨-1,removeOutside h.simple filled.2 filled.1,by simp⟩
    refine ⟨⟨simple,fun inside => ?_⟩,iff_of_false (fun correct => ?_) filled⟩
    · rw [outside] at inside
      contradiction
    · rw [correct.inside] at outside
      contradiction

variable {kind : ColumnKind} {preprocessorId columnId storeSlot : Nat} {group : String} {default : Int}

/- In runs as a window makes them, a Sum, Count or Average column stays correct exactly if
it is never asked to remove events while it is empty. -/
theorem aggregatesIff (simple : ¬ Extreme kind) {actions : List Action} {final : ColumnRun}
    (window : Guarded step (fun s a => Complete s a ∧ Promised s a)
      (.start kind preprocessorId columnId group storeSlot default) actions)
    (ok : run step (.start kind preprocessorId columnId group storeSlot default) actions = some final) :
    Always step Correct (.start kind preprocessorId columnId group storeSlot default) actions ↔
      Guarded step Filled (.start kind preprocessorId columnId group storeSlot default) actions := by
  have tracking := startTracking kind preprocessorId columnId group storeSlot default
  exact alwaysIffGuardedWithin (fun _ _ _ => stepTracked) ⟨simple,fun _ => tracking⟩ (trackingCorrect tracking rfl)
    window ok

theorem extremesHold (extreme : Extreme kind) {actions : List Action}
    (window : Guarded step (fun s a => Complete s a ∧ Promised s a)
      (.start kind preprocessorId columnId group storeSlot default) actions) :
    Always step Correct (.start kind preprocessorId columnId group storeSlot default) actions := by
  have tracking := startTracking kind preprocessorId columnId group storeSlot default
  refine @guardedAlways _ _ _ (fun s => Extreme s.column.config.kind ∧ Tracking s ∧ s.inside = true) _ _
    (fun s h => trackingCorrect h.2.1 h.2.2) (fun s a next h within taken => ?_) _ _ ⟨extreme,tracking,rfl⟩ window
  unfold step at taken
  split at taken <;> try contradiction
  rename_i ordered
  cases taken
  rw [callKind]
  exact ⟨h.1,callTracking h.2.1 h.2.2 ordered within.1 within.2 (.inl h.1)⟩

end Runs

section Amounts

def annOrder (amount : String) : TableEvent := ⟨["ann+"],0,[amount,"ann"]⟩

def annColumn (kind : ColumnKind) : ColumnRun := .start kind 0 0 "ann+" 0 0

def ordersThenExpiry : List Action :=
  [.append (annOrder "5"),.addEvent 0,.append (annOrder "3"),.addEvent 1,.append (annOrder "8"),.addEvent 2,.removeEvents 1]

theorem ordersInWindow (kind : ColumnKind) :
    Guarded step (fun s a => Complete s a ∧ Promised s a) (annColumn kind) ordersThenExpiry := by
  cases kind <;> decide +kernel

theorem averageOfOrders : ∃ final, run step (annColumn .average) ordersThenExpiry = some final ∧ final.stored = 5 ∧
    Always step Correct (annColumn .average) ordersThenExpiry := by
  have stored : (run step (annColumn .average) ordersThenExpiry).map ColumnRun.stored = some 5 := by decide +kernel
  obtain ⟨final,ran,five⟩ := Option.map_eq_some_iff.mp stored
  have filled : Guarded step Filled (annColumn .average) ordersThenExpiry := by decide +kernel
  exact ⟨final,ran,five,(aggregatesIff (by simp [Extreme]) (ordersInWindow .average) ran).mpr filled⟩

theorem emptyColumnReadsOutside : ¬ ∀ (kind : ColumnKind) (preprocessorId columnId storeSlot : Nat) (group : String)
    (default : Int) (actions : List Action) (final : ColumnRun), ¬ Extreme kind →
    Guarded step (fun s a => Complete s a ∧ Promised s a)
      (.start kind preprocessorId columnId group storeSlot default) actions →
    run step (.start kind preprocessorId columnId group storeSlot default) actions = some final →
      Always step Correct (.start kind preprocessorId columnId group storeSlot default) actions := by
  intro claim
  have runs : (run step (annColumn .sum) [.append (annOrder "5"),.addEvent 0,.removeEvents 1,.removeEvents 1]).map
      ColumnRun.inside = some false := by decide +kernel
  obtain ⟨final,ran,outside⟩ := Option.map_eq_some_iff.mp runs
  have always := claim .sum 0 0 0 "ann+" 0 _ final (by simp [Extreme]) (by decide +kernel) ran
  have good := alwaysEnd always ran
  rw [good.inside] at outside
  contradiction

theorem minOfOrders : Always step Correct (annColumn .min) ordersThenExpiry :=
  extremesHold (.inl rfl) (ordersInWindow .min)

def liveEvents (s : ColumnRun) : List Int := ((List.range s.allEvents.length).filter s.isLive).map s.valueAt

/- After a removal the column is right about all these events. -/
def AllCounted (scope : ColumnRun → Action → Prop) : Prop :=
  ∀ (kind : ColumnKind) (preprocessorId columnId storeSlot : Nat) (group : String) (default : Int)
    (actions : List Action) (v : Int) (final : ColumnRun), Extreme kind →
    Guarded step (fun s a => Complete s a ∧ scope s a)
      (.start kind preprocessorId columnId group storeSlot default) (actions ++ [.removeEvents v]) →
    run step (.start kind preprocessorId columnId group storeSlot default) (actions ++ [.removeEvents v]) = some final →
      final.stored = reference kind default (liveEvents final)

theorem stepBelow {s : ColumnRun} {v : Int} (some : s.column.totalCount ≠ 0) (min : s.column.config.kind = .min)
    (below : v ≤ s.column.oldestIndex) (ordered : Ordered s (.removeEvents v)) : ∃ inside,
    step s (.removeEvents v) = .some {s with column.oldestIndex := v, valid := .some v, inside := inside} := by
  rw [step,if_pos ordered]
  simp only [call,removeBelow some (by simp [min]) below]
  exact ⟨_,rfl⟩

theorem countedBefore {scope : ColumnRun → Action → Prop} (claim : AllCounted scope) {actions : List Action}
    {s : ColumnRun} {v : Int} (ran : run step (annColumn .min) actions = some s) (some : s.column.totalCount ≠ 0)
    (min : s.column.config.kind = .min) (below : v ≤ s.column.oldestIndex) (ordered : Ordered s (.removeEvents v))
    (within : Guarded step (fun s a => Complete s a ∧ scope s a) (annColumn .min) (actions ++ [.removeEvents v])) :
    s.stored = reference .min 0 (liveEvents {s with valid := .some v}) := by
  obtain ⟨inside,last⟩ := stepBelow some min below ordered
  exact claim .min 0 0 0 "ann+" 0 actions v _ (.inl rfl) within
    ((runAppend step).mpr ⟨s,ran,(runCons step).mpr ⟨_,last,rfl⟩⟩)

def minConfig : ColumnConfig Int := ⟨.min,0,0,"ann+",0,0⟩

theorem skippedOrderMissed : ¬ AllCounted NotNegative := by
  intro claim
  have before : run step (annColumn .min) [.append (annOrder "5"),.append (annOrder "7"),.addEvent 1] =
      some ⟨[annOrder "5",annOrder "7"],⟨minConfig,1,1,0⟩,7,[1],none,true⟩ := by decide +kernel
  have seven := countedBefore claim before (by decide) rfl (by decide : (0 : Int) ≤ 1) (by decide) (by decide +kernel)
  have live : liveEvents ⟨[annOrder "5",annOrder "7"],⟨minConfig,1,1,0⟩,7,[1],some 0,true⟩ = [5,7] := by decide +kernel
  rw [live] at seven
  contradiction

theorem countedOrderLost : ¬ AllCounted SkippedBelow := by
  intro claim
  let one : ColumnRun := ⟨[annOrder "5"],⟨minConfig,1,0,0⟩,5,[0],none,true⟩
  have first : run step (annColumn .min) [.append (annOrder "5"),.addEvent 0] = some one := by decide +kernel
  obtain ⟨inside,lowered⟩ := @stepBelow one (-1) (by decide) rfl (by decide) (by decide)
  let marked : ColumnRun := ⟨[annOrder "5"],⟨minConfig,1,-1,0⟩,5,[0],some (-1),inside⟩
  let two : ColumnRun := ⟨[annOrder "5",annOrder "7"],⟨minConfig,2,1,0⟩,7,[0,1],some (-1),inside⟩
  have reached : run step (annColumn .min) ([.append (annOrder "5"),.addEvent 0] ++ [.removeEvents (-1)]) = some marked :=
    (runAppend step).mpr ⟨_,first,(runCons step).mpr ⟨_,lowered,rfl⟩⟩
  have next : run step marked [.append (annOrder "7"),.addEvent 1] = some two := by
    cases inside <;> decide +kernel
  have within : Guarded step (fun s a => Complete s a ∧ SkippedBelow s a) marked
      ([.append (annOrder "7"),.addEvent 1] ++ [.removeEvents 0]) := by
    cases inside <;> decide +kernel
  have seven := countedBefore claim ((runAppend step).mpr ⟨_,reached,next⟩) (by decide : (2 : Int) ≠ 0) rfl
    (by decide : (0 : Int) ≤ 1) (by cases inside <;> decide) (by
      rw [List.append_assoc]
      exact guardedAppend (by decide +kernel) reached within)
  have live : liveEvents {two with valid := some 0} = [5,7] := by
    cases inside <;> decide +kernel
  have wrong : 7 = reference .min 0 [5,7] := live ▸ seven
  contradiction

theorem promisesNeeded : ¬ AllCounted NotNegative ∧ ¬ AllCounted SkippedBelow :=
  ⟨skippedOrderMissed,countedOrderLost⟩

end Amounts
end NimbleNet.ColumnRuns
