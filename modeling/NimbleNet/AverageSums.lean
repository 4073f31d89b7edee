import NimbleNet.ColumnRuns
import NimbleNet.WrappedSums

/-! An Avg column over w-bit integers, int32_t and int64_t among them, under any calls of
add_event and remove_events. Recorded are the indices of the events that are in its sum. -/
namespace NimbleNet.AverageSums
open AggregateColumn ColumnTracking ColumnRuns StepRuns WrappedSums

def readBounded (w : Nat) (s : String) : BitVec w :=
  BitVec.ofInt w (max (-2 ^ (w - 1)) (min (2 ^ (w - 1) - 1) (leadingInt s.toList)))

theorem readExact {w : Nat} (positive : 0 < w) {s : String} (inside : InRange w (leadingInt s.toList)) :
    (readBounded w s).toInt = leadingInt s.toList := by
  have upper : min (2 ^ (w - 1) - 1) (leadingInt s.toList) = leadingInt s.toList := min_eq_right (by linarith [inside.2])
  rw [readBounded,upper,max_eq_right inside.1]
  exact (wrappedSame positive).mpr inside

/- A w-bit integer type. Sums and differences wrap; the quotient of a sum and an int count is
computed in the wider of the two types. -/
instance (w : Nat) : Scalar (BitVec w) where
  max x y := if x.slt y then y else x
  min x y := if y.slt x then y else x
  zero := 0#w
  one := 1#w
  decEq := inferInstance
  getAs := readBounded w
  divCount sum total := BitVec.ofInt w (sum.toInt.tdiv total)
  ofJson j := (if w = 64 then j.getInt64 else j.getInt32).map (BitVec.ofInt w)

structure AverageRun (w : Nat) where
  allEvents : List TableEvent
  column : Column (BitVec w)
  stored : BitVec w
  counted : List Nat

section Model
variable {w : Nat}

namespace AverageRun

def start (preprocessorId columnId : Nat) (group : String) (storeSlot : Nat) (stored : BitVec w) : AverageRun w :=
  ⟨[],create .average preprocessorId columnId group storeSlot stored,stored,[]⟩

def mine (s : AverageRun w) (i : Int) : Bool := s.column.config.inGroup (eventAt s.allEvents i)

def valueAt (s : AverageRun w) (i : Int) : Int := (s.column.config.valueOf (eventAt s.allEvents i)).toInt

def values (s : AverageRun w) : List Int := s.counted.map (fun i : Nat => s.valueAt i)

def subtracted (s : AverageRun w) (oldestValidIndex : Int) : List Nat :=
  ((indices s.column.oldestIndex oldestValidIndex).filter s.mine).map Int.toNat

end AverageRun

def step (s : AverageRun w) : Action → Option (AverageRun w)
  | .append e => some {s with allEvents := s.allEvents ++ [e]}
  | .addEvent i =>
      if i < s.allEvents.length then
        let (column,stored) := addEvent s.column s.stored (eventAt s.allEvents i) i
        some {s with column := column, stored := stored, counted := if s.mine i then s.counted ++ [i] else s.counted}
      else none
  | .removeEvents v =>
      if readsInside s.column s.allEvents.length v then
        let (column,stored) := removeEvents s.column s.stored s.allEvents v
        some {s with column := column, stored := stored, counted := s.counted.diff (s.subtracted v)}
      else none

def Mean (s : AverageRun w) : Prop :=
  s.values ≠ [] → s.stored.toInt = s.values.sum.tdiv s.values.length ∧
    (∃ x ∈ s.values, x ≤ s.stored.toInt) ∧ (∃ y ∈ s.values, s.stored.toInt ≤ y)

def MeanAfterAdd (s : AverageRun w) (a : Action) : Prop :=
  match a with
  | .addEvent _ => ∀ next, step s a = some next → Mean next
  | _ => True

def Tracked (s : AverageRun w) : Action → Prop
  | .append _ => True
  | .addEvent i => i < s.allEvents.length ∧ s.counted.length + 1 < 2 ^ 31
  | .removeEvents v => ∀ i ∈ s.subtracted v, i ∈ s.counted

def SumFits (s : AverageRun w) : Action → Prop
  | .addEvent i => InRange w (s.values.sum + if s.mine i then s.valueAt i else 0)
  | _ => True

instance (s : AverageRun w) : (a : Action) → Decidable (Tracked s a)
  | .append _ => isTrue trivial
  | .addEvent i => inferInstanceAs (Decidable (i < s.allEvents.length ∧ s.counted.length + 1 < 2 ^ 31))
  | .removeEvents v => inferInstanceAs (Decidable (∀ i ∈ s.subtracted v, i ∈ s.counted))

instance (s : AverageRun w) : (a : Action) → Decidable (SumFits s a)
  | .addEvent i => inferInstanceAs (Decidable (InRange w (s.values.sum + if s.mine i then s.valueAt i else 0)))
  | .append _ => isTrue trivial
  | .removeEvents _ => isTrue trivial

structure Summed (s : AverageRun w) : Prop where
  kind : s.column.config.kind = .average
  inside : ∀ i ∈ s.counted, i < s.allEvents.length
  total : s.column.totalCount = s.counted.length
  sum : s.column.sum = BitVec.ofInt w s.values.sum
  stored : s.counted ≠ [] → s.stored = BitVec.ofInt w (s.column.sum.toInt.tdiv s.counted.length)

theorem meanBetween {values : List Int} (some : values ≠ []) :
    (∃ x ∈ values, x ≤ values.sum.tdiv values.length) ∧ (∃ y ∈ values, values.sum.tdiv values.length ≤ y) := by
  have count : 0 < (values.length : Int) := Int.natCast_pos.mpr (List.length_pos_iff.mpr some)
  constructor
  · by_contra above
    push Not at above
    have total := List.card_nsmul_le_sum values (values.sum.tdiv values.length + 1) (fun x inside => above x inside)
    have quotient := Int.tdiv_le_tdiv count total
    rw [nsmul_eq_mul,Int.mul_tdiv_cancel_left _ count.ne'] at quotient
    omega
  · by_contra below
    push Not at below
    have total := List.sum_le_card_nsmul values (values.sum.tdiv values.length - 1) (fun x inside =>
      Int.le_sub_one_of_lt (below x inside))
    have quotient := Int.tdiv_le_tdiv count total
    rw [nsmul_eq_mul,Int.mul_tdiv_cancel_left _ count.ne'] at quotient
    omega

theorem averageRetires (log : List TableEvent) (range : List Int) (col : Column (BitVec w)) (stored : BitVec w) :
    retireWith AverageColumn.retire log range (col,stored) =
      ({col with
        totalCount := col.totalCount - (range.filter (fun i => col.config.inGroup (eventAt log i))).length,
        sum := col.sum - BitVec.ofInt w
          ((range.filter (fun i => col.config.inGroup (eventAt log i))).map (fun i => (col.config.valueOf (eventAt log i)).toInt)).sum},
        stored) := by
  induction range generalizing col stored with
  | nil => simp [retireWith]
  | cons i rest ih =>
      unfold retireWith at ih ⊢
      rw [List.foldl_cons,List.filter_cons]
      simp only
      split
      · rw [AverageColumn.retire,ih]
        simp only [List.length_cons,List.map_cons,List.sum_cons,BitVec.ofInt_add,BitVec.ofInt_toInt,Prod.mk.injEq,Column.mk.injEq]
        push_cast
        refine ⟨⟨trivial,by ring,trivial,?_⟩,trivial⟩
        exact sub_sub ..
      · rw [ih]

theorem appendSummed {s : AverageRun w} (h : Summed s) (e : TableEvent) : Summed {s with allEvents := s.allEvents ++ [e]} := by
  have kept : AverageRun.values {s with allEvents := s.allEvents ++ [e]} = s.values := by
    refine List.map_congr_left (fun i member => ?_)
    have inside := h.inside i member
    simp only [AverageRun.valueAt,eventAt,Int.toNat_natCast,List.getD_eq_getElem?_getD]
    rw [List.getElem?_append_left inside]
  refine ⟨h.kind,fun i member => ?_,h.total,?_,h.stored⟩
  · have := h.inside i member
    simp only [List.length_append]
    omega
  · rw [kept]
    exact h.sum

theorem addSummed {s next : AverageRun w} (h : Summed s) {i : Nat} (taken : step s (.addEvent i) = some next) :
    Summed next ∧ next.values = s.values ++ if s.mine i then [s.valueAt i] else [] := by
  have average : addEvent s.column s.stored (eventAt s.allEvents i) i =
      AverageColumn.addEvent s.column s.stored (eventAt s.allEvents i) i := by simp only [addEvent,h.kind]
  simp only [step,average,AverageColumn.addEvent] at taken
  split at taken
  · rename_i inside
    cases mine : s.mine i with
    | false =>
        have other : s.column.config.inGroup (eventAt s.allEvents i) = false := mine
        simp only [mine,other,Bool.false_eq_true,if_false,Option.some.injEq] at taken
        subst taken
        exact ⟨h,(List.append_nil _).symm⟩
    | true =>
        have here : s.column.config.inGroup (eventAt s.allEvents i) = true := mine
        simp only [mine,here,if_true,Option.some.injEq] at taken
        have added : next.values = s.values ++ [s.valueAt i] := by
          rw [← taken]
          exact List.map_append
        refine ⟨?_,added⟩
        subst taken
        refine ⟨h.kind,fun j member => ?_,?_,?_,fun _ => ?_⟩
        · rcases List.mem_append.mp member with old | new
          · exact h.inside j old
          · rw [List.mem_singleton.mp new]
            exact inside
        · show s.column.totalCount + 1 = ((s.counted ++ [i]).length : Int)
          rw [h.total,List.length_append]
          rfl
        · rw [added,List.sum_append,List.sum_singleton,BitVec.ofInt_add,← h.sum,AverageRun.valueAt,BitVec.ofInt_toInt]
        · show BitVec.ofInt w _ = BitVec.ofInt w _
          rw [h.total,List.length_append]
          rfl
  · contradiction

theorem subtractedPerm {s : AverageRun w} {v : Int} (reads : ∀ i ∈ indices s.column.oldestIndex v, 0 ≤ i)
    (tracked : ∀ i ∈ s.subtracted v, i ∈ s.counted) : (s.subtracted v ++ s.counted.diff (s.subtracted v)).Perm s.counted := by
  have apart : (indices s.column.oldestIndex v).Nodup := List.nodup_range.map (fun a b same => by
    have : s.column.oldestIndex + (a : Int) = s.column.oldestIndex + b := same
    omega)
  have once : (s.subtracted v).Nodup := (apart.filter _).map_on (fun i here j there same => by
    have := reads i (List.mem_of_mem_filter here)
    have := reads j (List.mem_of_mem_filter there)
    omega)
  exact List.subperm_append_diff_self_of_count_le (List.subperm_ext_iff.mp (once.subperm tracked))

theorem removeSummed {s next : AverageRun w} (h : Summed s) {v : Int} (tracked : Tracked s (.removeEvents v))
    (taken : step s (.removeEvents v) = some next) : Summed next := by
  have average : removeEvents s.column s.stored s.allEvents v = AverageColumn.removeEvents s.column s.stored s.allEvents v := by
    simp only [removeEvents,h.kind]
  simp only [step,average,AverageColumn.removeEvents,removeWith,averageRetires] at taken
  split at taken
  · rename_i reads
    have inside : ∀ i ∈ indices s.column.oldestIndex v, 0 ≤ i ∧ i < s.allEvents.length := by
      rcases reads with kind | kind | inside
      · rw [h.kind] at kind
        contradiction
      · rw [h.kind] at kind
        contradiction
      · exact inside
    have parts := subtractedPerm (fun i member => (inside i member).1) tracked
    -- the loop subtracts the values of these events
    have values : ((indices s.column.oldestIndex v).filter s.mine).map s.valueAt = (s.subtracted v).map (fun i : Nat => s.valueAt i) := by
      rw [AverageRun.subtracted,List.map_map]
      refine List.map_congr_left (fun i _ => ?_)
      simp only [AverageRun.valueAt,eventAt,Function.comp_apply,Int.toNat_natCast]
    have lengths : (s.counted.length : Int) = ((indices s.column.oldestIndex v).filter s.mine).length + (s.counted.diff (s.subtracted v)).length := by
      rw [← parts.length_eq,List.length_append,AverageRun.subtracted,List.length_map]
      push_cast
      rfl
    have sums : s.values.sum = (((indices s.column.oldestIndex v).filter s.mine).map s.valueAt).sum +
        ((s.counted.diff (s.subtracted v)).map (fun i : Nat => s.valueAt i)).sum := by
      rw [values,← List.sum_append,← List.map_append]
      exact (parts.map _).sum_eq.symm
    have count : s.column.totalCount - ((indices s.column.oldestIndex v).filter (fun i => s.column.config.inGroup (eventAt s.allEvents i))).length =
        (s.counted.diff (s.subtracted v)).length := by
      show s.column.totalCount - ((indices s.column.oldestIndex v).filter s.mine).length = _
      rw [h.total,lengths,add_sub_cancel_left]
    have total : s.column.sum - BitVec.ofInt w (((indices s.column.oldestIndex v).filter (fun i =>
          s.column.config.inGroup (eventAt s.allEvents i))).map (fun i => (s.column.config.valueOf (eventAt s.allEvents i)).toInt)).sum =
        BitVec.ofInt w ((s.counted.diff (s.subtracted v)).map (fun i : Nat => s.valueAt i)).sum := by
      show s.column.sum - BitVec.ofInt w (((indices s.column.oldestIndex v).filter s.mine).map s.valueAt).sum = _
      rw [h.sum,sums,BitVec.ofInt_add]
      exact add_sub_cancel_left _ _
    have known : ∀ i ∈ s.counted.diff (s.subtracted v), i < s.allEvents.length := fun i member =>
      h.inside i (List.diff_subset _ _ member)
    rw [count,total] at taken
    split at taken
    · rename_i empty
      cases taken
      have none : s.counted.diff (s.subtracted v) = [] := List.length_eq_zero_iff.mp (by omega)
      refine ⟨h.kind,known,rfl,?_,fun some => absurd none some⟩
      show (0 : BitVec w) = BitVec.ofInt w ((s.counted.diff (s.subtracted v)).map _).sum
      rw [none]
      rfl
    · cases taken
      exact ⟨h.kind,known,rfl,rfl,fun _ => rfl⟩
  · contradiction

theorem stepSummed {s next : AverageRun w} (h : Summed s) {a : Action} (tracked : Tracked s a) (taken : step s a = some next) :
    Summed next := by
  cases a with
  | append e =>
      cases taken
      exact appendSummed h e
  | addEvent i => exact (addSummed h taken).1
  | removeEvents v => exact removeSummed h tracked taken

theorem meanIff (wide : 32 ≤ w) {s : AverageRun w} (h : Summed s) (few : s.counted.length < 2 ^ 31) :
    Mean s ↔ InRange w s.values.sum := by
  have same : s.values.length = s.counted.length := List.length_map _
  by_cases none : s.counted = []
  · have empty : s.values = [] := List.map_eq_nil_iff.mpr none
    refine iff_of_true (fun some => absurd empty some) ?_
    rw [empty]
    exact ⟨by simp,by simp⟩
  · have some : 0 < s.values.length := by
      rw [same]
      exact List.length_pos_iff.mpr none
    have power : 2 ^ 32 ≤ 2 ^ w := Nat.pow_le_pow_right (by decide) wide
    have quotient : s.stored.toInt = (BitVec.ofInt w s.values.sum).toInt.tdiv s.values.length := by
      rw [h.stored none,h.sum,← same]
      exact (wrappedSame (by omega)).mpr (quotientInRange (wrappedInRange _))
    rw [← quotientIff some (by omega) (by omega),← quotient]
    constructor
    · exact fun mean => (mean (List.length_pos_iff.mp some)).1
    · intro mean _
      rw [mean]
      exact ⟨rfl,meanBetween (List.length_pos_iff.mp some)⟩

theorem meanAfterIff (wide : 32 ≤ w) {s : AverageRun w} (h : Summed s) {i : Nat} (tracked : Tracked s (.addEvent i)) :
    MeanAfterAdd s (.addEvent i) ↔ SumFits s (.addEvent i) := by
  obtain ⟨inside,few⟩ := tracked
  obtain ⟨next,taken⟩ : ∃ next, step s (.addEvent i) = some next := ⟨_,if_pos inside⟩
  obtain ⟨summed,values⟩ := addSummed h taken
  have total : next.values.sum = s.values.sum + if s.mine i then s.valueAt i else 0 := by
    rw [values,List.sum_append]
    split <;> simp
  have count : next.counted.length < 2 ^ 31 := by
    have lengths := congrArg List.length values
    rw [AverageRun.values,AverageRun.values,List.length_append,List.length_map,List.length_map] at lengths
    split at lengths <;> simp only [List.length_singleton,List.length_nil] at lengths <;> omega
  rw [SumFits,← total,← meanIff wide summed count]
  constructor
  · exact fun after => after next taken
  · intro mean other same
    cases taken.symm.trans same
    exact mean

theorem startSummed (preprocessorId columnId : Nat) (group : String) (storeSlot : Nat) (stored : BitVec w) :
    Summed (AverageRun.start preprocessorId columnId group storeSlot stored) :=
  ⟨rfl,fun _ member => absurd member List.not_mem_nil,rfl,rfl,fun some => absurd rfl some⟩

end Model

/- Where only counted events are subtracted, every mean of a run is right if and only if every
exact sum is a w-bit integer when an event is added. -/
theorem meansIffSumsFit {w : Nat} (wide : 32 ≤ w) (preprocessorId columnId : Nat) (group : String) (storeSlot : Nat)
    (stored : BitVec w) {actions : List Action}
    (tracked : Guarded step Tracked (AverageRun.start preprocessorId columnId group storeSlot stored) actions) :
    Guarded step MeanAfterAdd (AverageRun.start preprocessorId columnId group storeSlot stored) actions ↔
      Guarded step SumFits (AverageRun.start preprocessorId columnId group storeSlot stored) actions := by
  refine guardedIffWithin (fun s a h within => ?_) (fun s a next h within taken => stepSummed h within taken)
    (startSummed preprocessorId columnId group storeSlot stored) tracked
  cases a with
  | append e => exact Iff.rfl
  | removeEvents v => exact Iff.rfl
  | addEvent i => exact meanAfterIff wide h within

theorem smallValues : Guarded step MeanAfterAdd (AverageRun.start 0 0 "ann" 0 (0 : BitVec 32))
    [.append ⟨["ann"],0,["3"]⟩,.append ⟨["ann"],1,["6"]⟩,.addEvent 0,.addEvent 1,.removeEvents 1] :=
  (meansIffSumsFit (by decide) 0 0 "ann" 0 0 (by decide +kernel)).mpr (by decide +kernel)

theorem largeValues : ¬∀ (w : Nat), w = 32 ∨ w = 64 → ∀ (preprocessorId columnId : Nat) (group : String) (storeSlot : Nat)
    (stored : BitVec w) (actions : List Action),
    Guarded step Tracked (AverageRun.start preprocessorId columnId group storeSlot stored) actions →
      Guarded step MeanAfterAdd (AverageRun.start preprocessorId columnId group storeSlot stored) actions := by
  intro all
  have means := all 32 (.inl rfl) 0 0 "ann" 0 0 [.append ⟨["ann"],0,["2147483647"]⟩,.append ⟨["ann"],0,["2147483647"]⟩,.addEvent 0,.addEvent 1]
    (by decide +kernel)
  have last := (((means.2 _ rfl).2 _ rfl).2 _ rfl).1 _ rfl
  exact absurd (last (by decide +kernel)).1 (by decide +kernel)

end NimbleNet.AverageSums
