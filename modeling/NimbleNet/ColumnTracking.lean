import NimbleNet.AggregateColumn

/-! What an aggregate column is for: its cell is the aggregate of a list of
values, given from scratch by `reference`. Integer element type, exact
arithmetic. `Tracks` relates a column to the values it currently counts. -/
namespace NimbleNet.ColumnTracking
open AggregateColumn LogSuffix

def reference (kind : ColumnKind) (default : Int) (values : List Int) : Int :=
  if values = [] then default else
    match kind with
    | .sum => values.sum
    | .count => values.length
    | .min => values.min?.getD default
    | .max => values.max?.getD default
    | .average => values.sum.tdiv values.length

@[simp] theorem referenceNil (kind default) : reference kind default [] = default := rfl

def extreme (pick : Int → Int → Int) (default : Int) : List Int → Int
  | [] => default
  | v :: rest => rest.foldl pick v

theorem referenceMin (default values) : reference .min default values = extreme min default values := by
  cases values with
  | nil => rfl
  | cons v rest => simp only [reference,extreme,List.min?_cons',reduceCtorEq,if_false,Option.getD_some]

theorem referenceMax (default values) : reference .max default values = extreme max default values := by
  cases values with
  | nil => rfl
  | cons v rest => simp only [reference,extreme,List.max?_cons',reduceCtorEq,if_false,Option.getD_some]

section Extreme
variable {pick : Int → Int → Int} {default : Int}

theorem extremeSnoc {values : List Int} (some : values ≠ []) (x : Int) :
    extreme pick default (values ++ [x]) = pick (extreme pick default values) x := by
  cases values with
  | nil => exact absurd rfl some
  | cons v rest => simp only [extreme,List.cons_append,List.foldl_append,List.foldl_cons,List.foldl_nil]

theorem extremeAppend (assoc : Std.Associative pick) {left right : List Int} (someLeft : left ≠ [])
    (someRight : right ≠ []) : extreme pick default (left ++ right) =
      pick (extreme pick default left) (extreme pick default right) := by
  induction right using List.reverseRecOn with
  | nil => exact absurd rfl someRight
  | append_singleton rest x ih =>
      rw [← List.append_assoc,extremeSnoc (by simp [someLeft])]
      cases rest with
      | nil => simp [extreme]
      | cons r more => rw [ih (by simp),extremeSnoc (by simp),assoc.assoc]

theorem extremeMem (choice : ∀ a b, pick a b = a ∨ pick a b = b) {values : List Int} (some : values ≠ []) :
    extreme pick default values ∈ values := by
  induction values using List.reverseRecOn with
  | nil => exact absurd rfl some
  | append_singleton rest x ih =>
      cases rest with
      | nil => simp [extreme]
      | cons r more =>
          rw [extremeSnoc (by simp)]
          rcases choice (extreme pick default (r :: more)) x with h | h <;> rw [h]
          · exact List.mem_append_left _ (ih (by simp))
          · simp

theorem extremeLater (assoc : Std.Associative pick) (choice : ∀ a b, pick a b = a ∨ pick a b = b)
    {left right : List Int} (some : left ++ right ≠ [])
    (absent : extreme pick default (left ++ right) ∉ left) :
    right ≠ [] ∧ extreme pick default (left ++ right) = extreme pick default right := by
  have someRight : right ≠ [] := by
    rintro rfl
    rw [List.append_nil] at some absent
    exact absent (extremeMem choice some)
  refine ⟨someRight,?_⟩
  by_cases someLeft : left = []
  · rw [someLeft,List.nil_append]
  · rw [extremeAppend assoc someLeft someRight] at absent ⊢
    rcases choice (extreme pick default left) (extreme pick default right) with h | h
    · rw [h] at absent
      exact absurd (extremeMem choice someLeft) absent
    · exact h

end Extreme

structure Tracks (log : List TableEvent) (col : Column Int) (stored : Int) (values : List Int) : Prop where
  total : col.totalCount = values.length
  stored : stored = reference col.config.kind col.config.defaultValue values
  sum : col.config.kind = .average → col.sum = values.sum
  empty : values = [] → col.oldestIndex = -1
  oldest : values ≠ [] → ∃ o : Nat, col.oldestIndex = o ∧ o ≤ log.length ∧
    values = (selected col.config.inGroup log o).map col.config.valueOf

structure Counts (col : Column Int) (stored : Int) (values : List Int) : Prop where
  total : col.totalCount = values.length
  stored : stored = reference col.config.kind col.config.defaultValue values
  sum : col.config.kind = .average → col.sum = values.sum
  oldest : col.oldestIndex = -1 ↔ values = []

theorem tracksCounts {log : List TableEvent} {col : Column Int} {stored : Int} {values : List Int}
    (h : Tracks log col stored values) : Counts col stored values where
  total := h.total
  stored := h.stored
  sum := h.sum
  oldest := by
    refine ⟨fun fresh => ?_,h.empty⟩
    by_contra used
    obtain ⟨o,ho,_⟩ := h.oldest used
    omega

theorem emptyTracks {log : List TableEvent} {col : Column Int} (total : col.totalCount = 0)
    (oldest : col.oldestIndex = -1) (sum : col.config.kind = .average → col.sum = 0) :
    Tracks log col col.config.defaultValue [] :=
  ⟨total,rfl,sum,fun _ => oldest,fun h => absurd rfl h⟩

theorem createTracks (log kind preprocessorId columnId group storeSlot stored) :
    Tracks log (create kind preprocessorId columnId group storeSlot stored) stored [] :=
  emptyTracks rfl rfl (fun _ => rfl)

section Add
variable {log : List TableEvent} {col : Column Int} {stored : Int} {values : List Int} {e : TableEvent}

theorem addEventConfig {T : Type} [Scalar T] (col : Column T) (stored e i) :
    (addEvent col stored e i).1.config = col.config := by
  unfold addEvent
  cases col.config.kind <;> simp only [SumColumn.addEvent,CountColumn.addEvent,MinColumn.addEvent,
    MaxColumn.addEvent,AverageColumn.addEvent,addWith] <;> split_ifs <;> rfl

theorem addEventOther {T : Type} [Scalar T] {col : Column T} {stored : T} (other : col.config.inGroup e = false) (i) :
    addEvent col stored e i = (col,stored) := by
  unfold addEvent
  cases col.config.kind <;> simp [SumColumn.addEvent,CountColumn.addEvent,MinColumn.addEvent,
    MaxColumn.addEvent,AverageColumn.addEvent,addWith,other]

theorem addEventTotal {T : Type} [Scalar T] {col : Column T} {stored : T} (mine : col.config.inGroup e = true) (i) :
    (addEvent col stored e i).1.totalCount = col.totalCount + 1 := by
  unfold addEvent
  cases col.config.kind <;> simp only [SumColumn.addEvent,CountColumn.addEvent,MinColumn.addEvent,
    MaxColumn.addEvent,AverageColumn.addEvent,addWith,mine,if_true] <;> split_ifs <;> rfl

theorem addEventOldest {T : Type} [Scalar T] {col : Column T} {stored : T} (mine : col.config.inGroup e = true) (i : Nat) :
    (addEvent col stored e i).1.oldestIndex = if col.oldestIndex = -1 then (i : Int) else col.oldestIndex := by
  unfold addEvent
  cases col.config.kind <;> simp only [SumColumn.addEvent,CountColumn.addEvent,MinColumn.addEvent,
    MaxColumn.addEvent,AverageColumn.addEvent,addWith,mine,if_true] <;> split_ifs <;> rfl

theorem addEventSum (mine : col.config.inGroup e = true) (average : col.config.kind = .average) (i) :
    (addEvent col stored e i).1.sum = col.sum + col.config.valueOf e := by
  simp [addEvent,average,AverageColumn.addEvent,mine]

theorem addEventStored (h : Counts col stored values) (mine : col.config.inGroup e = true) (i) :
    (addEvent col stored e i).2 =
      reference col.config.kind col.config.defaultValue (values ++ [col.config.valueOf e]) := by
  have cell := h.stored
  have average := h.sum
  have total := h.total
  rcases values with _ | ⟨v,rest⟩
  · have fresh := h.oldest.mpr rfl
    unfold addEvent
    cases kind : col.config.kind <;> simp [SumColumn.addEvent,CountColumn.addEvent,MinColumn.addEvent,
      MaxColumn.addEvent,AverageColumn.addEvent,addWith,mine,fresh,reference]
    have zero := average kind
    simp only [List.length_nil,List.sum_nil] at total zero
    simp [total,zero,Scalar.divCount]
  · have used : col.oldestIndex ≠ -1 := fun fresh => by simpa using h.oldest.mp fresh
    unfold addEvent
    cases kind : col.config.kind <;> rw [kind] at cell
    · simp [SumColumn.addEvent,addWith,mine,used,cell,reference,add_assoc]
    · simp [CountColumn.addEvent,addWith,mine,used,cell,reference]
    · rw [referenceMin] at cell ⊢
      rw [extremeSnoc (by simp)]
      simp only [MinColumn.addEvent,addWith,mine,used,cell,if_true,if_false]
    · rw [referenceMax] at cell ⊢
      rw [extremeSnoc (by simp)]
      simp only [MaxColumn.addEvent,addWith,mine,used,cell,if_true,if_false]
    · have sum := average kind
      simp [AverageColumn.addEvent,mine,total,sum,reference,Scalar.divCount,add_assoc]

theorem addCounts (h : Counts col stored values) (mine : col.config.inGroup e = true) (i : Nat) :
    Counts (addEvent col stored e i).1 (addEvent col stored e i).2 (values ++ [col.config.valueOf e]) where
  total := by simp [addEventTotal mine,h.total]
  stored := by rw [addEventConfig]; exact addEventStored h mine i
  sum average := by
    rw [addEventConfig] at average
    simp [addEventSum mine average,h.sum average]
  oldest := by
    rw [addEventOldest mine]
    split <;> simp_all

theorem addTracks (h : Tracks log col stored values) (mine : col.config.inGroup e = true) :
    Tracks (log ++ [e]) (addEvent col stored e log.length).1 (addEvent col stored e log.length).2
      (values ++ [col.config.valueOf e]) where
  total := (addCounts (tracksCounts h) mine log.length).total
  stored := (addCounts (tracksCounts h) mine log.length).stored
  sum := (addCounts (tracksCounts h) mine log.length).sum
  empty none := by simp at none
  oldest _ := by
    rw [addEventOldest mine,addEventConfig]
    by_cases fresh : values = []
    · subst fresh
      refine ⟨log.length,by simp [h.empty rfl],by simp,?_⟩
      simp [selectedAppend,selectedEnd,mine]
    · obtain ⟨o,ho,inside,eq⟩ := h.oldest fresh
      refine ⟨o,by rw [ho]; simp,by simp; omega,?_⟩
      rw [selectedAppend _ inside,if_pos mine,List.map_append,← eq]
      rfl

theorem passTracks (h : Tracks log col stored values)
    (uncounted : values = [] ∨ col.config.inGroup e = false) : Tracks (log ++ [e]) col stored values where
  total := h.total
  stored := h.stored
  sum := h.sum
  empty := h.empty
  oldest used := by
    obtain ⟨o,ho,inside,eq⟩ := h.oldest used
    refine ⟨o,ho,by simp; omega,?_⟩
    rcases uncounted with none | other
    · contradiction
    · rw [selectedAppend _ inside,other,← List.append_nil values,eq]
      simp

end Add

theorem indicesEmpty {start stop : Int} (done : stop ≤ start) : indices start stop = [] := by
  simp [indices,Int.toNat_eq_zero.mpr (by omega : stop - start ≤ 0)]

theorem indicesMem {start stop i : Int} (h : i ∈ indices start stop) : start ≤ i ∧ i < stop := by
  obtain ⟨k,hk,rfl⟩ := List.mem_map.mp h
  rw [List.mem_range] at hk
  omega

theorem indicesStep {start stop : Int} (more : start < stop) :
    indices start stop = start :: indices (start + 1) stop := by
  have count : (stop - start).toNat = (stop - (start + 1)).toNat + 1 := by omega
  unfold indices
  rw [count,List.range_succ_eq_map,List.map_cons,List.map_map]
  simp only [Nat.cast_zero,add_zero,List.cons.injEq,true_and]
  exact List.map_congr_left (fun k _ => by simp [Function.comp]; omega)

theorem eventRead {log : List TableEvent} {i : Nat} (inside : i < log.length) :
    ∃ e, log[i]? = some e ∧ eventAt log i = e :=
  ⟨log[i],List.getElem?_eq_getElem inside,by simp [eventAt,List.getD_eq_getElem?_getD,inside]⟩

section Retire
variable {retire : Column Int → Int → Int → Column Int × Int}

theorem retireVisits (keeps : ∀ col stored x, (retire col stored x).1.config = col.config)
    {log : List TableEvent} {start stop : Nat} (inside : stop ≤ log.length) (col : Column Int) (stored : Int) :
    retireWith retire log (indices start stop) (col,stored) =
      ((between col.config.inGroup log start stop).map col.config.valueOf).foldl
        (fun state x => retire state.1 state.2 x) (col,stored) := by
  induction n : stop - start generalizing start col stored with
  | zero => rw [indicesEmpty (by omega),betweenEnd _ (by omega)]; rfl
  | succ n ih =>
      have more : start < stop := by omega
      obtain ⟨e,here,read⟩ := eventRead (by omega : start < log.length)
      have later := fun next value => @ih (start + 1) next value (by omega)
      push_cast at later
      rw [indicesStep (by omega),betweenStep _ more here]
      cases mine : col.config.inGroup e with
      | false =>
          simp only [Bool.false_eq_true,if_false,List.nil_append]
          rw [← later col stored]
          simp only [retireWith,List.foldl_cons,read,mine,Bool.false_eq_true,if_false]
      | true =>
          have visited := later (retire col stored (col.config.valueOf e)).1 (retire col stored (col.config.valueOf e)).2
          rw [keeps] at visited
          simp only [if_true,List.cons_append,List.nil_append,List.map_cons,List.foldl_cons]
          rw [← visited]
          simp only [retireWith,List.foldl_cons,read,mine,if_true]

end Retire

theorem sumRetired (values : List Int) (col : Column Int) (stored : Int) :
    values.foldl (fun state x => SumColumn.retire state.1 state.2 x) (col,stored) =
      ({col with totalCount := col.totalCount - values.length},stored - values.sum) := by
  induction values generalizing col stored with
  | nil => simp
  | cons v rest ih =>
      rw [List.foldl_cons,SumColumn.retire,ih]
      simp only [List.length_cons,List.sum_cons,Prod.mk.injEq,Column.mk.injEq]
      push_cast
      refine ⟨⟨trivial,?_,trivial,trivial⟩,?_⟩ <;> ring

theorem countRetired (values : List Int) (col : Column Int) (stored : Int) :
    values.foldl (fun state x => CountColumn.retire state.1 state.2 x) (col,stored) =
      ({col with totalCount := col.totalCount - values.length},stored - values.length) := by
  induction values generalizing col stored with
  | nil => simp
  | cons v rest ih =>
      rw [List.foldl_cons,CountColumn.retire,ih]
      simp only [List.length_cons,Prod.mk.injEq,Column.mk.injEq]
      push_cast
      refine ⟨⟨trivial,?_,trivial,trivial⟩,?_⟩ <;> ring

theorem averageRetired (values : List Int) (col : Column Int) (stored : Int) :
    values.foldl (fun state x => AverageColumn.retire state.1 state.2 x) (col,stored) =
      ({col with totalCount := col.totalCount - values.length, sum := col.sum - values.sum},stored) := by
  induction values generalizing col stored with
  | nil => simp
  | cons v rest ih =>
      rw [List.foldl_cons,AverageColumn.retire,ih]
      simp only [List.length_cons,List.sum_cons,Prod.mk.injEq,Column.mk.injEq,and_true]
      push_cast
      refine ⟨trivial,?_,trivial,?_⟩ <;> ring

section Remove
variable {log : List TableEvent} {col : Column Int} {stored : Int} {values : List Int}

theorem selectedValues (col : Column Int) (log : List TableEvent) {o v : Nat} (order : o ≤ v) :
    (selected col.config.inGroup log o).map col.config.valueOf =
      (between col.config.inGroup log o v).map col.config.valueOf ++
        (selected col.config.inGroup log v).map col.config.valueOf := by
  rw [selectedSplit _ order,List.map_append]

/- The outcome of remove_events: the column counts exactly `left`. -/
structure Settled (col : Column Int) (left : List Int) (v : Nat) (result : Column Int × Int) : Prop where
  config : result.1.config = col.config
  total : result.1.totalCount = left.length
  stored : result.2 = reference col.config.kind col.config.defaultValue left
  sum : col.config.kind = .average → result.1.sum = left.sum
  oldest : result.1.oldestIndex = if left = [] then -1 else (v : Int)

theorem settledTracks {v : Nat} (inside : v ≤ log.length) {result : Column Int × Int}
    (h : Settled col ((selected col.config.inGroup log v).map col.config.valueOf) v result) :
    Tracks log result.1 result.2 ((selected col.config.inGroup log v).map col.config.valueOf) where
  total := h.total
  stored := by rw [h.config]; exact h.stored
  sum average := h.sum (by rw [← h.config]; exact average)
  empty none := by rw [h.oldest,if_pos none]
  oldest used := ⟨v,by rw [h.oldest,if_neg used],inside,by rw [h.config]⟩

theorem referenceSome (kind default) {values : List Int} (some : values ≠ []) :
    reference kind default values = match kind with
      | .sum => values.sum
      | .count => values.length
      | .min => values.min?.getD default
      | .max => values.max?.getD default
      | .average => values.sum.tdiv values.length := if_neg some

/- Sum, Count and Average differ in what retiring the values that left does to
the column (`after`) and in how the cell is settled from it. -/
theorem removeWithSettles {retire : Column Int → Int → Int → Column Int × Int} {settle : Column Int → Int → Int}
    (keeps : ∀ col stored x, (retire col stored x).1.config = col.config) (h : Tracks log col stored values)
    {o v : Nat} (start : col.oldestIndex = o) (order : o ≤ v) (inside : v ≤ log.length)
    (counted : values = (selected col.config.inGroup log o).map col.config.valueOf)
    (after : Column Int × Int)
    (retired : ((between col.config.inGroup log o v).map col.config.valueOf).foldl
      (fun state x => retire state.1 state.2 x) (col,stored) = after)
    (config : after.1.config = col.config)
    (total : after.1.totalCount = col.totalCount - (between col.config.inGroup log o v).length)
    (settled : (selected col.config.inGroup log v).map col.config.valueOf ≠ [] →
      settle after.1 after.2 = reference col.config.kind col.config.defaultValue
        ((selected col.config.inGroup log v).map col.config.valueOf) ∧
      (col.config.kind = .average → after.1.sum = ((selected col.config.inGroup log v).map col.config.valueOf).sum)) :
    Settled col ((selected col.config.inGroup log v).map col.config.valueOf) v
      (removeWith retire settle col stored log v) := by
  have count : after.1.totalCount = ((selected col.config.inGroup log v).map col.config.valueOf).length := by
    rw [total,h.total,counted,selectedValues col log order]
    simp only [List.length_append,List.length_map]
    omega
  unfold removeWith
  rw [start,retireVisits keeps inside,retired]
  generalize (selected col.config.inGroup log v).map col.config.valueOf = left at *
  cases left with
  | nil =>
      simp only [List.length_nil,Nat.cast_zero] at count
      simp only [count,if_true]
      exact ⟨config,rfl,by rw [config]; rfl,fun _ => rfl,rfl⟩
  | cons x rest =>
      have used : after.1.totalCount ≠ 0 := by rw [count]; simp only [List.length_cons]; omega
      obtain ⟨value,sum⟩ := settled (by simp)
      simp only [used,if_false]
      exact ⟨config,count,value,sum,rfl⟩

theorem sumSettles (h : Tracks log col stored values) (kind : col.config.kind = .sum) {o v : Nat}
    (start : col.oldestIndex = o) (order : o ≤ v) (inside : v ≤ log.length)
    (counted : values = (selected col.config.inGroup log o).map col.config.valueOf) :
    Settled col ((selected col.config.inGroup log v).map col.config.valueOf) v
      (SumColumn.removeEvents col stored log v) := by
  refine removeWithSettles (fun _ _ _ => rfl) h start order inside counted _ (sumRetired _ col stored) rfl
    (by simp) (fun some => ⟨?_,by simp [kind]⟩)
  have cell := h.stored
  rw [counted,selectedValues col log order,kind,referenceSome _ _ (by simp [some])] at cell
  rw [kind,referenceSome _ _ some,cell,List.sum_append]
  ring

theorem countSettles (h : Tracks log col stored values) (kind : col.config.kind = .count) {o v : Nat}
    (start : col.oldestIndex = o) (order : o ≤ v) (inside : v ≤ log.length)
    (counted : values = (selected col.config.inGroup log o).map col.config.valueOf) :
    Settled col ((selected col.config.inGroup log v).map col.config.valueOf) v
      (CountColumn.removeEvents col stored log v) := by
  refine removeWithSettles (fun _ _ _ => rfl) h start order inside counted _ (countRetired _ col stored) rfl
    (by simp) (fun some => ⟨?_,by simp [kind]⟩)
  have cell := h.stored
  rw [counted,selectedValues col log order,kind,referenceSome _ _ (by simp [some])] at cell
  rw [kind,referenceSome _ _ some,cell,List.length_append]
  push_cast
  ring

theorem averageSettles (h : Tracks log col stored values) (kind : col.config.kind = .average) {o v : Nat}
    (start : col.oldestIndex = o) (order : o ≤ v) (inside : v ≤ log.length)
    (counted : values = (selected col.config.inGroup log o).map col.config.valueOf) :
    Settled col ((selected col.config.inGroup log v).map col.config.valueOf) v
      (AverageColumn.removeEvents col stored log v) := by
  have split := selectedValues col log order
  have sum : col.sum - ((between col.config.inGroup log o v).map col.config.valueOf).sum =
      ((selected col.config.inGroup log v).map col.config.valueOf).sum := by
    rw [h.sum kind,counted,split,List.sum_append]
    ring
  have total : col.totalCount - ((between col.config.inGroup log o v).map col.config.valueOf).length =
      ((selected col.config.inGroup log v).map col.config.valueOf).length := by
    rw [h.total,counted,split,List.length_append]
    push_cast
    ring
  refine removeWithSettles (fun _ _ _ => rfl) h start order inside counted _ (averageRetired _ col stored) rfl
    (by simp) (fun some => ⟨?_,fun _ => sum⟩)
  rw [kind,referenceSome _ _ some,sum,total]
  rfl

section Extreme
variable {pick : Int → Int → Int}

/- The second pass of the loop, after the stored extreme was met: it counts
afresh. `seen` are the live values before index `i`. -/
theorem recountLoop (v : Int) {i : Nat} (seen : List Int) (total : col.totalCount = seen.length)
    (cell : stored = extreme pick col.config.defaultValue seen) {all : List Int}
    (rest : all = seen ++ (selected col.config.inGroup log i).map col.config.valueOf) :
    ∃ o, ExtremeColumn.removeLoop pick log v i true col stored =
      ({col with totalCount := all.length, oldestIndex := o},extreme pick col.config.defaultValue all) := by
  induction n : log.length - i generalizing i col stored seen with
  | zero =>
      unfold ExtremeColumn.removeLoop
      rw [selectedEnd _ (by omega),List.map_nil,List.append_nil] at rest
      rw [dif_neg (by omega),rest,← total,← cell]
      exact ⟨col.oldestIndex,rfl⟩
  | succ n ih =>
      obtain ⟨e,here,read⟩ := eventRead (by omega : i < log.length)
      unfold ExtremeColumn.removeLoop
      rw [dif_pos (by omega)]
      rw [selectedStep _ here] at rest
      simp only [read,Bool.true_eq_false,false_and,if_false,if_true]
      cases mine : col.config.inGroup e with
      | false =>
          rw [mine] at rest
          exact_mod_cast ih seen total cell rest (by omega)
      | true =>
          rw [mine] at rest
          simp only [if_true]
          have snoc : all = (seen ++ [col.config.valueOf e]) ++
              (selected col.config.inGroup log (i + 1)).map col.config.valueOf := by
            simpa using rest
          by_cases first : col.totalCount = 0
          · have none : seen = [] := by
              rw [total] at first
              exact List.eq_nil_of_length_eq_zero (by exact_mod_cast first)
            subst none
            rw [if_pos first]
            have one : ({col with totalCount := col.totalCount + 1, oldestIndex := i} : Column Int).totalCount =
                ([col.config.valueOf e] : List Int).length := by simp [first]
            exact_mod_cast ih [col.config.valueOf e] one rfl snoc (by omega)
          · have some : seen ≠ [] := by
              rintro rfl
              exact first total
            rw [if_neg first]
            have more : ({col with totalCount := col.totalCount + 1} : Column Int).totalCount =
                (seen ++ [col.config.valueOf e]).length := by simp [total]
            have picked : pick stored (col.config.valueOf e) =
                extreme pick col.config.defaultValue (seen ++ [col.config.valueOf e]) := by
              rw [extremeSnoc some,cell]
            exact_mod_cast ih (seen ++ [col.config.valueOf e]) more picked snoc (by omega)

/- The first pass: the values before `v` leave one by one until the stored
extreme is met (`gone` have left already, none of them the stored one). -/
theorem removeLoopSettles (assoc : Std.Associative pick) (choice : ∀ a b, pick a b = a ∨ pick a b = b)
    {v i : Nat} (order : i ≤ v) (inside : v ≤ log.length) (gone : List Int) {left : List Int}
    (live : left = (selected col.config.inGroup log v).map col.config.valueOf)
    (absent : stored ∉ gone) (some : gone ++ ((between col.config.inGroup log i v).map col.config.valueOf ++ left) ≠ [])
    (total : col.totalCount = ((between col.config.inGroup log i v).map col.config.valueOf ++ left).length)
    (cell : stored = extreme pick col.config.defaultValue
      (gone ++ ((between col.config.inGroup log i v).map col.config.valueOf ++ left))) :
    ∃ o, ExtremeColumn.removeLoop pick log v i false col stored =
      ({col with totalCount := left.length, oldestIndex := o},extreme pick col.config.defaultValue left) := by
  induction n : v - i generalizing i col stored gone with
  | zero =>
      rw [betweenEnd _ (by omega),List.map_nil,List.nil_append] at some total cell
      have result : ExtremeColumn.removeLoop pick log v i false col stored = (col,stored) := by
        unfold ExtremeColumn.removeLoop
        split
        · rw [if_pos ⟨rfl,by omega⟩]
        · rfl
      rw [cell] at absent
      obtain ⟨_,same⟩ := extremeLater assoc choice some absent
      rw [result,← total,← same,← cell]
      exact ⟨col.oldestIndex,rfl⟩
  | succ n ih =>
      obtain ⟨e,here,read⟩ := eventRead (by omega : i < log.length)
      unfold ExtremeColumn.removeLoop
      rw [dif_pos (by omega),if_neg (by simp; omega)]
      rw [betweenStep _ (by omega) here] at some total cell
      simp only [read,Bool.false_eq_true,if_false]
      cases mine : col.config.inGroup e with
      | false =>
          rw [mine] at some total cell
          exact_mod_cast ih (by omega) gone live absent some total cell (by omega)
      | true =>
          rw [mine] at some total cell
          simp only [if_true]
          by_cases met : col.config.valueOf e = stored
          · rw [if_pos met,Int.sub_add_cancel]
            have fresh : ({col with totalCount := 0} : Column Int).totalCount = ([] : List Int).length := rfl
            exact recountLoop v [] fresh rfl live
          · rw [if_neg met]
            have later := @ih {col with totalCount := col.totalCount - 1} stored (i + 1) (by omega)
              (gone ++ [col.config.valueOf e]) live (by simp [absent,Ne.symm met]) (by simp)
              (by simp [total]) (by simpa using cell) (by omega)
            exact_mod_cast later

theorem extremeSettles (assoc : Std.Associative pick) (choice : ∀ a b, pick a b = a ∨ pick a b = b)
    (kind : col.config.kind ≠ .average)
    (isExtreme : ∀ default values, reference col.config.kind default values = extreme pick default values)
    (h : Tracks log col stored values) (used : values ≠ []) {o v : Nat} (start : col.oldestIndex = o)
    (order : o ≤ v) (inside : v ≤ log.length)
    (counted : values = (selected col.config.inGroup log o).map col.config.valueOf) :
    Settled col ((selected col.config.inGroup log v).map col.config.valueOf) v
      (ExtremeColumn.removeEvents pick col stored log v) := by
  have total := h.total
  have cell := h.stored
  rw [isExtreme] at cell
  rw [counted,selectedValues col log order] at used total cell
  obtain ⟨last,looped⟩ := removeLoopSettles assoc choice order inside [] rfl (by simp) used total cell
  unfold ExtremeColumn.removeEvents
  rw [start,looped]
  generalize (selected col.config.inGroup log v).map col.config.valueOf = left at *
  cases left with
  | nil => exact ⟨rfl,rfl,rfl,fun average => absurd average kind,rfl⟩
  | cons x rest =>
      have some : ((x :: rest).length : Int) ≠ 0 := by simp only [List.length_cons]; omega
      simp only [if_neg some]
      exact ⟨rfl,rfl,(isExtreme col.config.defaultValue (x :: rest)).symm,fun average => absurd average kind,rfl⟩

end Extreme

theorem removeSettles (h : Tracks log col stored values) (used : values ≠ []) {o v : Nat}
    (start : col.oldestIndex = o) (order : o ≤ v) (inside : v ≤ log.length)
    (counted : values = (selected col.config.inGroup log o).map col.config.valueOf) :
    Settled col ((selected col.config.inGroup log v).map col.config.valueOf) v (removeEvents col stored log v) := by
  unfold removeEvents
  cases kind : col.config.kind with
  | sum => exact sumSettles h kind start order inside counted
  | count => exact countSettles h kind start order inside counted
  | min =>
      exact extremeSettles ⟨min_assoc⟩ min_choice (by simp [kind]) (by rw [kind]; exact referenceMin) h used start
        order inside counted
  | max =>
      exact extremeSettles ⟨max_assoc⟩ max_choice (by simp [kind]) (by rw [kind]; exact referenceMax) h used start
        order inside counted
  | average => exact averageSettles h kind start order inside counted

theorem removeBelow (some : col.totalCount ≠ 0)
    (cell : col.config.kind = .average → stored = Scalar.divCount col.sum col.totalCount) {v : Int}
    (below : v ≤ col.oldestIndex) : removeEvents col stored log v = ({col with oldestIndex := v},stored) := by
  have simple : ∀ retire settle, removeWith retire settle col stored log v =
      ({col with oldestIndex := v},settle col stored) := by
    intro retire settle
    simp only [removeWith,indicesEmpty below,retireWith,List.foldl_nil,some,if_false]
  have extremes : ∀ pick, ExtremeColumn.removeEvents pick col stored log v = ({col with oldestIndex := v},stored) := by
    intro pick
    have looped : ExtremeColumn.removeLoop pick log v col.oldestIndex false col stored = (col,stored) := by
      unfold ExtremeColumn.removeLoop
      split
      · rw [if_pos ⟨rfl,below⟩]
      · rfl
    simp only [ExtremeColumn.removeEvents,looped,some,if_false]
  unfold removeEvents
  cases kind : col.config.kind with
  | sum => exact simple _ _
  | count => exact simple _ _
  | min => exact extremes min
  | max => exact extremes max
  | average => exact (simple _ _).trans (by rw [cell kind])

theorem removeBelowSettles (h : Counts col stored values) (used : values ≠ []) {o v : Nat}
    (start : col.oldestIndex = o) (below : v ≤ o) : Settled col values v (removeEvents col stored log v) := by
  have some : col.totalCount ≠ 0 := by
    rw [h.total]
    exact_mod_cast (List.length_pos_iff.mpr used).ne'
  have cell : col.config.kind = .average → stored = Scalar.divCount col.sum col.totalCount := by
    intro kind
    have value := h.stored
    rwa [kind,referenceSome _ _ used,← h.sum kind,← h.total] at value
  rw [removeBelow some cell (by omega)]
  exact ⟨rfl,h.total,h.stored,h.sum,by rw [if_neg used]⟩

theorem settledCounts {left : List Int} {v : Nat} {result : Column Int × Int} (h : Settled col left v result) :
    Counts result.1 result.2 left where
  total := h.total
  stored := by rw [h.config]; exact h.stored
  sum average := h.sum (by rw [← h.config]; exact average)
  oldest := by
    rw [h.oldest]
    split <;> simp_all

theorem removeEmptyTracks (h : Tracks log col stored []) {v : Int}
    (nothing : v < 0 ∨ col.config.kind = .min ∨ col.config.kind = .max) :
    Tracks log (removeEvents col stored log v).1 (removeEvents col stored log v).2 [] := by
  have total : col.totalCount = 0 := h.total
  have oldest := h.empty rfl
  have simple : ∀ retire settle, v < 0 →
      removeWith retire settle col stored log v = ({col with oldestIndex := -1, sum := 0},col.config.defaultValue) := by
    intro retire settle below
    simp only [removeWith,oldest,indicesEmpty (by omega : v ≤ -1),retireWith,List.foldl_nil,total,if_true]
  have extremes : ∀ pick, ExtremeColumn.removeEvents pick col stored log v =
      ({col with oldestIndex := -1},col.config.defaultValue) := by
    intro pick
    unfold ExtremeColumn.removeEvents ExtremeColumn.removeLoop
    rw [oldest,dif_neg (by omega)]
    simp only [total,if_true]
  obtain ⟨sum,result,zero⟩ : ∃ sum, removeEvents col stored log v =
      ({col with oldestIndex := -1, sum := sum},col.config.defaultValue) ∧
      (col.config.kind = .average → sum = 0) := by
    unfold removeEvents
    cases kind : col.config.kind <;> simp only [kind,reduceCtorEq,or_false,or_true] at nothing
    · exact ⟨0,simple _ _ nothing,fun _ => rfl⟩
    · exact ⟨0,simple _ _ nothing,fun _ => rfl⟩
    · exact ⟨col.sum,extremes min,by simp⟩
    · exact ⟨col.sum,extremes max,by simp⟩
    · exact ⟨0,simple _ _ nothing,fun _ => rfl⟩
  rw [result]
  exact emptyTracks total rfl zero

theorem removeAllTracks (h : Tracks log col stored values) (used : values ≠ []) :
    Tracks log (removeEvents col stored log log.length).1 (removeEvents col stored log log.length).2 [] := by
  obtain ⟨o,start,inside,counted⟩ := h.oldest used
  have tracks := settledTracks le_rfl (removeSettles h used start inside le_rfl counted)
  rwa [selectedEnd _ le_rfl] at tracks

end Remove

section Any
variable {T : Type} [Scalar T]

theorem retireWithConfig {retire : Column T → T → T → Column T × T}
    (keeps : ∀ col stored x, (retire col stored x).1.config = col.config) (log : List TableEvent) (range : List Int)
    (state : Column T × T) : (retireWith retire log range state).1.config = state.1.config := by
  induction range generalizing state with
  | nil => rfl
  | cons i rest ih =>
      unfold retireWith at ih ⊢
      rw [List.foldl_cons,ih]
      simp only
      split_ifs
      · exact keeps _ _ _
      · rfl

theorem removeWithConfig {retire : Column T → T → T → Column T × T} {settle : Column T → T → T}
    (keeps : ∀ col stored x, (retire col stored x).1.config = col.config) (col : Column T) (stored log v) :
    (removeWith retire settle col stored log v).1.config = col.config := by
  have kept := retireWithConfig keeps log (indices col.oldestIndex v) (col,stored)
  unfold removeWith
  simp only
  split_ifs <;> exact kept

theorem removeLoopConfig (pick : T → T → T) (log v i changed) (col : Column T) (stored) :
    (ExtremeColumn.removeLoop pick log v i changed col stored).1.config = col.config := by
  fun_induction ExtremeColumn.removeLoop <;> simp_all

theorem removeEventsConfig (col : Column T) (stored log v) :
    (removeEvents col stored log v).1.config = col.config := by
  have loop := fun pick => removeLoopConfig pick log v col.oldestIndex false col stored
  unfold removeEvents
  cases col.config.kind with
  | sum => exact removeWithConfig (fun _ _ _ => rfl) col stored log v
  | count => exact removeWithConfig (fun _ _ _ => rfl) col stored log v
  | average => exact removeWithConfig (fun _ _ _ => rfl) col stored log v
  | min =>
      simp only [MinColumn.removeEvents,ExtremeColumn.removeEvents]
      split_ifs <;> exact loop min
  | max =>
      simp only [MaxColumn.removeEvents,ExtremeColumn.removeEvents]
      split_ifs <;> exact loop max

end Any

end NimbleNet.ColumnTracking
