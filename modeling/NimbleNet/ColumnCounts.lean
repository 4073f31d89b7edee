import NimbleNet.ModelInputVerdicts

/-! How many events a column counts, for any element type: those of its group from its oldest
index on, provided that every one of them was added. A removal up to the end of the events
then leaves none. -/
namespace NimbleNet.ColumnCounts
open AggregateColumn ColumnTracking FeatureLayout ModelInputVerdicts OrderedMap RollingWindow

section Places

def placesFrom (keys : List String) (group : String) (lo : Nat) : List Nat :=
  (List.range' lo (keys.length - lo)).filter (fun i => keys[i]? = some group)

theorem placesEnd (keys : List String) (group : String) : placesFrom keys group keys.length = [] := by
  simp [placesFrom]

theorem placesSnoc {keys : List String} {lo : Nat} (inside : lo ≤ keys.length) (key group : String) :
    placesFrom (keys ++ [key]) group lo = placesFrom keys group lo ++ if key = group then [keys.length] else [] := by
  have size : (keys ++ [key]).length - lo = keys.length - lo + 1 := by
    rw [List.length_append,List.length_singleton]
    omega
  have last : lo + (keys.length - lo) = keys.length := by omega
  have before : (List.range' lo (keys.length - lo)).filter (fun i => (keys ++ [key])[i]? = some group) =
      placesFrom keys group lo := by
    refine List.filter_congr (fun i member => ?_)
    have below := List.mem_range'_1.mp member
    rw [List.getElem?_append_left (by omega)]
  rw [placesFrom,size,List.range'_1_concat,List.filter_append,before,last]
  by_cases same : key = group
  · simp [same]
  · simp [same]

theorem placesInside {keys : List String} {group : String} {lo i : Nat} (member : i ∈ placesFrom keys group lo) :
    lo ≤ i ∧ i < keys.length := by
  have inside := List.mem_range'_1.mp (List.mem_filter.mp member).1
  omega

theorem indicesRange (lo n : Nat) : indices lo n = (List.range' lo (n - lo)).map (fun i : Nat => (i : Int)) := by
  rw [indices,List.range'_eq_map_range,List.map_map]
  have size : ((n : Int) - lo).toNat = n - lo := by omega
  rw [size]
  rfl

end Places

section Columns
variable {T : Type} [Scalar T]

/- `held`: the indices that the column added and has not removed. -/
structure Sound (keys : List String) (group : String) (held : List Nat) (col : Column T) : Prop where
  total : col.totalCount = held.length
  place : (col.oldestIndex = -1 ∧ held = []) ∨
    ∃ lo : Nat, col.oldestIndex = lo ∧ held ≠ [] ∧ held = placesFrom keys group lo

omit [Scalar T] in
theorem emptySound {keys : List String} {group : String} {col : Column T} (total : col.totalCount = 0)
    (oldest : col.oldestIndex = -1) : Sound keys group [] col := ⟨total,.inl ⟨oldest,rfl⟩⟩

omit [Scalar T] in
theorem passSound {keys : List String} {key group : String} {held : List Nat} {col : Column T}
    (h : Sound keys group held col) (passed : key ≠ group ∨ col.oldestIndex = -1) : Sound (keys ++ [key]) group held col := by
  refine ⟨h.total,?_⟩
  rcases h.place with empty | ⟨lo,oldest,some,places⟩
  · exact .inl empty
  · have other : key ≠ group := by
      rcases passed with other | none
      · exact other
      · omega
    obtain ⟨i,member⟩ := List.exists_mem_of_ne_nil held some
    have inside := placesInside (places ▸ member)
    refine .inr ⟨lo,oldest,some,?_⟩
    rw [placesSnoc (by omega),if_neg other,List.append_nil]
    exact places

theorem addSound {keys : List String} {group : String} {held : List Nat} {col : Column T} {e : TableEvent}
    (h : Sound keys group held col) (mine : col.config.inGroup e = true) (stored : T) :
    Sound (keys ++ [group]) group (held ++ [keys.length]) (addEvent col stored e keys.length).1 := by
  refine ⟨?_,?_⟩
  · rw [addEventTotal mine,h.total,List.length_append,List.length_singleton]
    rfl
  · rw [addEventOldest mine]
    rcases h.place with ⟨empty,none⟩ | ⟨lo,oldest,some,places⟩
    · refine .inr ⟨keys.length,if_pos empty,by simp,?_⟩
      rw [placesSnoc le_rfl,placesEnd,if_pos rfl,none]
    · obtain ⟨i,member⟩ := List.exists_mem_of_ne_nil held some
      have inside := placesInside (places ▸ member)
      refine .inr ⟨lo,?_,by simp,?_⟩
      · rw [oldest,if_neg (by omega)]
      · rw [placesSnoc (by omega),if_pos rfl,← places]

def found (col : Column T) (log : List TableEvent) (range : List Int) : Nat :=
  (range.filter (fun i => col.config.inGroup (eventAt log i))).length

omit [Scalar T] in
theorem foundFrom {col : Column T} {log : List TableEvent} (lo : Nat) : found col log (indices lo log.length) =
    (placesFrom (log.map (·.groupAt col.config.preprocessorId)) col.config.group lo).length := by
  rw [found,indicesRange,List.filter_map,List.length_map,placesFrom,List.length_map]
  refine congrArg List.length (List.filter_congr (fun i member => ?_))
  have below := List.mem_range'_1.mp member
  obtain ⟨e,at',read⟩ := eventRead (by omega : i < log.length)
  simp [read,at',ColumnConfig.inGroup,beq_eq_decide]

theorem retireTotal {retire : Column T → T → T → Column T × T}
    (keeps : ∀ col stored x, (retire col stored x).1.config = col.config)
    (lowers : ∀ col stored x, (retire col stored x).1.totalCount = col.totalCount - 1) (log : List TableEvent)
    (range : List Int) (state : Column T × T) :
    (retireWith retire log range state).1.totalCount = state.1.totalCount - found state.1 log range := by
  induction range generalizing state with
  | nil => simp [retireWith,found]
  | cons i rest ih =>
      obtain ⟨col,stored⟩ := state
      unfold retireWith at ih ⊢
      rw [List.foldl_cons,ih,found,found,List.filter_cons]
      simp only
      split
      · rw [lowers,keeps,List.length_cons]
        push_cast
        ring
      · rfl

theorem removeWithEmpties {retire : Column T → T → T → Column T × T} {settle : Column T → T → T}
    (keeps : ∀ col stored x, (retire col stored x).1.config = col.config)
    (lowers : ∀ col stored x, (retire col stored x).1.totalCount = col.totalCount - 1) {col : Column T} {stored : T}
    {log : List TableEvent} {v : Int} (all : col.totalCount = found col log (indices col.oldestIndex v)) :
    (removeWith retire settle col stored log v).1.totalCount = 0 ∧
      (removeWith retire settle col stored log v).1.oldestIndex = -1 := by
  have total : (retireWith retire log (indices col.oldestIndex v) (col,stored)).1.totalCount =
      col.totalCount - found col log (indices col.oldestIndex v) := retireTotal keeps lowers log _ (col,stored)
  have none : (retireWith retire log (indices col.oldestIndex v) (col,stored)).1.totalCount = 0 := by
    rw [total,all]
    omega
  unfold removeWith
  simp only [none,if_true]
  exact ⟨trivial,trivial⟩

theorem removeLoopOutside (pick : T → T → T) {log : List TableEvent} {v i : Int} {changed : Bool} {col : Column T} {stored : T}
    (outside : ¬ (0 ≤ i ∧ i < log.length)) :
    ExtremeColumn.removeLoop pick log v i changed col stored = (col,stored) := by
  unfold ExtremeColumn.removeLoop
  rw [dif_neg outside]

theorem removeLoopEmpties (pick : T → T → T) {log : List TableEvent} {i : Nat} {col : Column T} {stored : T}
    (all : col.totalCount = found col log (indices i log.length)) (inside : i ≤ log.length) :
    (ExtremeColumn.removeLoop pick log log.length i false col stored).1.totalCount = 0 := by
  induction n : log.length - i generalizing i col with
  | zero =>
      have last : i = log.length := by omega
      rw [removeLoopOutside pick (by omega),all,last,indicesEmpty le_rfl]
      rfl
  | succ n ih =>
      have more : i < log.length := by omega
      obtain ⟨e,_,read⟩ := eventRead more
      rw [indicesStep (by exact_mod_cast more),found,List.filter_cons] at all
      unfold ExtremeColumn.removeLoop
      rw [dif_pos (by omega),if_neg (by omega)]
      simp only [read,Bool.false_eq_true,if_false] at all ⊢
      cases mine : col.config.inGroup e with
      | false =>
          simp only [mine,Bool.false_eq_true,if_false] at all ⊢
          exact @ih (i + 1) col all more (by omega)
      | true =>
          simp only [mine,if_true,List.length_cons] at all ⊢
          split
          · rw [removeLoopOutside pick (by omega)]
          · refine @ih (i + 1) {col with totalCount := col.totalCount - 1} ?_ more (by omega)
            simp only [all,found]
            push_cast
            ring

/- The two ways update_window empties a column: with the index -1 while nothing was added,
and with the end of the events. -/
theorem removeEmpties {col : Column T} {stored : T} {log : List TableEvent} {held : List Nat} {v : Int}
    (h : Sound (log.map (·.groupAt col.config.preprocessorId)) col.config.group held col)
    (where' : v = log.length ∨ (v = -1 ∧ held = [])) (reads : readsInside col log.length v) :
    (removeEvents col stored log v).1.totalCount = 0 ∧ (removeEvents col stored log v).1.oldestIndex = -1 := by
  have extreme : ∀ pick : T → T → T, (ExtremeColumn.removeLoop pick log v col.oldestIndex false col stored).1.totalCount = 0 := by
    intro pick
    rcases h.place with ⟨empty,none⟩ | ⟨lo,oldest,some,places⟩
    · rw [removeLoopOutside pick (by omega),h.total,none]
      rfl
    · obtain ⟨i,member⟩ := List.exists_mem_of_ne_nil held some
      have inside := placesInside (places ▸ member)
      rw [List.length_map] at inside
      rcases where' with rfl | ⟨_,none⟩
      · rw [oldest]
        refine removeLoopEmpties pick ?_ (by omega)
        rw [foundFrom,← places,h.total]
      · contradiction
  have all : col.config.kind ≠ .min → col.config.kind ≠ .max →
      col.totalCount = found col log (indices col.oldestIndex v) := by
    intro notMin notMax
    rcases h.place with ⟨empty,none⟩ | ⟨lo,oldest,some,places⟩
    · rcases where' with rfl | ⟨rfl,_⟩
      · have first := (reads.resolve_left notMin).resolve_left notMax (-1) (by
          rw [empty,indicesStep (by omega)]
          exact List.mem_cons_self)
        omega
      · rw [empty,indicesEmpty le_rfl,h.total,none]
        rfl
    · rcases where' with rfl | ⟨_,none⟩
      · rw [oldest,foundFrom,← places,h.total]
      · contradiction
  unfold removeEvents
  cases kind : col.config.kind with
  | sum => exact removeWithEmpties (fun _ _ _ => rfl) (fun _ _ _ => rfl) (all (by simp [kind]) (by simp [kind]))
  | count => exact removeWithEmpties (fun _ _ _ => rfl) (fun _ _ _ => rfl) (all (by simp [kind]) (by simp [kind]))
  | average => exact removeWithEmpties (fun _ _ _ => rfl) (fun _ _ _ => rfl) (all (by simp [kind]) (by simp [kind]))
  | min =>
      simp only [MinColumn.removeEvents,ExtremeColumn.removeEvents,extreme min,if_true]
      exact ⟨trivial,trivial⟩
  | max =>
      simp only [MaxColumn.removeEvents,ExtremeColumn.removeEvents,extreme max,if_true]
      exact ⟨trivial,trivial⟩

end Columns

section Windows
variable {T : Type} [Scalar T]

abbrev Ledger := String → List Nat

def heldAdd (now : Int) (window : RollingWindow T) (e : TableEvent) (index : Nat) (held : Ledger) : Ledger := fun g =>
  if !expired now e.timestamp window.windowTime && e.groupAt window.preprocessorId == g then held g ++ [index] else held g

def heldUpdate (clock : Nat → Int) (window : RollingWindow T) (allEvents : List TableEvent) (held : Ledger) : Ledger := fun g =>
  match removesAt clock window allEvents with
  | none => held g
  | some oldest => (held g).filter (fun i => oldest ≤ (i : Int))

structure WindowSound (keys : List String) (held : Ledger) (window : RollingWindow T) : Prop where
  columns : ∀ (g : String) columns, window.groupWiseAggregatedColumnMap[g]? = some columns →
    ∀ col ∈ columns, Sound keys g (held g) col
  fresh : ∀ g : String, window.groupWiseAggregatedColumnMap[g]? = none → held g = []
  idle : window.oldestIndex = -1 → ∀ g, held g = []
  within : ∀ g, ∀ i ∈ held g, i < keys.length
  bounds : -1 ≤ window.oldestIndex ∧ window.oldestIndex ≤ keys.length

def Owned (window : RollingWindow T) : Prop := ∀ (g : String) columns, window.groupWiseAggregatedColumnMap[g]? = some columns →
  ∀ col ∈ columns, col.config.preprocessorId = window.preprocessorId ∧ col.config.group = g

omit [Scalar T] in
theorem laidOwned {p : PreProcessor T} {w : Nat} {window : RollingWindow T} (laid : WindowLaid p w window) : Owned window := by
  intro g columns there col member
  obtain ⟨c,at'⟩ := List.mem_iff_getElem?.mp member
  have configs : layout window g = some (columns.map (·.config)) := by rw [layout,there]; rfl
  have config : (columns.map (·.config))[c]? = some col.config := by rw [List.getElem?_map,at']; rfl
  obtain ⟨_,id,group⟩ := laid.slots g _ c _ configs config
  exact ⟨id.trans laid.preprocessorId.symm,group⟩

theorem overColumnsMember {op : Column T → T → Column T × T} {columns : List (Column T)} {cells : List T}
    {col' : Column T} (member : col' ∈ (overColumns op columns cells).1) :
    ∃ col ∈ columns, ∃ stored, col' = (op col stored).1 := by
  induction columns generalizing cells with
  | nil => cases member
  | cons col rest ih =>
      simp only [overColumns,List.mem_cons] at member
      rcases member with rfl | later
      · exact ⟨col,List.mem_cons_self,_,rfl⟩
      · obtain ⟨other,inside,stored,same⟩ := ih later
        exact ⟨other,List.mem_cons_of_mem _ inside,stored,same⟩

variable {keys : List String} {held : Ledger} {window : RollingWindow T}

theorem addEventSound {e : TableEvent} {now : Int} {columns : List (Column T)} (features : StdMap (List T))
    (h : WindowSound keys held window) (owned : Owned window)
    (open' : window.groupWiseAggregatedColumnMap[e.groupAt window.preprocessorId]? = some columns)
    (taken : expired now e.timestamp window.windowTime = true → ∀ col ∈ columns, col.oldestIndex = -1) :
    WindowSound (keys ++ [e.groupAt window.preprocessorId]) (heldAdd now window e keys.length held)
      (window.addEvent now features e keys.length).1 := by
  unfold RollingWindow.addEvent
  cases late : expired now e.timestamp window.windowTime with
  | true =>
      have same : heldAdd now window e keys.length held = held := by
        funext g
        simp [heldAdd,late]
      rw [same]
      refine ⟨fun g columns' there col member => passSound (h.columns g columns' there col member) ?_,h.fresh,h.idle,
        fun g i member => ?_,h.bounds.1,?_⟩
      · by_cases other : e.groupAt window.preprocessorId = g
        · subst other
          cases Option.some.inj (open'.symm.trans there)
          exact .inr (taken late col member)
        · exact .inl other
      · rw [List.length_append]
        exact Nat.lt_add_right _ (h.within g i member)
      · rw [List.length_append]
        have := h.bounds.2
        push_cast
        exact this.trans (by omega)
  | false =>
      have ledger : ∀ g, heldAdd now window e keys.length held g =
          if e.groupAt window.preprocessorId = g then held g ++ [keys.length] else held g := by
        intro g
        simp [heldAdd,late]
      simp only [Bool.false_eq_true,if_false]
      refine ⟨fun g columns' there col member => ?_,fun g none => ?_,fun none => ?_,fun g i member => ?_,?_⟩
      · rw [ledger]
        rcases insertFound there with ⟨rfl,rfl⟩ | ⟨other,old⟩
        · rw [Std.ExtTreeMap.getD_eq_getD_getElem?,open',Option.getD_some] at member
          obtain ⟨before,inside,stored,rfl⟩ := overColumnsMember member
          obtain ⟨id,group⟩ := owned _ columns open' before inside
          rw [if_pos rfl]
          exact addSound (h.columns _ columns open' before inside) (by simp [ColumnConfig.inGroup,id,group]) stored
        · rw [if_neg (Ne.symm other)]
          exact passSound (h.columns g columns' old col member) (.inl (Ne.symm other))
      · rw [Std.ExtTreeMap.getElem?_insert] at none
        split at none
        · contradiction
        · rename_i different
          rw [ledger,if_neg (fun same => different (Std.LawfulEqCmp.compare_eq_iff_eq.mpr same))]
          exact h.fresh g none
      · simp only at none
        split at none
        · omega
        · contradiction
      · rw [ledger] at member
        rw [List.length_append,List.length_singleton]
        split at member
        · rcases List.mem_append.mp member with old | new
          · exact Nat.lt_succ_of_lt (h.within g i old)
          · rw [List.mem_singleton.mp new]
            exact Nat.lt_succ_self _
        · exact Nat.lt_succ_of_lt (h.within g i member)
      · have := h.bounds
        rw [List.length_append,List.length_singleton]
        push_cast
        split
        · omega
        · omega

theorem scanEnds {clock : Nat → Int} {windowTime : ℚ} {i oldest : Nat} {ended : Bool} {events : List TableEvent}
    (scanned : scan clock windowTime i events = (oldest,ended)) :
    i ≤ oldest ∧ oldest ≤ i + events.length ∧ (ended = true → oldest = i + events.length) := by
  induction events generalizing i with
  | nil =>
      cases scanned
      exact ⟨le_rfl,le_rfl,fun _ => rfl⟩
  | cons e rest ih =>
      unfold scan at scanned
      rw [List.length_cons]
      split at scanned
      · obtain ⟨low,high,last⟩ := ih scanned
        exact ⟨by omega,by omega,fun ended => by rw [last ended]; omega⟩
      · cases scanned
        exact ⟨le_rfl,by omega,fun none => by contradiction⟩

omit [Scalar T] in
theorem removesAtEnds {clock : Nat → Int} {allEvents : List TableEvent} {v : Int} (low : -1 ≤ window.oldestIndex)
    (high : window.oldestIndex ≤ allEvents.length) (removes : removesAt clock window allEvents = some v) :
    v = allEvents.length ∨ (v = -1 ∧ window.oldestIndex = -1) := by
  unfold removesAt at removes
  split at removes
  · cases removes
    exact .inr ⟨by omega,by omega⟩
  · simp only at removes
    cases scanned : scan clock window.windowTime window.oldestIndex.toNat (allEvents.drop window.oldestIndex.toNat) with
    | mk oldest ended =>
        obtain ⟨_,_,last⟩ := scanEnds scanned
        rw [List.length_drop] at last
        rw [scanned] at removes
        cases ended with
        | false => cases removes
        | true =>
            cases removes
            rw [last rfl]
            exact .inl (by omega)

theorem updateWindowCases {clock : Nat → Int} {allEvents : List TableEvent} {features features' : StdMap (List T)}
    {window' : RollingWindow T} (high : window.oldestIndex ≤ allEvents.length)
    (ok : window.updateWindow clock features allEvents = some (window',features')) :
    (∃ oldest : Nat, removesAt clock window allEvents = none ∧ oldest ≤ allEvents.length ∧
      window' = {window with oldestIndex := oldest}) ∨
    ∃ v : Int, removesAt clock window allEvents = some v ∧
      window.removeFromAll features allEvents v = some (window',features') := by
  unfold updateWindow at ok
  unfold removesAt
  split at ok
  · rename_i negative
    rw [if_pos negative]
    exact .inr ⟨window.oldestIndex,rfl,ok⟩
  · rename_i started
    rw [if_neg started]
    simp only at ok ⊢
    cases scanned : scan clock window.windowTime window.oldestIndex.toNat (allEvents.drop window.oldestIndex.toNat) with
    | mk oldest ended =>
        obtain ⟨above,below,_⟩ := scanEnds scanned
        rw [List.length_drop] at below
        rw [scanned] at ok
        cases ended with
        | false =>
            cases ok
            exact .inl ⟨oldest,rfl,by omega,rfl⟩
        | true => exact .inr ⟨oldest,rfl,ok⟩

theorem removeFromAllEmpties {allEvents : List TableEvent} {features features' : StdMap (List T)} {window' : RollingWindow T}
    {v : Int} (h : WindowSound (allEvents.map (·.groupAt window.preprocessorId)) held window) (owned : Owned window)
    (where' : v = allEvents.length ∨ (v = -1 ∧ window.oldestIndex = -1))
    (ok : window.removeFromAll features allEvents v = some (window',features')) :
    window'.oldestIndex = v ∧ ∀ (g : String) columns', window'.groupWiseAggregatedColumnMap[g]? = some columns' →
      ∀ col ∈ columns', col.totalCount = 0 ∧ col.oldestIndex = -1 := by
  unfold removeFromAll at ok
  simp only at ok
  split at ok
  · rename_i reads
    cases ok
    refine ⟨rfl,fun g columns' there col member => ?_⟩
    rw [Std.ExtTreeMap.getElem?_map,Option.map_eq_some_iff] at there
    obtain ⟨columns,before,rfl⟩ := there
    obtain ⟨old,inside,stored,rfl⟩ := overColumnsMember member
    obtain ⟨id,group⟩ := owned g columns before old inside
    have read : readsInside old allEvents.length v := by
      have group := List.all_eq_true.mp reads (g,columns) (Std.ExtTreeMap.mem_toList_iff_getElem?_eq_some.mpr before)
      exact of_decide_eq_true (List.all_eq_true.mp group old inside)
    have sound := h.columns g columns before old inside
    rw [← id,← group] at sound
    refine removeEmpties sound ?_ read
    rcases where' with last | ⟨first,none⟩
    · exact .inl last
    · rw [group]
      exact .inr ⟨first,h.idle none g⟩
  · contradiction

theorem updateSound {clock : Nat → Int} {allEvents : List TableEvent} {features features' : StdMap (List T)}
    {window' : RollingWindow T} (h : WindowSound (allEvents.map (·.groupAt window.preprocessorId)) held window)
    (owned : Owned window) (ok : window.updateWindow clock features allEvents = some (window',features')) :
    WindowSound (allEvents.map (·.groupAt window.preprocessorId)) (heldUpdate clock window allEvents held) window' := by
  have high := h.bounds.2
  rw [List.length_map] at high
  rcases updateWindowCases high ok with ⟨oldest,none,inside,rfl⟩ | ⟨v,removes,removed⟩
  · have same : heldUpdate clock window allEvents held = held := by
      funext g
      simp [heldUpdate,none]
    rw [same]
    refine ⟨h.columns,h.fresh,fun idle => ?_,h.within,?_⟩
    · simp only at idle
      omega
    · rw [List.length_map]
      exact ⟨by dsimp only; omega,by dsimp only; omega⟩
  · have where' := removesAtEnds h.bounds.1 high removes
    obtain ⟨moved,emptied⟩ := removeFromAllEmpties h owned where' removed
    have gone : ∀ g, heldUpdate clock window allEvents held g = [] := by
      intro g
      simp only [heldUpdate,removes]
      refine List.filter_eq_nil_iff.mpr (fun i member => ?_)
      have inside := h.within g i member
      rw [List.length_map] at inside
      rcases where' with rfl | ⟨_,none⟩
      · simp only [decide_eq_true_eq]
        omega
      · rw [h.idle none g] at member
        cases member
    refine ⟨fun g columns' there col member => ?_,fun g _ => gone g,fun _ g => gone g,fun g i member => ?_,?_⟩
    · obtain ⟨total,oldest⟩ := emptied g columns' there col member
      rw [gone]
      exact emptySound total oldest
    · rw [gone] at member
      cases member
    · rw [moved,List.length_map]
      omega

end Windows

end NimbleNet.ColumnCounts
