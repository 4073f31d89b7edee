import NimbleNet.ColumnTracking
import NimbleNet.OrderedMap
import NimbleNet.RollingWindow

/-! One rolling window over an integer element type: what its columns count, from
the oldest index of the window on, and how an arriving event and an update change
that. Other windows write other slots of the same feature vectors. -/
namespace NimbleNet.WindowTracking
open AggregateColumn ColumnTracking LogSuffix OrderedMap RollingWindow

def held (oldest : Int) (log : List TableEvent) (config : ColumnConfig Int) : List Int :=
  if oldest = -1 then [] else (selected config.inGroup log oldest.toNat).map config.valueOf

structure GroupTracks (log : List TableEvent) (oldest : Int) (configs : List (ColumnConfig Int))
    (columns : List (Column Int)) (cells : List Int) : Prop where
  configs : columns.map Column.config = configs
  tracks : ∀ col ∈ columns, Tracks log col (cells.getD col.config.storeSlot 0) (held oldest log col.config)

/- Where the columns of a window lie: `configs g` are those of group `g`. -/
structure Layout (id size : Nat) (configs : String → List (ColumnConfig Int)) : Prop where
  group : ∀ g, ∀ config ∈ configs g, config.group = g ∧ config.preprocessorId = id
  inside : ∀ g, ∀ config ∈ configs g, config.storeSlot < size
  apart : ∀ g, ((configs g).map ColumnConfig.storeSlot).Nodup

inductive Bounds (log : List TableEvent) (last : Int) (windowTime : ℚ) : Int → Prop where
  | empty (gone : ∀ e ∈ log, expired last e.timestamp windowTime = true) : Bounds log last windowTime (-1)
  | from (lo : Nat) (inside : lo ≤ log.length)
      (gone : ∀ i e, i < lo → log[i]? = some e → expired last e.timestamp windowTime = true) :
      Bounds log last windowTime lo

structure WindowTracks (log : List TableEvent) (last : Int) (configs : String → List (ColumnConfig Int)) (size : Nat)
    (features : StdMap (List Int)) (window : RollingWindow Int) : Prop where
  bounds : Bounds log last window.windowTime window.oldestIndex
  sizes : ∀ (g : String) cells, features[g]? = some cells → cells.length = size
  groups : ∀ (g : String) cells, features[g]? = some cells →
    ∃ columns, window.groupWiseAggregatedColumnMap[g]? = some columns ∧
      GroupTracks log window.oldestIndex (configs g) columns cells
  only : ∀ (g : String) columns, window.groupWiseAggregatedColumnMap[g]? = some columns →
    ∃ cells, features[g]? = some cells

theorem expiredMono {last now timestamp : Int} {windowTime : ℚ} (later : last ≤ now)
    (gone : expired last timestamp windowTime = true) : expired now timestamp windowTime = true := by
  simp only [expired,decide_eq_true_eq] at gone ⊢
  refine gone.trans_le (MachineNumbers.toFloat32Mono ?_)
  exact_mod_cast Int.sub_le_sub_right later timestamp

theorem boundsLater {log : List TableEvent} {last now oldest : Int} {windowTime : ℚ} (h : Bounds log last windowTime oldest)
    (later : last ≤ now) : Bounds log now windowTime oldest := by
  cases h with
  | empty gone => exact .empty (fun e member => expiredMono later (gone e member))
  | «from» lo inside gone => exact .from lo inside (fun i e before at' => expiredMono later (gone i e before at'))

section Held
variable {log : List TableEvent} {config : ColumnConfig Int}

@[simp] theorem heldNone : held (-1) log config = [] := rfl

theorem heldFrom (lo : Nat) : held lo log config = (selected config.inGroup log lo).map config.valueOf := by
  simp [held]

theorem heldArrives {oldest : Int} (inside : oldest ≤ log.length) (e : TableEvent) :
    held (if oldest = -1 then (log.length : Int) else oldest) (log ++ [e]) config =
      held oldest log config ++ if config.inGroup e = true then [config.valueOf e] else [] := by
  by_cases none : oldest = -1
  · rw [if_pos none,none,heldFrom,selectedAppend _ le_rfl,selectedEnd _ le_rfl]
    cases config.inGroup e <;> simp
  · rw [if_neg none]
    unfold held
    rw [if_neg none,if_neg none,selectedAppend _ (by omega),List.map_append]
    cases config.inGroup e <;> simp

theorem heldUnseen {oldest : Int} (unseen : ∀ e ∈ log, config.inGroup e = false) : held oldest log config = [] := by
  have none : selected config.inGroup log oldest.toNat = [] :=
    List.filter_eq_nil_iff.mpr (fun e member => by simp [unseen e (List.mem_of_mem_drop member)])
  simp [held,none]

end Held

structure Kept (keep : Nat → Prop) (features features' : StdMap (List Int)) : Prop where
  back : ∀ (g : String) cells', features'[g]? = some cells' → ∃ cells, features[g]? = some cells ∧
    cells'.length = cells.length ∧ ∀ slot, keep slot → cells'.getD slot 0 = cells.getD slot 0
  forth : ∀ (g : String) cells, features[g]? = some cells → ∃ cells', features'[g]? = some cells'

theorem keptRefl (keep features) : Kept keep features features :=
  ⟨fun _ cells here => ⟨cells,here,rfl,fun _ _ => rfl⟩,fun _ cells here => ⟨cells,here⟩⟩

theorem keptTrans {keep features features' features''} (first : Kept keep features features')
    (second : Kept keep features' features'') : Kept keep features features'' where
  back g cells'' here := by
    obtain ⟨cells',middle,length',same'⟩ := second.back g cells'' here
    obtain ⟨cells,start,length,same⟩ := first.back g cells' middle
    exact ⟨cells,start,length'.trans length,fun slot kept => (same' slot kept).trans (same slot kept)⟩
  forth g cells here := by
    obtain ⟨cells',middle⟩ := first.forth g cells here
    exact second.forth g cells' middle

theorem keptWeaken {keep less : Nat → Prop} {features features'} (h : Kept keep features features')
    (weaker : ∀ slot, less slot → keep slot) : Kept less features features' where
  back g cells' here := by
    obtain ⟨cells,start,length,same⟩ := h.back g cells' here
    exact ⟨cells,start,length,fun slot kept => same slot (weaker slot kept)⟩
  forth := h.forth

theorem windowKept {log last configs size features features' window} {keep : Nat → Prop}
    (h : WindowTracks log last configs size features window) (kept : Kept keep features features')
    (own : ∀ g, ∀ config ∈ configs g, keep config.storeSlot) : WindowTracks log last configs size features' window where
  bounds := h.bounds
  sizes g cells' here := by
    obtain ⟨cells,start,length,_⟩ := kept.back g cells' here
    exact length.trans (h.sizes g cells start)
  groups g cells' here := by
    obtain ⟨cells,start,_,same⟩ := kept.back g cells' here
    obtain ⟨columns,made,tracks⟩ := h.groups g cells start
    refine ⟨columns,made,tracks.configs,fun col member => ?_⟩
    have mine : col.config ∈ configs g := tracks.configs ▸ List.mem_map_of_mem member
    rw [same _ (own g _ mine)]
    exact tracks.tracks col member
  only g columns here := by
    obtain ⟨cells,start⟩ := h.only g columns here
    exact kept.forth g cells start

theorem overTracks (op : Column Int → Int → Column Int × Int) {log : List TableEvent} {oldest : Int}
    (log' : List TableEvent) (oldest' : Int) {configs : List (ColumnConfig Int)} {columns : List (Column Int)} {cells : List Int}
    (h : GroupTracks log oldest configs columns cells) (apart : (configs.map ColumnConfig.storeSlot).Nodup)
    (inside : ∀ config ∈ configs, config.storeSlot < cells.length)
    (keeps : ∀ col stored, (op col stored).1.config = col.config)
    (each : ∀ col ∈ columns, ∀ stored, Tracks log col stored (held oldest log col.config) →
      Tracks log' (op col stored).1 (op col stored).2 (held oldest' log' col.config)) :
    GroupTracks log' oldest' configs (overColumns op columns cells).1 (overColumns op columns cells).2 := by
  have slots : separate columns := by
    have eq : columns.map (fun col => col.config.storeSlot) = configs.map ColumnConfig.storeSlot := by
      rw [← h.configs,List.map_map]
      rfl
    rw [separate,eq]
    exact apart
  have own : ∀ col ∈ columns, col.config ∈ configs := fun col member => h.configs ▸ List.mem_map_of_mem member
  rw [overColumnsColumns slots]
  constructor
  · rw [← h.configs,List.map_map]
    exact List.map_congr_left (fun col _ => keeps col _)
  · intro col' member
    obtain ⟨col,before,rfl⟩ := List.mem_map.mp member
    rw [keeps,overColumnsCell slots before (inside _ (own col before))]
    exact each col before _ (h.tracks col before)

theorem overKept {op : Column Int → Int → Column Int × Int} {log : List TableEvent} {oldest : Int}
    {configs : List (ColumnConfig Int)} {columns : List (Column Int)} {cells : List Int}
    (h : GroupTracks log oldest configs columns cells) {slot : Nat} (other : ∀ config ∈ configs, config.storeSlot ≠ slot) :
    (overColumns op columns cells).2.getD slot 0 = cells.getD slot 0 :=
  overColumnsFrame (fun col member => other col.config (h.configs ▸ List.mem_map_of_mem member)) cells

def Outside (configs : String → List (ColumnConfig Int)) (slot : Nat) : Prop :=
  ∀ g, ∀ config ∈ configs g, config.storeSlot ≠ slot

section AddEvent
variable {log : List TableEvent} {last now : Int} {configs : String → List (ColumnConfig Int)} {size : Nat}
  {features : StdMap (List Int)} {window : RollingWindow Int} {e : TableEvent}

theorem boundsInside {oldest : Int} {windowTime : ℚ} (h : Bounds log last windowTime oldest) : oldest ≤ log.length := by
  cases h with
  | empty gone => omega
  | «from» lo inside gone => exact_mod_cast inside

theorem boundsArrives {windowTime : ℚ} {oldest : Int} (h : Bounds log now windowTime oldest) (e : TableEvent) :
    Bounds (log ++ [e]) now windowTime (if oldest = -1 then (log.length : Int) else oldest) := by
  cases h with
  | empty gone =>
      rw [if_pos rfl]
      refine .from log.length (by simp) (fun i e' before at' => gone e' ?_)
      rw [List.getElem?_append_left before] at at'
      exact List.mem_of_getElem? at'
  | «from» lo inside gone =>
      rw [if_neg (by omega)]
      refine .from lo (by simp; omega) (fun i e' before at' => gone i e' before ?_)
      rwa [List.getElem?_append_left (by omega)] at at'

theorem lateTracks (h : WindowTracks log last configs size features window) (later : last ≤ now)
    (gone : expired now e.timestamp window.windowTime = true) (unused : window.oldestIndex = -1) :
    WindowTracks (log ++ [e]) now configs size features window where
  bounds := by
    have before := boundsLater h.bounds later
    rw [unused] at before ⊢
    cases before with
    | empty all =>
        refine .empty (fun e' member => ?_)
        rcases List.mem_append.mp member with old | new
        · exact all e' old
        · rw [List.mem_singleton.mp new,gone]
  sizes := h.sizes
  groups g cells here := by
    obtain ⟨columns,made,tracks⟩ := h.groups g cells here
    refine ⟨columns,made,tracks.configs,fun col member => ?_⟩
    have before := tracks.tracks col member
    rw [unused,heldNone] at before ⊢
    exact passTracks before (.inl rfl)
  only := h.only

theorem groupMine (layout : Layout window.preprocessorId size configs) {g : String} {config : ColumnConfig Int}
    (member : config ∈ configs g) : config.inGroup e = (e.groupAt window.preprocessorId == g) := by
  obtain ⟨group,id⟩ := layout.group g config member
  rw [ColumnConfig.inGroup,group,id]

theorem freshTracks (layout : Layout window.preprocessorId size configs)
    (h : WindowTracks log last configs size features window) (later : last ≤ now)
    (known : ∃ cells, features[e.groupAt window.preprocessorId]? = some cells)
    (fresh : expired now e.timestamp window.windowTime = false) :
    WindowTracks (log ++ [e]) now configs size (window.addEvent now features e log.length).2
        (window.addEvent now features e log.length).1 ∧
      Kept (Outside configs) features (window.addEvent now features e log.length).2 := by
  obtain ⟨cells,vector⟩ := known
  obtain ⟨columns,made,tracks⟩ := h.groups _ cells vector
  have inside := boundsInside h.bounds
  have own := layout.inside (e.groupAt window.preprocessorId)
  rw [← h.sizes _ cells vector] at own
  have counted := overTracks (fun col stored => AggregateColumn.addEvent col stored e log.length) (log ++ [e])
    (if window.oldestIndex = -1 then (log.length : Int) else window.oldestIndex) tracks (layout.apart _) own
    (fun col stored => addEventConfig col stored e log.length) (fun col member stored before => by
      have mine : col.config.inGroup e = true := by
        rw [groupMine layout (tracks.configs ▸ List.mem_map_of_mem member),beq_self_eq_true]
      rw [heldArrives inside,if_pos mine]
      exact addTracks before mine)
  simp only [RollingWindow.addEvent,fresh,Bool.false_eq_true,if_false,Std.ExtTreeMap.getD_eq_getD_getElem?,made,vector,
    Option.getD_some]
  refine ⟨⟨boundsArrives (boundsLater h.bounds later) e,fun g cells' here => ?_,fun g cells' here => ?_,
    fun g columns' here => ?_⟩,fun g cells' here => ?_,fun g _ here => insertKeeps here⟩
  · rcases insertFound here with ⟨_,rfl⟩ | ⟨_,there⟩
    · rw [overColumnsLength,h.sizes _ cells vector]
    · exact h.sizes g cells' there
  · rcases insertFound here with ⟨rfl,rfl⟩ | ⟨other,there⟩
    · exact ⟨_,Std.ExtTreeMap.getElem?_insert_self,counted⟩
    · obtain ⟨columns',made',tracks'⟩ := h.groups g cells' there
      refine ⟨columns',by rw [insertOther other,made'],tracks'.configs,fun col member => ?_⟩
      have apart : col.config.inGroup e = false := by
        rw [groupMine layout (tracks'.configs ▸ List.mem_map_of_mem member),beq_eq_false_iff_ne]
        exact Ne.symm other
      rw [heldArrives inside,if_neg (by simp [apart]),List.append_nil]
      exact passTracks (tracks'.tracks col member) (.inr apart)
  · rcases insertFound here with ⟨rfl,_⟩ | ⟨_,there⟩
    · exact insertKeeps vector
    · obtain ⟨cells',start⟩ := h.only g columns' there
      exact insertKeeps start
  · rcases insertFound here with ⟨rfl,rfl⟩ | ⟨_,there⟩
    · exact ⟨cells,vector,overColumnsLength columns cells,fun slot kept => overKept tracks (kept _)⟩
    · exact ⟨cells',there,rfl,fun _ _ => rfl⟩

end AddEvent

inductive Current (log : List TableEvent) (now : Int) (windowTime : ℚ) : Int → Prop
  | empty (gone : ∀ e ∈ log, expired now e.timestamp windowTime = true) : Current log now windowTime (-1)
  | from (lo : Nat) (gone : ∀ i e, i < lo → log[i]? = some e → expired now e.timestamp windowTime = true)
      (live : ∀ i e, lo ≤ i → log[i]? = some e → expired now e.timestamp windowTime = false) :
      Current log now windowTime lo

theorem heldCurrent {log now windowTime oldest} (h : Current log now windowTime oldest) (config : ColumnConfig Int) :
    held oldest log config =
      (log.filter (fun e => config.inGroup e && !expired now e.timestamp windowTime)).map config.valueOf := by
  cases h with
  | empty gone =>
      have none : log.filter (fun e => config.inGroup e && !expired now e.timestamp windowTime) = [] :=
        List.filter_eq_nil_iff.mpr (fun e member => by simp [gone e member])
      rw [none]
      rfl
  | «from» lo gone live =>
      have split := filterFrom config.inGroup (q := fun e => !expired now e.timestamp windowTime) 
        (fun i e (before : i < lo) (at' : log[i]? = some e) => by simp [gone i e before at'])
        (fun i e after at' => by simp [live i e after at'])
      rw [heldFrom,split]

/- The states in which update_window brings the window up to date: it has taken
nothing in yet, or nothing has expired since, or everything has and no Sum,
Count or Average column is empty already. -/
inductive Prompt (now : Int) (allEvents : List TableEvent) (window : RollingWindow Int) : Prop
  | unused (none : window.oldestIndex = -1)
  | live (some : allEvents.drop window.oldestIndex.toNat ≠ [])
      (all : ∀ e ∈ allEvents.drop window.oldestIndex.toNat, expired now e.timestamp window.windowTime = false)
  | gone (all : ∀ e ∈ allEvents.drop window.oldestIndex.toNat, expired now e.timestamp window.windowTime = true)
      (counting : ∀ (g : String) columns, window.groupWiseAggregatedColumnMap[g]? = some columns → ∀ col ∈ columns,
        col.oldestIndex = -1 → col.config.kind = .min ∨ col.config.kind = .max)

instance (now : Int) (allEvents : List TableEvent) (window : RollingWindow Int) : Decidable (Prompt now allEvents window) :=
  decidable_of_iff (window.oldestIndex = -1 ∨
    (allEvents.drop window.oldestIndex.toNat ≠ [] ∧
      ∀ e ∈ allEvents.drop window.oldestIndex.toNat, expired now e.timestamp window.windowTime = false) ∨
    ((∀ e ∈ allEvents.drop window.oldestIndex.toNat, expired now e.timestamp window.windowTime = true) ∧
      ∀ entry ∈ window.groupWiseAggregatedColumnMap.toList, ∀ col ∈ entry.2,
        col.oldestIndex = -1 → col.config.kind = .min ∨ col.config.kind = .max)) <| by
    constructor
    · rintro (none | ⟨some,all⟩ | ⟨all,counting⟩)
      · exact .unused none
      · exact .live some all
      · exact .gone all (fun g columns made => counting (g,columns)
          (Std.ExtTreeMap.mem_toList_iff_getElem?_eq_some.mpr made))
    · rintro (none | ⟨some,all⟩ | ⟨all,counting⟩)
      · exact .inl none
      · exact .inr (.inl ⟨some,all⟩)
      · exact .inr (.inr ⟨all,fun (g,columns) member => counting g columns
          (Std.ExtTreeMap.mem_toList_iff_getElem?_eq_some.mp member)⟩)

theorem scanGone {clock : Nat → Int} {windowTime : ℚ} {i : Nat} {events : List TableEvent}
    (gone : ∀ k e, events[k]? = some e → expired (clock (i + k)) e.timestamp windowTime = true) :
    scan clock windowTime i events = (i + events.length,true) := by
  induction events generalizing i with
  | nil => rfl
  | cons e rest ih =>
      have later : scan clock windowTime (i + 1) rest = (i + 1 + rest.length,true) := ih (fun k e' at' => by
        rw [Nat.add_assoc,Nat.add_comm 1 k]
        exact gone (k + 1) e' at')
      have here := gone 0 e rfl
      rw [Nat.add_zero] at here
      rw [scan,if_pos here,later,List.length_cons,Nat.add_right_comm,Nat.add_assoc]

section Update
variable {log : List TableEvent} {last now : Int} {configs : String → List (ColumnConfig Int)} {size : Nat}
  {features : StdMap (List Int)} {window : RollingWindow Int}

structure Updated (log : List TableEvent) (now : Int) (configs : String → List (ColumnConfig Int)) (size : Nat)
    (features : StdMap (List Int)) (window : RollingWindow Int) (result : RollingWindow Int × StdMap (List Int)) :
    Prop where
  tracks : WindowTracks log now configs size result.2 result.1
  kept : Kept (Outside configs) features result.2
  same : result.1.preprocessorId = window.preprocessorId ∧ result.1.preprocessorInfo = window.preprocessorInfo ∧
    result.1.windowTime = window.windowTime

theorem removeUpdates (layout : Layout window.preprocessorId size configs)
    (h : WindowTracks log last configs size features window) {v : Int} (bounds : Bounds log now window.windowTime v)
    (reads : ∀ (g : String) columns, window.groupWiseAggregatedColumnMap[g]? = some columns → ∀ col ∈ columns,
      readsInside col log.length v)
    (each : ∀ col stored, Tracks log col stored (held window.oldestIndex log col.config) → readsInside col log.length v →
      Tracks log (removeEvents col stored log v).1 (removeEvents col stored log v).2 (held v log col.config)) :
    ∃ result, removeFromAll window features log v = some result ∧ Updated log now configs size features window result ∧
      result.1.oldestIndex = v := by
  have safe : window.groupWiseAggregatedColumnMap.toList.all
      (fun (_,columns) => columns.all (fun col => readsInside col log.length v)) = true := by
    simp only [List.all_eq_true,Prod.forall,decide_eq_true_eq]
    intro g columns member col column
    exact reads g columns (Std.ExtTreeMap.mem_toList_iff_getElem?_eq_some.mp member) col column
  -- each group is looked up in the mapped containers through its old columns and cells
  have group : ∀ (g : String) cells', (features.map (fun group cells =>
      (removeFromGroup log v (window.groupWiseAggregatedColumnMap.getD group []) cells).2))[g]? = some cells' →
      ∃ cells columns, features[g]? = some cells ∧ window.groupWiseAggregatedColumnMap[g]? = some columns ∧
        GroupTracks log window.oldestIndex (configs g) columns cells ∧ cells' = (removeFromGroup log v columns cells).2 := by
    intro g cells' here
    rw [Std.ExtTreeMap.getElem?_map] at here
    obtain ⟨cells,vector,rfl⟩ := Option.map_eq_some_iff.mp here
    obtain ⟨columns,made,tracks⟩ := h.groups g cells vector
    exact ⟨cells,columns,vector,made,tracks,by simp [Std.ExtTreeMap.getD_eq_getD_getElem?,made]⟩
  refine ⟨_,by rw [removeFromAll,if_pos safe],⟨⟨bounds,?_,?_,?_⟩,⟨?_,?_⟩,rfl,rfl,rfl⟩,rfl⟩
  · intro g cells' here
    obtain ⟨cells,columns,vector,_,_,rfl⟩ := group g cells' here
    rw [removeFromGroup,overColumnsLength,h.sizes g cells vector]
  · intro g cells' here
    obtain ⟨cells,columns,vector,made,tracks,rfl⟩ := group g cells' here
    refine ⟨(removeFromGroup log v columns cells).1,?_,?_⟩
    · simp [Std.ExtTreeMap.getElem?_map,Std.ExtTreeMap.getD_eq_getD_getElem?,made,vector]
    · refine overTracks _ log v tracks (layout.apart g) ?_ (fun col stored => removeEventsConfig col stored log v) ?_
      · rw [h.sizes g cells vector]
        exact layout.inside g
      · exact fun col member stored before => each col stored before (reads g columns made col member)
  · intro g columns' here
    rw [Std.ExtTreeMap.getElem?_map] at here ⊢
    obtain ⟨columns,made,_⟩ := Option.map_eq_some_iff.mp here
    obtain ⟨cells,vector⟩ := h.only g columns made
    exact ⟨_,by rw [vector]; rfl⟩
  · intro g cells' here
    obtain ⟨cells,columns,vector,_,tracks,rfl⟩ := group g cells' here
    exact ⟨cells,vector,overColumnsLength columns cells,fun slot kept => overKept tracks (kept g)⟩
  · intro g cells vector
    exact ⟨_,by rw [Std.ExtTreeMap.getElem?_map,vector]; rfl⟩

theorem eventsFrom {lo : Nat} {events : List TableEvent} {P : TableEvent → Prop} (all : ∀ e ∈ events.drop lo, P e)
    (i : Nat) (e : TableEvent) (after : lo ≤ i) (at' : events[i]? = some e) : P e := by
  refine all e (List.mem_of_getElem? (i := i - lo) ?_)
  rw [List.getElem?_drop,Nat.add_sub_cancel' after,at']

theorem columnTracks (h : WindowTracks log last configs size features window) {g : String} {columns}
    (made : window.groupWiseAggregatedColumnMap[g]? = some columns) {col} (member : col ∈ columns) :
    ∃ stored, Tracks log col stored (held window.oldestIndex log col.config) := by
  obtain ⟨cells,vector⟩ := h.only g columns made
  obtain ⟨columns',made',tracks⟩ := h.groups g cells vector
  cases made.symm.trans made'
  exact ⟨_,tracks.tracks col member⟩

theorem heldEnd (log : List TableEvent) (config : ColumnConfig Int) : held (log.length : Int) log config = [] := by
  rw [heldFrom,selectedEnd _ le_rfl]
  rfl

theorem readsAll {col : Column Int} {stored : Int} {values : List Int} (h : Tracks log col stored values)
    (counting : col.oldestIndex = -1 → col.config.kind = .min ∨ col.config.kind = .max) :
    readsInside col log.length log.length := by
  by_cases none : values = []
  · rcases counting (h.empty none) with min | max
    · exact .inl min
    · exact .inr (.inl max)
  · obtain ⟨o,start,_,_⟩ := h.oldest none
    refine .inr (.inr (fun i member => ?_))
    obtain ⟨low,high⟩ := indicesMem member
    omega

theorem removeAll {col : Column Int} {stored : Int} {values : List Int} (h : Tracks log col stored values)
    (reads : readsInside col log.length log.length) :
    Tracks log (removeEvents col stored log log.length).1 (removeEvents col stored log log.length).2 [] := by
  by_cases none : values = []
  · subst none
    refine removeEmptyTracks h (.inr ?_)
    rcases reads with min | max | inside
    · exact .inl min
    · exact .inr max
    · have first : (-1 : Int) ∈ indices col.oldestIndex log.length := by
        rw [h.empty rfl,indicesStep (by omega)]
        exact List.mem_cons_self
      exact absurd (inside (-1) first).1 (by decide)
  · exact removeAllTracks h none

theorem promptUpdates (layout : Layout window.preprocessorId size configs)
    (h : WindowTracks log last configs size features window) (later : last ≤ now) (prompt : Prompt now log window) :
    ∃ result, updateWindow (fun _ => now) window features log = some result ∧
      Updated log now configs size features window result ∧
      Current log now window.windowTime result.1.oldestIndex := by
  have bounds := boundsLater h.bounds later
  generalize start : window.oldestIndex = oldest at bounds
  cases bounds with
  | empty gone =>
      have quiet : ∀ (g : String) columns, window.groupWiseAggregatedColumnMap[g]? = some columns → ∀ col ∈ columns,
          readsInside col log.length (-1) := by
        intro g columns made col member
        obtain ⟨stored,tracks⟩ := columnTracks h made member
        rw [start] at tracks
        refine .inr (.inr (fun i inside => absurd inside ?_))
        rw [tracks.empty rfl,indicesEmpty le_rfl]
        exact List.not_mem_nil
      obtain ⟨result,removed,updated,oldest⟩ := removeUpdates layout h (.empty gone) quiet
        (fun col stored tracks _ => by
          rw [start] at tracks
          exact removeEmptyTracks tracks (.inl (by decide)))
      refine ⟨result,?_,updated,oldest ▸ .empty gone⟩
      rw [updateWindow,start,if_pos (by decide),removed]
  | «from» lo inside gone =>
      unfold updateWindow
      rw [start,if_neg (by omega),Int.toNat_natCast]
      cases prompt with
      | unused none => omega
      | live some all =>
          rw [start,Int.toNat_natCast] at some all
          have stays : {window with oldestIndex := (lo : Int)} = window := by rw [← start]
          obtain ⟨e,rest,split⟩ := List.exists_cons_of_ne_nil some
          have first : scan (fun _ => now) window.windowTime lo (log.drop lo) = (lo,false) := by
            rw [split,scan,if_neg (by rw [all e (split ▸ List.mem_cons_self)]; decide)]
          simp only [first]
          refine ⟨_,rfl,?_,.from lo gone (eventsFrom all)⟩
          rw [stays]
          exact ⟨{h with bounds := boundsLater h.bounds later},keptRefl _ _,rfl,rfl,rfl⟩
      | gone all counting =>
          rw [start,Int.toNat_natCast] at all
          have ends : lo + (log.drop lo).length = log.length := by
            rw [List.length_drop]
            omega
          have whole : ∀ (i : Nat) (e : TableEvent), log[i]? = .some e → expired now e.timestamp window.windowTime = true := by
            intro i e at'
            by_cases before : i < lo
            · exact gone i e before at'
            · exact eventsFrom all i e (Nat.le_of_not_lt before) at'
          have scanned : scan (fun _ => now) window.windowTime lo (log.drop lo) = (log.length,true) := by
            rw [@scanGone (fun _ => now) _ _ _ (fun k e at' => all e (List.mem_of_getElem? at')),ends]
          simp only [scanned]
          have done : Bounds log now window.windowTime (log.length : Int) :=
            .from log.length le_rfl (fun i e _ at' => whole i e at')
          have reads : ∀ (g : String) columns, window.groupWiseAggregatedColumnMap[g]? = .some columns →
              ∀ col ∈ columns, readsInside col log.length log.length := by
            intro g columns made col member
            obtain ⟨stored,tracks⟩ := columnTracks h made member
            exact readsAll tracks (counting g columns made col member)
          obtain ⟨result,removed,updated,oldest⟩ := removeUpdates layout h done reads (fun col stored tracks inside => by
            rw [heldEnd]
            exact removeAll tracks inside)
          refine ⟨result,removed,updated,?_⟩
          rw [oldest]
          refine .from log.length (fun i e _ at' => whole i e at') (fun i e after at' => ?_)
          rw [List.getElem?_eq_none after] at at'
          contradiction

end Update

section Congr
variable {log log' : List TableEvent} {id : Nat}

def SameFor (id : Nat) (e e' : TableEvent) : Prop :=
  e'.groupAt id = e.groupAt id ∧ e'.row = e.row ∧ e'.timestamp = e.timestamp

theorem selectedCongr (same : List.Forall₂ (SameFor id) log log') {config : ColumnConfig Int}
    (mine : config.preprocessorId = id) (o : Nat) :
    (selected config.inGroup log' o).map config.valueOf = (selected config.inGroup log o).map config.valueOf := by
  refine (filterMapCongr (List.forall₂_drop o same) (fun e e' agree => ?_)).symm
  simp only [ColumnConfig.inGroup,ColumnConfig.valueOf,TableEvent.columnAt,mine,agree.1,agree.2.1,and_self]

theorem tracksCongr (same : List.Forall₂ (SameFor id) log log') {col : Column Int} (mine : col.config.preprocessorId = id)
    {stored values} (h : Tracks log col stored values) : Tracks log' col stored values where
  total := h.total
  stored := h.stored
  sum := h.sum
  empty := h.empty
  oldest used := by
    obtain ⟨o,start,inside,counted⟩ := h.oldest used
    exact ⟨o,start,same.length_eq ▸ inside,by rw [selectedCongr same mine,counted]⟩

theorem boundsCongr (same : List.Forall₂ (SameFor id) log log') {last windowTime oldest}
    (h : Bounds log last windowTime oldest) : Bounds log' last windowTime oldest := by
  have gone : ∀ (i : Nat) e', log'[i]? = some e' → ∃ e, log[i]? = some e ∧ e'.timestamp = e.timestamp := by
    intro i e' here
    obtain ⟨e,there,agree⟩ := forall₂At same here
    exact ⟨e,there,agree.2.2⟩
  cases h with
  | empty all =>
      refine .empty (fun e' member => ?_)
      obtain ⟨i,here⟩ := List.mem_iff_getElem?.mp member
      obtain ⟨e,there,time⟩ := gone i e' here
      rw [time]
      exact all e (List.mem_of_getElem? there)
  | «from» lo inside before =>
      refine .from lo (same.length_eq ▸ inside) (fun i e' less here => ?_)
      obtain ⟨e,there,time⟩ := gone i e' here
      rw [time]
      exact before i e less there

theorem windowCongr (same : List.Forall₂ (SameFor id) log log') {size configs} (layout : Layout id size configs)
    {last features window} (h : WindowTracks log last configs size features window) :
    WindowTracks log' last configs size features window where
  bounds := boundsCongr same h.bounds
  sizes := h.sizes
  groups g cells here := by
    obtain ⟨columns,made,tracks⟩ := h.groups g cells here
    refine ⟨columns,made,tracks.configs,fun col member => ?_⟩
    have mine := (layout.group g _ (tracks.configs ▸ List.mem_map_of_mem member)).2
    have values : held window.oldestIndex log' col.config = held window.oldestIndex log col.config := by
      unfold held
      rw [selectedCongr same mine]
    rw [values]
    exact tracksCongr same mine (tracks.tracks col member)
  only := h.only

end Congr

end NimbleNet.WindowTracking
