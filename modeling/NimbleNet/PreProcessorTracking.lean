import NimbleNet.TableStore
import NimbleNet.WindowTracking

/-! A whole preprocessor over an integer element type: its windows share the feature
vectors, each with its own slots, and together they hold the reference values of
every group. -/
namespace NimbleNet.PreProcessorTracking
open AggregateColumn ColumnTracking OrderedMap PreProcessor RollingWindow WindowTracking

structure Shape where
  id : Nat
  columnIds : List Nat
  info : PreProcessorInfo Int

namespace Shape

def width (shape : Shape) : Nat := shape.info.operations.length

def size (shape : Shape) : Nat := shape.info.rollingWindowsInSecs.length * shape.width

def kind (operation : Operation Int) : ColumnKind := (kindOfOperator operation.operator).getD .sum

def configs (shape : Shape) (w : Nat) (group : String) : List (ColumnConfig Int) :=
  shape.info.operations.mapIdx (fun i operation =>
    ⟨kind operation,shape.id,shape.columnIds.getD i 0,group,w * shape.width + i,operation.default⟩)

def Known (shape : Shape) : Prop := ∀ operation ∈ shape.info.operations, (kindOfOperator operation.operator).isSome

end Shape

section Slots
variable {shape : Shape}

theorem configMem {w : Nat} {g : String} {config : ColumnConfig Int} (member : config ∈ shape.configs w g) :
    ∃ i operation, shape.info.operations[i]? = some operation ∧ i < shape.width ∧
      config = ⟨Shape.kind operation,shape.id,shape.columnIds.getD i 0,g,w * shape.width + i,operation.default⟩ := by
  obtain ⟨i,inside,rfl⟩ := List.mem_mapIdx.mp member
  exact ⟨i,_,List.getElem?_eq_getElem inside,inside,rfl⟩

theorem slotInside {w i : Nat} (window : w < shape.info.rollingWindowsInSecs.length) (column : i < shape.width) :
    w * shape.width + i < shape.size := by
  calc w * shape.width + i < w * shape.width + shape.width := by omega
    _ = (w + 1) * shape.width := (Nat.succ_mul w shape.width).symm
    _ ≤ shape.size := Nat.mul_le_mul_right _ window

theorem layout {w : Nat} (window : w < shape.info.rollingWindowsInSecs.length) :
    Layout shape.id shape.size (shape.configs w) where
  group g config member := by
    obtain ⟨i,operation,_,_,rfl⟩ := configMem member
    exact ⟨rfl,rfl⟩
  inside g config member := by
    obtain ⟨i,operation,_,column,rfl⟩ := configMem member
    exact slotInside window column
  apart g := by
    have slots : (shape.configs w g).map ColumnConfig.storeSlot =
        (List.range shape.info.operations.length).map (w * shape.width + ·) :=
      List.ext_getElem (by simp [Shape.configs]) (fun i _ _ => by simp [Shape.configs])
    rw [slots]
    exact List.nodup_range.map (fun a b => Nat.add_left_cancel)

theorem slotsApart {v w : Nat} (different : v ≠ w) (g : String) {config : ColumnConfig Int}
    (member : config ∈ shape.configs v g) : Outside (shape.configs w) config.storeSlot := by
  intro g' config' member' same
  obtain ⟨i,_,_,column,rfl⟩ := configMem member
  obtain ⟨j,_,_,column',rfl⟩ := configMem member'
  simp only at same
  rcases Nat.lt_or_gt_of_ne different with less | more
  · have := Nat.mul_le_mul_right shape.width (show v + 1 ≤ w from less)
    rw [Nat.succ_mul] at this
    omega
  · have := Nat.mul_le_mul_right shape.width (show w + 1 ≤ v from more)
    rw [Nat.succ_mul] at this
    omega

theorem defaultCell {w i : Nat} {operation : Operation Int} (window : w < shape.info.rollingWindowsInSecs.length)
    (column : shape.info.operations[i]? = some operation) :
    (defaultFeatureOf shape.info)[w * shape.width + i]? = some operation.default := by
  have inside : i < shape.width := (List.getElem?_eq_some_iff.mp column).1
  have slot := slotInside window inside
  have remainder : (w * shape.width + i) % shape.width = i := by
    rw [Nat.mul_comm,Nat.mul_add_mod,Nat.mod_eq_of_lt inside]
  have width : shape.info.columnsToAggregate.length = shape.width := List.length_map _
  unfold defaultFeatureOf
  rw [List.getElem?_map,List.getElem?_range (by rw [width]; exact slot),Option.map_some,width,remainder]
  simp [PreProcessorInfo.defaultVector,List.getD_eq_getElem?_getD,column]

theorem defaultLength : (defaultFeatureOf shape.info).length = shape.size := by
  simp [defaultFeatureOf,Shape.size,Shape.width,PreProcessorInfo.columnsToAggregate]

end Slots

def overWindows (step : Nat → RollingWindow Int → StdMap (List Int) → Option (RollingWindow Int × StdMap (List Int))) :
    Nat → List (RollingWindow Int) → StdMap (List Int) → Option (List (RollingWindow Int) × StdMap (List Int))
  | _,[],features => some ([],features)
  | i,window :: rest,features => do
      let (window',features') ← step i window features
      let (rest',features'') ← overWindows step (i + 1) rest features'
      some (window' :: rest',features'')

theorem addPass (clock : Nat → Int) (e : TableEvent) (index i) (windows : List (RollingWindow Int)) (features) :
    overWindows (fun i window features => some (window.addEvent (clock i) features e index)) i windows features =
      some (addToWindows clock e index i windows features) := by
  induction windows generalizing i features with
  | nil => rfl
  | cons window rest ih => simp [overWindows,addToWindows,ih]

theorem updatePass (clock : Nat → Nat → Int) (allEvents i) (windows : List (RollingWindow Int)) (features) :
    overWindows (fun i window features => window.updateWindow (clock i) features allEvents) i windows features =
      updateWindows clock allEvents i windows features := by
  induction windows generalizing i features with
  | nil => rfl
  | cons window rest ih => simp [overWindows,updateWindows,ih]

section Pass
variable {shape : Shape} {log log' : List TableEvent} {last now : Int}
  {step : Nat → RollingWindow Int → StdMap (List Int) → Option (RollingWindow Int × StdMap (List Int))}
  (Before : Nat → RollingWindow Int → Prop) {After : RollingWindow Int → RollingWindow Int → Prop}

/- The windows from the i-th on, all tracking over the same vectors. -/
def AllTrack (shape : Shape) (log : List TableEvent) (last : Int) (features : StdMap (List Int)) (i : Nat)
    (windows : List (RollingWindow Int)) : Prop :=
  ∀ (k : Nat) window, windows[k]? = some window →
    WindowTracks log last (shape.configs (i + k)) shape.size features window

theorem passTracks
    (each : ∀ i window features, Before i window →
      WindowTracks log last (shape.configs i) shape.size features window →
      ∃ window' features', step i window features = some (window',features') ∧
        WindowTracks log' now (shape.configs i) shape.size features' window' ∧
        Kept (Outside (shape.configs i)) features features' ∧ After window window')
    {windows : List (RollingWindow Int)} {i : Nat} {features : StdMap (List Int)}
    (before : ∀ (k : Nat) window, windows[k]? = some window → Before (i + k) window)
    (tracks : AllTrack shape log last features i windows) :
    ∃ windows' features', overWindows step i windows features = some (windows',features') ∧
      AllTrack shape log' now features' i windows' ∧ List.Forall₂ After windows windows' ∧
      Kept (fun slot => ∀ k < windows.length, Outside (shape.configs (i + k)) slot) features features' := by
  induction windows generalizing i features with
  | nil => exact ⟨[],features,rfl,fun k window none => by simp at none,.nil,keptRefl _ _⟩
  | cons window rest ih =>
      obtain ⟨window',middle,moved,here,kept,after⟩ := each i window features (before 0 window rfl) (tracks 0 window rfl)
      have others : AllTrack shape log last middle (i + 1) rest := by
        intro k other at'
        have old := tracks (k + 1) other at'
        rw [← Nat.add_assoc,Nat.add_right_comm] at old
        exact windowKept old kept (fun g config member => slotsApart (by omega) g member)
      have ready : ∀ (k : Nat) other, rest[k]? = some other → Before (i + 1 + k) other := by
        intro k other at'
        rw [Nat.add_right_comm]
        exact before (k + 1) other at'
      obtain ⟨rest',features',passed,later,afters,keptRest⟩ := ih ready others
      refine ⟨window' :: rest',features',?_,?_,.cons after afters,keptTrans (keptWeaken kept ?_) (keptWeaken keptRest ?_)⟩
      · simp only [overWindows,moved,bind,Option.bind_some,passed]
      · intro k other at'
        cases k with
        | zero =>
            cases at'
            refine windowKept here keptRest (fun g config member k _ => ?_)
            exact slotsApart (by omega) g member
        | succ k =>
            have new := later k other at'
            rwa [Nat.add_right_comm,Nat.add_assoc] at new
      · exact fun slot all => all 0 (Nat.succ_pos _)
      · intro slot all k inside
        have outside := all (k + 1) (Nat.succ_lt_succ inside)
        rwa [← Nat.add_assoc,Nat.add_right_comm] at outside

end Pass

def OfShape (shape : Shape) (windowTime : ℚ) (window : RollingWindow Int) : Prop :=
  window.preprocessorId = shape.id ∧ window.preprocessorInfo = shape.info ∧ window.windowTime = windowTime

structure PreTracks (shape : Shape) (log : List TableEvent) (last : Int) (p : PreProcessor Int) : Prop where
  same : p.id = shape.id ∧ p.columnIds = shape.columnIds ∧ p.info = shape.info ∧
    p.defaultFeature = defaultFeatureOf shape.info
  useful : p.isUseless = false
  seen : ∀ e ∈ log, ∃ cells, p.groupWiseFeatureMap[e.groupAt shape.id]? = some cells
  sizes : ∀ (g : String) cells, p.groupWiseFeatureMap[g]? = some cells → cells.length = shape.size
  windows : List.Forall₂ (OfShape shape) shape.info.rollingWindowsInSecs p.rollingWindows
  tracks : AllTrack shape log last p.groupWiseFeatureMap 0 p.rollingWindows

theorem windowOf {shape : Shape} {log last} {p : PreProcessor Int} (h : PreTracks shape log last p) {k : Nat}
    {window : RollingWindow Int} (at' : p.rollingWindows[k]? = some window) :
    k < shape.info.rollingWindowsInSecs.length ∧
      OfShape shape (shape.info.rollingWindowsInSecs.getD k 0) window := by
  obtain ⟨inside,rfl⟩ := List.getElem?_eq_some_iff.mp at'
  have inside' : k < shape.info.rollingWindowsInSecs.length := h.windows.length_eq ▸ inside
  refine ⟨inside',?_⟩
  rw [List.getD_eq_getElem?_getD,List.getElem?_eq_getElem inside']
  exact List.Forall₂.get h.windows inside' inside

theorem windowTimeMem {shape : Shape} {log last} {p : PreProcessor Int} (h : PreTracks shape log last p)
    {window : RollingWindow Int} (member : window ∈ p.rollingWindows) :
    window.windowTime ∈ shape.info.rollingWindowsInSecs := by
  obtain ⟨k,at'⟩ := List.mem_iff_getElem?.mp member
  obtain ⟨inside,ofShape⟩ := windowOf h at'
  rw [ofShape.2.2,List.getD_eq_getElem?_getD,List.getElem?_eq_getElem inside]
  exact List.getElem_mem inside

theorem newTracks (id groupIds columnIds info last) :
    PreTracks ⟨id,columnIds,info⟩ [] last (PreProcessor.new id info groupIds columnIds) where
  same := ⟨rfl,rfl,rfl,rfl⟩
  useful := rfl
  seen _ member := absurd member List.not_mem_nil
  sizes g cells none := by simp [PreProcessor.new] at none
  windows := by
    rw [PreProcessor.new,List.forall₂_map_right_iff,List.forall₂_same]
    exact fun _ _ => ⟨rfl,rfl,rfl⟩
  tracks k window at' := by
    obtain ⟨windowTime,_,rfl⟩ := List.mem_map.mp (List.mem_of_getElem? at')
    exact ⟨.empty (fun _ member => absurd member List.not_mem_nil),fun g cells none => by simp [PreProcessor.new] at none,
      fun g cells none => by simp [PreProcessor.new] at none,fun g columns none => by simp [RollingWindow.new] at none⟩

theorem keptSizes {keep : Nat → Prop} {features features' : StdMap (List Int)} {size : Nat} (kept : Kept keep features features')
    (sizes : ∀ (g : String) cells, features[g]? = some cells → cells.length = size) :
    ∀ (g : String) cells, features'[g]? = some cells → cells.length = size := by
  intro g cells' here
  obtain ⟨cells,there,length,_⟩ := kept.back g cells' here
  exact length.trans (sizes g cells there)

section Open
variable {shape : Shape} {log : List TableEvent} {last : Int} {features : StdMap (List Int)} {g : String}

theorem createColumnsKnown {operations : List (Operation Int)}
    (known : ∀ operation ∈ operations, (kindOfOperator operation.operator).isSome) (id columnIds cells start i) :
    createColumns id g columnIds cells start i operations = (operations.mapIdx (fun k operation =>
      create (Shape.kind operation) id (columnIds.getD (i + k) 0) g (start + (i + k)) (cells.getD (start + (i + k)) 0)),
      true) := by
  induction operations generalizing i with
  | nil => rfl
  | cons operation rest ih =>
      obtain ⟨kind,here⟩ := Option.isSome_iff_exists.mp (known operation List.mem_cons_self)
      have later := ih (fun o member => known o (List.mem_cons_of_mem _ member)) (i + 1)
      simp only [createColumns,here,later,List.mapIdx_cons,Shape.kind,Option.getD_some,Nat.add_zero,Nat.add_assoc,
        Nat.add_comm 1]

theorem openWindow (known : shape.Known) {w : Nat} (inside : w < shape.info.rollingWindowsInSecs.length)
    (unseen : ∀ e ∈ log, e.groupAt shape.id ≠ g) {window : RollingWindow Int}
    (ofShape : window.preprocessorId = shape.id ∧ window.preprocessorInfo = shape.info)
    (h : WindowTracks log last (shape.configs w) shape.size features window) :
    ∃ columns, window.createAggregateColumnsForGroup g shape.columnIds (defaultFeatureOf shape.info) (w * shape.width) =
        ({window with groupWiseAggregatedColumnMap := window.groupWiseAggregatedColumnMap.insert g columns},true) ∧
      WindowTracks log last (shape.configs w) shape.size (features.insert g (defaultFeatureOf shape.info))
        {window with groupWiseAggregatedColumnMap := window.groupWiseAggregatedColumnMap.insert g columns} := by
  refine ⟨_,by rw [createAggregateColumnsForGroup,ofShape.1,ofShape.2,createColumnsKnown known],h.bounds,?_,?_,?_⟩
  · intro g' cells here
    rcases insertFound here with ⟨_,rfl⟩ | ⟨_,there⟩
    · exact defaultLength
    · exact h.sizes g' cells there
  · intro g' cells here
    rcases insertFound here with ⟨rfl,rfl⟩ | ⟨other,there⟩
    · refine ⟨_,Std.ExtTreeMap.getElem?_insert_self,?_,?_⟩
      · refine List.ext_getElem (by simp [Shape.configs]) (fun i left right => ?_)
        simp only [List.length_map,List.length_mapIdx] at left
        have cell := defaultCell inside (List.getElem?_eq_getElem left)
        simp [Shape.configs,create,List.getD_eq_getElem?_getD,cell]
      · intro col member
        obtain ⟨i,_,rfl⟩ := List.mem_mapIdx.mp member
        rw [heldUnseen (fun e there => ?_)]
        · exact createTracks log _ _ _ _ _ _
        · simpa [ColumnConfig.inGroup,create] using unseen e there
    · obtain ⟨columns,made,tracks⟩ := h.groups g' cells there
      exact ⟨columns,by rw [insertOther other,made],tracks⟩
  · intro g' columns here
    rcases insertFound here with ⟨rfl,_⟩ | ⟨_,there⟩
    · exact ⟨_,Std.ExtTreeMap.getElem?_insert_self⟩
    · obtain ⟨cells,vector⟩ := h.only g' columns there
      exact insertKeeps vector

def start (window : RollingWindow Int) : Int × ℚ := (window.oldestIndex,window.windowTime)

theorem openPass (known : shape.Known) (unseen : ∀ e ∈ log, e.groupAt shape.id ≠ g) {p : PreProcessor Int}
    (columnIds : p.columnIds = shape.columnIds) (info : p.info = shape.info)
    (defaults : p.defaultFeature = defaultFeatureOf shape.info) {times : List ℚ} {windows : List (RollingWindow Int)}
    (ofShape : List.Forall₂ (OfShape shape) times windows) {i : Nat}
    (inside : i + windows.length ≤ shape.info.rollingWindowsInSecs.length)
    (tracks : AllTrack shape log last features i windows) :
    ∃ windows', createColumnsForGroup p g i windows = (windows',true) ∧
      List.Forall₂ (OfShape shape) times windows' ∧
      AllTrack shape log last (features.insert g (defaultFeatureOf shape.info)) i windows' ∧
      windows'.map start = windows.map start := by
  induction ofShape generalizing i with
  | nil => exact ⟨[],rfl,.nil,fun k window none => by simp at none,rfl⟩
  | @cons windowTime window times rest here later ih =>
      simp only [List.length_cons] at inside
      obtain ⟨columns,made,tracked⟩ := openWindow known (by omega) unseen ⟨here.1,here.2.1⟩ (tracks 0 window rfl)
      obtain ⟨rest',passed,ofShape',tracks',oldest⟩ := ih (by omega : i + 1 + rest.length ≤ _) (fun k other at' => by
        have old := tracks (k + 1) other at'
        rwa [← Nat.add_assoc,Nat.add_right_comm] at old)
      have width : p.info.columnsToAggregate.length = shape.width := by rw [info]; exact List.length_map _
      refine ⟨{window with groupWiseAggregatedColumnMap := window.groupWiseAggregatedColumnMap.insert g columns} :: rest',
        ?_,.cons here ofShape',?_,by rw [List.map_cons,List.map_cons,oldest]; rfl⟩
      · simp only [createColumnsForGroup,columnIds,defaults,width,Nat.add_zero] at made ⊢
        rw [made]
        simp only [passed]
        rfl
      · intro k other at'
        cases k with
        | zero =>
            cases at'
            exact tracked
        | succ k =>
            have new := tracks' k other at'
            rwa [Nat.add_right_comm,Nat.add_assoc] at new

theorem openTracks (known : shape.Known) {p : PreProcessor Int} (h : PreTracks shape log last p) (g) :
    PreTracks shape log last (p.openGroup g) ∧ (∃ cells, (p.openGroup g).groupWiseFeatureMap[g]? = some cells) ∧
      (p.openGroup g).rollingWindows.map start = p.rollingWindows.map start := by
  unfold openGroup
  split
  · rename_i present
    exact ⟨h,⟨_,Std.ExtTreeMap.getElem?_eq_some_getElem (Std.ExtTreeMap.contains_iff_mem.mp present)⟩,rfl⟩
  · rename_i absent
    have none : p.groupWiseFeatureMap[g]? = none :=
      Std.ExtTreeMap.getElem?_eq_none (by simpa using absent)
    have unseen : ∀ e ∈ log, e.groupAt shape.id ≠ g := by
      rintro e member rfl
      obtain ⟨cells,vector⟩ := h.seen e member
      rw [none] at vector
      contradiction
    obtain ⟨windows',made,ofShape,tracks,oldest⟩ := openPass known unseen h.same.2.1 h.same.2.2.1 h.same.2.2.2
      h.windows (by rw [Nat.zero_add,h.windows.length_eq]) h.tracks
    rw [made]
    refine ⟨⟨h.same,?_,?_,?_,ofShape,?_⟩,⟨_,Std.ExtTreeMap.getElem?_insert_self⟩,oldest⟩
    · simp [h.useful]
    · intro e member
      obtain ⟨cells,vector⟩ := h.seen e member
      exact insertKeeps vector
    · intro g' cells here
      rcases insertFound here with ⟨_,rfl⟩ | ⟨_,there⟩
      · rw [h.same.2.2.2,defaultLength]
      · exact h.sizes g' cells there
    · rw [h.same.2.2.2]
      exact tracks

end Open

def Same (window window' : RollingWindow Int) : Prop :=
  window'.preprocessorId = window.preprocessorId ∧ window'.preprocessorInfo = window.preprocessorInfo ∧
    window'.windowTime = window.windowTime

theorem ofShapeAfter {shape : Shape} {After : RollingWindow Int → RollingWindow Int → Prop}
    (same : ∀ window window', After window window' → Same window window') {times : List ℚ}
    {windows windows' : List (RollingWindow Int)} (ofShape : List.Forall₂ (OfShape shape) times windows)
    (after : List.Forall₂ After windows windows') : List.Forall₂ (OfShape shape) times windows' := by
  induction ofShape generalizing windows' with
  | nil =>
      cases after
      exact .nil
  | cons here _ ih =>
      cases after with
      | cons moved rest =>
          obtain ⟨id,info,time⟩ := same _ _ moved
          exact .cons ⟨id.trans here.1,info.trans here.2.1,time.trans here.2.2⟩ (ih rest)

section AddEvent
variable {shape : Shape} {log : List TableEvent} {last now : Int} {p : PreProcessor Int} {e : TableEvent}

def Arrives (now : Int) (e : TableEvent) (window : RollingWindow Int) : Prop :=
  expired now e.timestamp window.windowTime = false ∨ window.oldestIndex = -1

def Takes (now : Int) (e : TableEvent) (window window' : RollingWindow Int) : Prop :=
  Same window window' ∧ (window'.oldestIndex = window.oldestIndex ∨ expired now e.timestamp window.windowTime = false)

theorem addEventSame (now) (window : RollingWindow Int) (features e index) :
    Same window (window.addEvent now features e index).1 := by
  unfold RollingWindow.addEvent
  split <;> exact ⟨rfl,rfl,rfl⟩

theorem addWindow {i : Nat} (inside : i < shape.info.rollingWindowsInSecs.length) {window : RollingWindow Int}
    (id : window.preprocessorId = shape.id) (arrives : Arrives now e window)
    (opened : ∃ columns, window.groupWiseAggregatedColumnMap[e.groupAt shape.id]? = some columns) {features}
    (h : WindowTracks log last (shape.configs i) shape.size features window) (later : last ≤ now) :
    ∃ window' features', some (window.addEvent now features e log.length) = some (window',features') ∧
      WindowTracks (log ++ [e]) now (shape.configs i) shape.size features' window' ∧
      Kept (Outside (shape.configs i)) features features' ∧ Takes now e window window' := by
  cases gone : expired now e.timestamp window.windowTime with
  | true =>
      have unused : window.oldestIndex = -1 := arrives.resolve_left (by simp [gone])
      refine ⟨window,features,?_,lateTracks h later gone unused,keptRefl _ _,⟨rfl,rfl,rfl⟩,.inl rfl⟩
      rw [RollingWindow.addEvent,if_pos gone]
  | false =>
      obtain ⟨columns,made⟩ := opened
      obtain ⟨tracks,kept⟩ := freshTracks (id ▸ layout inside) h later (id ▸ h.only _ columns made) gone
      exact ⟨_,_,rfl,tracks,kept,addEventSame now window features e log.length,.inr gone⟩

theorem startMem {windows windows' : List (RollingWindow Int)} (same : windows'.map start = windows.map start) {P : Int × ℚ → Prop}
    (all : ∀ window ∈ windows, P (start window)) : ∀ window ∈ windows', P (start window) := by
  intro window member
  have there : start window ∈ windows.map start := same ▸ List.mem_map_of_mem member
  obtain ⟨old,before,eq⟩ := List.mem_map.mp there
  exact eq ▸ all old before

theorem addTracks (known : shape.Known) (h : PreTracks shape log last p) (later : last ≤ now)
    (arrives : ∀ window ∈ p.rollingWindows, Arrives now e window) :
    PreTracks shape (log ++ [e]) now (p.addEvent (fun _ => now) e log.length) ∧
      ∃ windows, windows.map start = p.rollingWindows.map start ∧
        List.Forall₂ (Takes now e) windows (p.addEvent (fun _ => now) e log.length).rollingWindows := by
  obtain ⟨h',⟨cells,vector⟩,starts⟩ := openTracks known h (e.groupAt shape.id)
  unfold PreProcessor.addEvent
  rw [h.same.1]
  generalize p.openGroup (e.groupAt shape.id) = q at h' vector starts
  have arrives' : ∀ window ∈ q.rollingWindows, Arrives now e window :=
    startMem starts (P := fun s => expired now e.timestamp s.2 = false ∨ s.1 = -1) arrives
  have before : ∀ (k : Nat) window, q.rollingWindows[k]? = some window →
      0 + k < shape.info.rollingWindowsInSecs.length ∧ window.preprocessorId = shape.id ∧ Arrives now e window ∧
        ∃ columns, window.groupWiseAggregatedColumnMap[e.groupAt shape.id]? = some columns := by
    intro k window at'
    obtain ⟨inside,ofShape⟩ := windowOf h' at'
    obtain ⟨columns,made,_⟩ := (h'.tracks k window at').groups _ cells vector
    exact ⟨by omega,ofShape.1,arrives' window (List.mem_of_getElem? at'),columns,made⟩
  obtain ⟨windows',features',passed,tracks,takes,kept⟩ := passTracks
    (fun i window => i < shape.info.rollingWindowsInSecs.length ∧ window.preprocessorId = shape.id ∧
      Arrives now e window ∧ ∃ columns, window.groupWiseAggregatedColumnMap[e.groupAt shape.id]? = some columns)
    (fun i window features before h => addWindow before.1 before.2.1 before.2.2.1 before.2.2.2 h later) before h'.tracks
  rw [addPass,Option.some.injEq] at passed
  simp only [passed]
  refine ⟨⟨h'.same,h'.useful,?_,keptSizes kept h'.sizes,ofShapeAfter (fun _ _ t => t.1) h'.windows takes,tracks⟩,
    _,starts,takes⟩
  intro e' member
  rcases List.mem_append.mp member with old | new
  · obtain ⟨cells',there⟩ := h'.seen e' old
    exact kept.forth _ cells' there
  · rw [List.mem_singleton.mp new]
    exact kept.forth _ cells vector

end AddEvent

theorem blockAt {α β : Type} {blocks : List α} {content : α → List β} {size : Nat}
    (sizes : ∀ a ∈ blocks, (content a).length = size) {k j : Nat} {a : α} (block : blocks[k]? = some a) (inside : j < size) :
    (blocks.flatMap content)[k * size + j]? = (content a)[j]? := by
  induction blocks generalizing k with
  | nil => simp at block
  | cons first rest ih =>
      have here := sizes first List.mem_cons_self
      rw [List.flatMap_cons]
      cases k with
      | zero =>
          cases block
          rw [Nat.zero_mul,Nat.zero_add,List.getElem?_append_left (by omega)]
      | succ k =>
          rw [Nat.succ_mul,List.getElem?_append_right (by omega),here,
            ← ih (fun b member => sizes b (List.mem_cons_of_mem _ member)) block]
          congr 1
          omega

theorem preCongr {shape : Shape} {log log' : List TableEvent} {last p} (same : List.Forall₂ (SameFor shape.id) log log')
    (h : PreTracks shape log last p) : PreTracks shape log' last p where
  same := h.same
  useful := h.useful
  seen e' member := by
    obtain ⟨i,here⟩ := List.mem_iff_getElem?.mp member
    obtain ⟨e,there,agree⟩ := LogSuffix.forall₂At same here
    rw [agree.1]
    exact h.seen e (List.mem_of_getElem? there)
  sizes := h.sizes
  windows := h.windows
  tracks k window at' := by
    refine windowCongr same (layout ?_) (h.tracks k window at')
    simpa using (windowOf h at').1

theorem preLater {shape : Shape} {log : List TableEvent} {last now p} (h : PreTracks shape log last p) (later : last ≤ now) :
    PreTracks shape log now p :=
  {h with tracks := fun k window at' =>
    {h.tracks k window at' with bounds := boundsLater (h.tracks k window at').bounds later}}

section Backfill
variable {shape : Shape} {now : Int}

def Started (now : Int) (done : List TableEvent) (p : PreProcessor Int) : Prop :=
  ∀ window ∈ p.rollingWindows, window.oldestIndex ≠ -1 → ∃ e ∈ done, expired now e.timestamp window.windowTime = false

/- No event that has left the window comes after one that is inside. -/
def OldestFirst (now : Int) (windowTime : ℚ) (timestamps : List Int) : Prop :=
  timestamps.Pairwise (fun t t' => expired now t' windowTime = true → expired now t windowTime = true)

theorem backfillTracks (known : shape.Known) {events done : List TableEvent} {p : PreProcessor Int}
    (h : PreTracks shape done now p) (started : Started now done p)
    (ordered : ∀ windowTime ∈ shape.info.rollingWindowsInSecs,
      OldestFirst now windowTime ((done ++ events).map TableEvent.timestamp)) :
    PreTracks shape (done ++ (TableStore.backfill (fun _ _ => now) done.length p events).2) now
      (TableStore.backfill (fun _ _ => now) done.length p events).1 := by
  induction events generalizing done p with
  | nil => rwa [TableStore.backfill,List.append_nil]
  | cons e rest ih =>
      obtain ⟨e',event⟩ : ∃ e' : TableEvent, e' = {e with groups := e.groups ++ [p.getGroupFromEvent e]} := ⟨_,rfl⟩
      have time : e'.timestamp = e.timestamp := by rw [event]
      have arrives : ∀ window ∈ p.rollingWindows, Arrives now e' window := by
        intro window member
        refine or_iff_not_imp_right.mpr (fun used => ?_)
        obtain ⟨e₀,before,live⟩ := started window member used
        have windowTime := windowTimeMem h member
        have order := (List.pairwise_append.mp (List.map_append ▸ ordered _ windowTime)).2.2 e₀.timestamp
          (List.mem_map_of_mem before) e.timestamp (List.mem_map_of_mem List.mem_cons_self)
        rw [time]
        by_contra gone
        rw [order (by simpa using gone)] at live
        contradiction
      obtain ⟨h',windows,starts,takes⟩ := addTracks known h le_rfl arrives
      have started' : Started now (done ++ [e']) (p.addEvent (fun _ => now) e' done.length) := by
        intro window' member used
        obtain ⟨i,here⟩ := List.mem_iff_getElem?.mp member
        obtain ⟨window,there,same,oldest⟩ := LogSuffix.forall₂At takes here
        rw [same.2.2]
        rcases oldest with stays | live
        · have held := startMem starts (P := fun s => s.1 ≠ -1 → ∃ e ∈ done, expired now e.timestamp s.2 = false) started
            window (List.mem_of_getElem? there) (fun unused => used (stays.trans unused))
          obtain ⟨e₀,before,live⟩ := held
          exact ⟨e₀,List.mem_append_left _ before,live⟩
        · exact ⟨e',by simp,live⟩
      have later := ih h' started' (fun windowTime member => by
        have order := ordered windowTime member
        simpa [time] using order)
      simp only [List.length_append,List.length_singleton,List.append_assoc,List.singleton_append] at later
      simp only [TableStore.backfill,← event]
      exact later

end Backfill

section ModelInput
variable {shape : Shape} {log : List TableEvent} {last now : Int} {p : PreProcessor Int}

def liveValues (shape : Shape) (log : List TableEvent) (now : Int) (windowTime : ℚ) (g : String) (c : Nat) : List Int :=
  (log.filter (fun e => e.groupAt shape.id == g && !expired now e.timestamp windowTime)).map
    (fun e => Scalar.getAs (e.columnAt (shape.columnIds.getD c 0)))

def HoldsReference (shape : Shape) (log : List TableEvent) (now : Int) (groups : List String) (data : List Int) : Prop :=
  ∀ (k : Nat) g, groups[k]? = some g → ∀ (w : Nat) windowTime, shape.info.rollingWindowsInSecs[w]? = some windowTime →
    ∀ (c : Nat) operation, shape.info.operations[c]? = some operation →
      data[k * shape.size + (w * shape.width + c)]? =
        some (reference (Shape.kind operation) operation.default (liveValues shape log now windowTime g c))

def Refreshed (log : List TableEvent) (now : Int) (window window' : RollingWindow Int) : Prop :=
  Same window window' ∧ Current log now window'.windowTime window'.oldestIndex

theorem updateWindow' {i : Nat} (inside : i < shape.info.rollingWindowsInSecs.length) {window : RollingWindow Int}
    (id : window.preprocessorId = shape.id) (prompt : Prompt now log window) {features}
    (h : WindowTracks log last (shape.configs i) shape.size features window) (later : last ≤ now) :
    ∃ window' features', window.updateWindow (fun _ => now) features log = some (window',features') ∧
      WindowTracks log now (shape.configs i) shape.size features' window' ∧
      Kept (Outside (shape.configs i)) features features' ∧ Refreshed log now window window' := by
  obtain ⟨⟨window',features'⟩,moved,updated,current⟩ := promptUpdates (id ▸ layout inside) h later prompt
  exact ⟨window',features',moved,updated.tracks,updated.kept,updated.same,updated.same.2.2 ▸ current⟩

theorem cellReference {w : Nat} {window : RollingWindow Int} {features : StdMap (List Int)}
    (inside : w < shape.info.rollingWindowsInSecs.length)
    (h : WindowTracks log now (shape.configs w) shape.size features window)
    (current : Current log now window.windowTime window.oldestIndex) {g : String} {cells : List Int}
    (vector : features[g]? = some cells) {c : Nat} {operation : Operation Int}
    (column : shape.info.operations[c]? = some operation) :
    cells[w * shape.width + c]? = some (reference (Shape.kind operation) operation.default
      (liveValues shape log now window.windowTime g c)) := by
  obtain ⟨columns,_,tracks⟩ := h.groups g cells vector
  have place : (columns.map Column.config)[c]? =
      some ⟨Shape.kind operation,shape.id,shape.columnIds.getD c 0,g,w * shape.width + c,operation.default⟩ := by
    rw [tracks.configs,Shape.configs,List.getElem?_mapIdx,column]
    rfl
  rw [List.getElem?_map,Option.map_eq_some_iff] at place
  obtain ⟨col,at',config⟩ := place
  have stored := (tracks.tracks col (List.mem_of_getElem? at')).stored
  rw [heldCurrent current,config] at stored
  have slot : w * shape.width + c < cells.length := by
    rw [h.sizes g cells vector]
    exact slotInside inside (List.getElem?_eq_some_iff.mp column).1
  rw [List.getD_eq_getElem?_getD,List.getElem?_eq_getElem slot,Option.getD_some] at stored
  rw [List.getElem?_eq_getElem slot,stored]
  rfl

theorem modelInputTracks (h : PreTracks shape log last p) (later : last ≤ now)
    (prompt : ∀ window ∈ p.rollingWindows, Prompt now log window) (groups : List String) :
    ∃ p' input, p.getModelInput (fun _ _ => now) groups log = some (p',some input) ∧ PreTracks shape log now p' ∧
      HoldsReference shape log now groups input.data := by
  have before : ∀ (k : Nat) window, p.rollingWindows[k]? = some window →
      0 + k < shape.info.rollingWindowsInSecs.length ∧ window.preprocessorId = shape.id ∧ Prompt now log window := by
    intro k window at'
    obtain ⟨inside,ofShape⟩ := windowOf h at'
    exact ⟨by omega,ofShape.1,prompt window (List.mem_of_getElem? at')⟩
  obtain ⟨windows',features',passed,tracks,refreshed,kept⟩ := passTracks
    (fun i window => i < shape.info.rollingWindowsInSecs.length ∧ window.preprocessorId = shape.id ∧
      Prompt now log window)
    (fun i window features before h => updateWindow' before.1 before.2.1 before.2.2 h later) before h.tracks
  rw [updatePass (fun _ _ => now)] at passed
  have after : PreTracks shape log now {p with rollingWindows := windows', groupWiseFeatureMap := features'} :=
    ⟨h.same,h.useful,fun e member => by
      obtain ⟨cells,there⟩ := h.seen e member
      exact kept.forth _ cells there,keptSizes kept h.sizes,ofShapeAfter (fun _ _ t => t.1) h.windows refreshed,tracks⟩
  have answered : p.getModelInput (fun _ _ => now) groups log =
      some ({p with rollingWindows := windows', groupWiseFeatureMap := features'},
        some ⟨groups.flatMap (fun group => features'.getD group p.defaultFeature),
          MachineNumbers.wrap32 (groups.length * p.defaultFeature.length)⟩) := by
    rw [PreProcessor.getModelInput,if_neg (by simp [h.useful]),passed]
    rfl
  refine ⟨_,_,answered,after,?_⟩
  intro k g group w windowTime time c operation column
  have wInside : w < shape.info.rollingWindowsInSecs.length := (List.getElem?_eq_some_iff.mp time).1
  have slot := slotInside wInside (List.getElem?_eq_some_iff.mp column).1
  have sizes : ∀ g ∈ groups, (features'.getD g p.defaultFeature).length = shape.size := by
    intro g _
    rw [Std.ExtTreeMap.getD_eq_getD_getElem?]
    cases vector : features'[g]? with
    | none => rw [Option.getD_none,h.same.2.2.2,defaultLength]
    | some cells => exact after.sizes g cells vector
  rw [blockAt sizes group slot,Std.ExtTreeMap.getD_eq_getD_getElem?]
  cases vector : features'[g]? with
  | none =>
      have unseen : liveValues shape log now windowTime g c = [] := by
        refine List.map_eq_nil_iff.mpr (List.filter_eq_nil_iff.mpr (fun e member both => ?_))
        obtain ⟨cells,there⟩ := after.seen e member
        simp only [Bool.and_eq_true,beq_iff_eq] at both
        rw [both.1,vector] at there
        contradiction
      rw [Option.getD_none,h.same.2.2.2,defaultCell wInside column,unseen,referenceNil]
  | some cells =>
      have inside : w < windows'.length := after.windows.length_eq ▸ wInside
      have at' := List.getElem?_eq_getElem inside
      have ofShape := (windowOf after at').2
      rw [List.getD_eq_getElem?_getD,time,Option.getD_some] at ofShape
      have old : w < p.rollingWindows.length := refreshed.length_eq ▸ inside
      have current : Current log now windows'[w].windowTime windows'[w].oldestIndex :=
        (List.Forall₂.get refreshed old inside).2
      have held := cellReference wInside (by simpa using tracks w _ at') current vector column
      rwa [ofShape.2.2] at held

end ModelInput

end NimbleNet.PreProcessorTracking
