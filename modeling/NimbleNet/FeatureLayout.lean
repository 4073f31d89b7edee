import NimbleNet.ColumnTracking
import NimbleNet.PartialMaps
import NimbleNet.TableStoreInvariant

/-! Which cell of its group's feature vector each column writes, for any element type and
any operators. Windows, vectors and columns only change in what they have counted. -/
namespace NimbleNet.FeatureLayout
open AggregateColumn ColumnTracking OrderedMap PartialMaps PreProcessor RollingWindow StepRuns TableStore TableStoreInvariant

section Windows
variable {T : Type} [Scalar T]

def layout (window : RollingWindow T) (g : String) : Option (List (ColumnConfig T)) :=
  window.groupWiseAggregatedColumnMap[g]?.map (·.map (·.config))

structure SameLayout (before after : RollingWindow T) : Prop where
  preprocessorId : after.preprocessorId = before.preprocessorId
  preprocessorInfo : after.preprocessorInfo = before.preprocessorInfo
  columns : ∀ g, layout after g = layout before g

def SameSizes (before after : StdMap (List T)) : Prop :=
  ∀ g : String, after[g]?.map List.length = before[g]?.map List.length

omit [Scalar T] in
theorem sameLayoutRefl (window : RollingWindow T) : SameLayout window window := ⟨rfl,rfl,fun _ => rfl⟩

theorem overColumnsConfig {op : Column T → T → Column T × T} (keeps : ∀ col stored, (op col stored).1.config = col.config)
    (columns : List (Column T)) (features : List T) :
    (overColumns op columns features).1.map (·.config) = columns.map (·.config) := by
  induction columns generalizing features with
  | nil => rfl
  | cons col rest ih => simp only [overColumns,List.map_cons,keeps,ih]

structure Takes (window : RollingWindow T) (features : StdMap (List T)) (group : String)
    (result : RollingWindow T × StdMap (List T)) : Prop where
  layout : SameLayout window result.1
  sizes : SameSizes features result.2
  others : ∀ g : String, g ≠ group → result.2[g]? = features[g]?

theorem addEventTakes (now : Int) {window : RollingWindow T} {features : StdMap (List T)} {e : TableEvent} {columns cells}
    (open' : window.groupWiseAggregatedColumnMap[e.groupAt window.preprocessorId]? = some columns)
    (vector : features[e.groupAt window.preprocessorId]? = some cells) (index : Nat) :
    Takes window features (e.groupAt window.preprocessorId) (window.addEvent now features e index) := by
  unfold RollingWindow.addEvent
  split
  · exact ⟨sameLayoutRefl window,fun _ => rfl,fun _ _ => rfl⟩
  · simp only [Std.ExtTreeMap.getD_eq_getD_getElem?,open',vector,Option.getD_some]
    refine ⟨⟨rfl,rfl,fun g => ?_⟩,fun g => ?_,fun g other => insertOther other⟩
    · by_cases same : g = e.groupAt window.preprocessorId
      · subst same
        simp [layout,open',overColumnsConfig (fun col stored => addEventConfig col stored e index)]
      · simp only [layout,insertOther same]
    · by_cases same : g = e.groupAt window.preprocessorId
      · subst same
        simp [vector,overColumnsLength]
      · rw [insertOther same]

theorem removeFromAllKeeps {window window' : RollingWindow T} {features features' : StdMap (List T)}
    {allEvents : List TableEvent} {oldest : Int}
    (ok : window.removeFromAll features allEvents oldest = some (window',features')) :
    SameLayout window window' ∧ SameSizes features features' := by
  unfold removeFromAll at ok
  simp only at ok
  split at ok
  · cases ok
    refine ⟨⟨rfl,rfl,fun g => ?_⟩,fun g => ?_⟩
    · simp only [layout,Std.ExtTreeMap.getElem?_map]
      cases window.groupWiseAggregatedColumnMap[g]? with
      | none => rfl
      | some columns =>
          exact congrArg some (overColumnsConfig (fun col stored => removeEventsConfig col stored allEvents oldest) columns _)
    · rw [Std.ExtTreeMap.getElem?_map]
      cases features[g]? with
      | none => rfl
      | some cells => exact congrArg some (overColumnsLength _ cells)
  · contradiction

theorem updateWindowKeeps {clock : Nat → Int} {window window' : RollingWindow T} {features features' : StdMap (List T)}
    {allEvents : List TableEvent} (ok : window.updateWindow clock features allEvents = some (window',features')) :
    SameLayout window window' ∧ SameSizes features features' := by
  unfold updateWindow at ok
  split at ok
  · exact removeFromAllKeeps ok
  · simp only at ok
    split at ok
    · cases ok
      exact ⟨⟨rfl,rfl,fun _ => rfl⟩,fun _ => rfl⟩
    · exact removeFromAllKeeps ok

theorem updateWindowsKeeps {clock : Nat → Nat → Int} {allEvents : List TableEvent} {i : Nat}
    {windows windows' : List (RollingWindow T)} {features features' : StdMap (List T)}
    (ok : updateWindows clock allEvents i windows features = some (windows',features')) :
    List.Forall₂ SameLayout windows windows' ∧ SameSizes features features' := by
  induction windows generalizing i features windows' with
  | nil =>
      cases ok
      exact ⟨.nil,fun _ => rfl⟩
  | cons window rest ih =>
      simp only [updateWindows,bind,Option.bind_eq_some_iff] at ok
      obtain ⟨⟨window',middle⟩,first,⟨rest',last⟩,others,ok⟩ := ok
      cases ok
      obtain ⟨here,sizes⟩ := updateWindowKeeps first
      obtain ⟨there,sizes'⟩ := ih others
      exact ⟨.cons here there,fun g => (sizes' g).trans (sizes g)⟩

def Open (id : Nat) (group : String) (windows : List (RollingWindow T)) : Prop :=
  ∀ window ∈ windows, window.preprocessorId = id ∧ ∃ columns, window.groupWiseAggregatedColumnMap[group]? = some columns

theorem addToWindowsTakes (clock : Nat → Int) {id : Nat} {e : TableEvent} (index i : Nat)
    {windows : List (RollingWindow T)} {features : StdMap (List T)} {cells : List T} (opened : Open id (e.groupAt id) windows)
    (vector : features[e.groupAt id]? = some cells) :
    List.Forall₂ SameLayout windows (addToWindows clock e index i windows features).1 ∧
      SameSizes features (addToWindows clock e index i windows features).2 ∧
      ∀ g : String, g ≠ e.groupAt id → (addToWindows clock e index i windows features).2[g]? = features[g]? := by
  induction windows generalizing i features cells with
  | nil => exact ⟨.nil,fun _ => rfl,fun _ _ => rfl⟩
  | cons window rest ih =>
      obtain ⟨rfl,columns,open'⟩ := opened window List.mem_cons_self
      have here := addEventTakes (clock i) open' vector index
      obtain ⟨cells',vector',_⟩ := Option.map_eq_some_iff.mp ((here.sizes _).trans (by rw [vector]; rfl))
      obtain ⟨layouts,sizes,others⟩ := ih (i + 1) (fun w member => opened w (List.mem_cons_of_mem _ member)) vector'
      simp only [addToWindows]
      exact ⟨.cons here.layout layouts,fun g => (sizes g).trans (here.sizes g),
        fun g other => (others g other).trans (here.others g other)⟩

end Windows

section Groups
variable {T : Type} [Scalar T]

def Known (operations : List (Operation T)) : Prop :=
  ∀ operation ∈ operations, (kindOfOperator operation.operator).isSome = true
instance (operations : List (Operation T)) : Decidable (Known operations) := by unfold Known; infer_instance

theorem createColumnsKnown (id : Nat) (group : String) (columnIds : List Nat) (features : List T) (start i : Nat)
    (operations : List (Operation T)) :
    (createColumns id group columnIds features start i operations).2 = true ↔ Known operations := by
  induction operations generalizing i with
  | nil => simp [createColumns,Known]
  | cons operation rest ih =>
      unfold createColumns
      split
      · rename_i unknown
        simp [Known,unknown]
      · rename_i kind known
        simp only [ih,Known,List.forall_mem_cons,known,Option.isSome_some,true_and]

theorem createColumnsShort (id : Nat) (group : String) (columnIds : List Nat) (features : List T) (start i : Nat)
    (operations : List (Operation T)) :
    (createColumns id group columnIds features start i operations).1.length ≤ operations.length := by
  induction operations generalizing i with
  | nil => exact Nat.le_refl 0
  | cons operation rest ih =>
      unfold createColumns
      split
      · exact Nat.zero_le _
      · exact Nat.succ_le_succ (ih (i + 1))

theorem createColumnsAt {id : Nat} {group : String} {columnIds : List Nat} {features : List T} {start i c : Nat}
    {operations : List (Operation T)} {col : Column T}
    (at' : (createColumns id group columnIds features start i operations).1[c]? = some col) :
    ∃ operation kind, operations[c]? = some operation ∧ kindOfOperator operation.operator = some kind ∧
      col.config = ⟨kind,id,columnIds.getD (i + c) 0,group,start + (i + c),features.getD (start + (i + c)) 0⟩ := by
  induction operations generalizing i c with
  | nil => simp [createColumns] at at'
  | cons operation rest ih =>
      unfold createColumns at at'
      split at at'
      · simp at at'
      · rename_i kind known
        cases c with
        | zero =>
            cases at'
            exact ⟨operation,kind,rfl,known,rfl⟩
        | succ c =>
            have later := ih at'
            rwa [Nat.add_assoc,Nat.add_comm 1] at later

def opened (p : PreProcessor T) (group : String) (w : Nat) (window : RollingWindow T) : RollingWindow T :=
  (window.createAggregateColumnsForGroup group p.columnIds p.defaultFeature (w * p.info.columnsToAggregate.length)).1

def openedColumns (p : PreProcessor T) (group : String) (w : Nat) (window : RollingWindow T) : List (Column T) :=
  (createColumns window.preprocessorId group p.columnIds p.defaultFeature (w * p.info.columnsToAggregate.length) 0
    window.preprocessorInfo.operations).1

theorem openedMap (p : PreProcessor T) (group : String) (w : Nat) (window : RollingWindow T) :
    (opened p group w window).groupWiseAggregatedColumnMap =
      window.groupWiseAggregatedColumnMap.insert group (openedColumns p group w window) := rfl

theorem openedLayout (p : PreProcessor T) (group : String) (w : Nat) (window : RollingWindow T) (g : String) :
    layout (opened p group w window) g =
      if g = group then some ((openedColumns p group w window).map (·.config)) else layout window g := by
  unfold layout
  rw [openedMap]
  split
  · rename_i same
    subst same
    simp
  · rename_i other
    rw [insertOther other]

theorem createColumnsForGroupAt (p : PreProcessor T) (group : String) (i k : Nat) (windows : List (RollingWindow T)) :
    (createColumnsForGroup p group i windows).1[k]? = windows[k]?.map (opened p group (i + k)) := by
  induction windows generalizing i k with
  | nil => simp [createColumnsForGroup]
  | cons window rest ih =>
      simp only [createColumnsForGroup]
      cases k with
      | zero => rfl
      | succ k =>
          simp only [List.getElem?_cons_succ,ih]
          rw [Nat.add_assoc,Nat.add_comm 1]

theorem createColumnsForGroupLength (p : PreProcessor T) (group : String) (i : Nat) (windows : List (RollingWindow T)) :
    (createColumnsForGroup p group i windows).1.length = windows.length := by
  induction windows generalizing i with
  | nil => rfl
  | cons window rest ih => simp only [createColumnsForGroup,List.length_cons,ih]

theorem createColumnsForGroupKnown {p : PreProcessor T} (group : String) (i : Nat) {windows : List (RollingWindow T)}
    (infos : ∀ window ∈ windows, window.preprocessorInfo = p.info) :
    (createColumnsForGroup p group i windows).2 = true ↔ windows = [] ∨ Known p.info.operations := by
  induction windows generalizing i with
  | nil => simp [createColumnsForGroup]
  | cons window rest ih =>
      have here := createColumnsKnown window.preprocessorId group p.columnIds p.defaultFeature
        (i * p.info.columnsToAggregate.length) 0 p.info.operations
      have later := ih (i + 1) (fun w member => infos w (List.mem_cons_of_mem _ member))
      simp only [createColumnsForGroup,createAggregateColumnsForGroup,infos window List.mem_cons_self,Bool.and_eq_true,
        here,later,reduceCtorEq,false_or]
      exact ⟨And.left,fun known => ⟨known,.inr known⟩⟩

/- The columns of the w-th window have the slots from w * C on, in order. -/
structure WindowLaid (p : PreProcessor T) (w : Nat) (window : RollingWindow T) : Prop where
  preprocessorId : window.preprocessorId = p.id
  preprocessorInfo : window.preprocessorInfo = p.info
  groups : ∀ g, (layout window g).isSome = true ↔ g ∈ p.groupWiseFeatureMap
  short : ∀ g configs, layout window g = some configs → configs.length ≤ p.info.operations.length
  slots : ∀ g configs c config, layout window g = some configs → configs[c]? = some config →
    config.storeSlot = w * p.info.operations.length + c ∧ config.preprocessorId = p.id ∧ config.group = g
  operations : ∀ g configs c config, layout window g = some configs → configs[c]? = some config →
    ∃ operation, p.info.operations[c]? = some operation ∧ kindOfOperator operation.operator = some config.kind ∧
      config.columnId = p.columnIds.getD c 0

structure Laid (p : PreProcessor T) : Prop where
  default : p.defaultFeature.length = p.info.rollingWindowsInSecs.length * p.info.operations.length
  sizes : ∀ (g : String) cells, p.groupWiseFeatureMap[g]? = some cells → cells.length = p.defaultFeature.length
  count : p.rollingWindows.length = p.info.rollingWindowsInSecs.length
  windows : ∀ w window, p.rollingWindows[w]? = some window → WindowLaid p w window
  useless : p.isUseless = true ↔ (∃ g, g ∈ p.groupWiseFeatureMap) ∧ p.rollingWindows ≠ [] ∧ ¬ Known p.info.operations

theorem newLaid (id : Nat) (info : PreProcessorInfo T) (groupIds columnIds : List Nat) :
    Laid (PreProcessor.new id info groupIds columnIds) where
  default := by simp [PreProcessor.new,defaultFeatureOf,PreProcessorInfo.columnsToAggregate]
  sizes g cells found := by simp [PreProcessor.new] at found
  count := by simp [PreProcessor.new]
  windows w window at' := by
    simp only [PreProcessor.new,List.getElem?_map,Option.map_eq_some_iff] at at'
    obtain ⟨time,_,rfl⟩ := at'
    exact ⟨rfl,rfl,by simp [layout,RollingWindow.new,PreProcessor.new],by simp [layout,RollingWindow.new],
      by simp [layout,RollingWindow.new],by simp [layout,RollingWindow.new]⟩
  useless := by simp [PreProcessor.new]

omit [Scalar T] in
theorem passLaid {p : PreProcessor T} (h : Laid p) {windows : List (RollingWindow T)} {features : StdMap (List T)}
    (layouts : List.Forall₂ SameLayout p.rollingWindows windows) (sizes : SameSizes p.groupWiseFeatureMap features) :
    Laid {p with rollingWindows := windows, groupWiseFeatureMap := features} := by
  have members : ∀ g, g ∈ features ↔ g ∈ p.groupWiseFeatureMap := by
    intro g
    rw [Std.ExtTreeMap.mem_iff_isSome_getElem?,Std.ExtTreeMap.mem_iff_isSome_getElem?,← Option.isSome_map,sizes g,
      Option.isSome_map]
  refine ⟨h.default,fun g cells found => ?_,?_,fun w window at' => ?_,?_⟩
  · have size := sizes g
    rw [found] at size
    obtain ⟨old,there,same⟩ := Option.map_eq_some_iff.mp size.symm
    exact same.symm.trans (h.sizes g old there)
  · exact layouts.length_eq.symm.trans h.count
  · obtain ⟨old,there,same⟩ := LogSuffix.forall₂At layouts at'
    have laid := h.windows w old there
    exact ⟨same.preprocessorId.trans laid.preprocessorId,same.preprocessorInfo.trans laid.preprocessorInfo,
      fun g => by rw [same.columns g,laid.groups g]; exact (members g).symm,
      fun g configs at' => laid.short g configs ((same.columns g).symm.trans at'),
      fun g configs c config at' => laid.slots g configs c config ((same.columns g).symm.trans at'),
      fun g configs c config at' => laid.operations g configs c config ((same.columns g).symm.trans at')⟩
  · have none : windows = [] ↔ p.rollingWindows = [] := by
      rw [← List.length_eq_zero_iff,← List.length_eq_zero_iff,layouts.length_eq]
    simp only [h.useless,members,ne_eq,none]

theorem openedColumnsLaid {p : PreProcessor T} {group : String} {w : Nat} {window : RollingWindow T}
    (id : window.preprocessorId = p.id) (info : window.preprocessorInfo = p.info) :
    ((openedColumns p group w window).map (·.config)).length ≤ p.info.operations.length ∧
      ∀ c config, ((openedColumns p group w window).map (·.config))[c]? = some config →
        (config.storeSlot = w * p.info.operations.length + c ∧ config.preprocessorId = p.id ∧ config.group = group) ∧
          ∃ operation, p.info.operations[c]? = some operation ∧ kindOfOperator operation.operator = some config.kind ∧
            config.columnId = p.columnIds.getD c 0 := by
  unfold openedColumns
  rw [id,info]
  refine ⟨by simpa using createColumnsShort _ _ _ _ _ 0 p.info.operations,fun c config at' => ?_⟩
  rw [List.getElem?_map,Option.map_eq_some_iff] at at'
  obtain ⟨col,there,rfl⟩ := at'
  obtain ⟨operation,kind,at',known,config⟩ := createColumnsAt there
  rw [config,Nat.zero_add]
  exact ⟨⟨by simp [PreProcessorInfo.columnsToAggregate],rfl,rfl⟩,operation,at',known,rfl⟩

theorem openedLaid {p p' : PreProcessor T} {group : String} {w : Nat} {window : RollingWindow T}
    (laid : WindowLaid p w window) (id : p'.id = p.id) (info : p'.info = p.info) (ids : p'.columnIds = p.columnIds)
    (groups : p'.groupWiseFeatureMap = p.groupWiseFeatureMap.insert group p.defaultFeature) :
    WindowLaid p' w (opened p group w window) := by
  obtain ⟨short,slots⟩ := @openedColumnsLaid T _ p group w window laid.preprocessorId laid.preprocessorInfo
  refine ⟨laid.preprocessorId.trans id.symm,laid.preprocessorInfo.trans info.symm,fun g => ?_,fun g configs at' => ?_,
    fun g configs c config at' there => ?_,fun g configs c config at' there => ?_⟩
  · rw [openedLayout,groups,Std.ExtTreeMap.mem_insert,Std.LawfulEqCmp.compare_eq_iff_eq]
    by_cases same : g = group
    · simp [same]
    · rw [if_neg same,laid.groups g]
      simp [Ne.symm same]
  · rw [openedLayout] at at'
    rw [info]
    split at at'
    · cases at'
      exact short
    · exact laid.short g configs at'
  · rw [openedLayout] at at'
    rw [info,id]
    split at at'
    · rename_i same
      cases at'
      rw [same]
      exact (slots c config there).1
    · exact laid.slots g configs c config at' there
  · rw [openedLayout] at at'
    rw [info,ids]
    split at at'
    · cases at'
      exact (slots c config there).2
    · exact laid.operations g configs c config at' there

theorem openGroupLaid {p : PreProcessor T} (h : Laid p) (group : String) : Laid (p.openGroup group) := by
  unfold openGroup
  split
  · exact h
  rename_i fresh
  have infos : ∀ window ∈ p.rollingWindows, window.preprocessorInfo = p.info := by
    intro window member
    obtain ⟨w,at'⟩ := List.mem_iff_getElem?.mp member
    exact (h.windows w window at').preprocessorInfo
  have count := createColumnsForGroupLength p group 0 p.rollingWindows
  refine ⟨h.default,fun g cells found => ?_,count.trans h.count,fun w window at' => ?_,?_⟩
  · rcases insertFound found with ⟨_,rfl⟩ | ⟨_,old⟩
    · rfl
    · exact h.sizes g cells old
  · simp only [createColumnsForGroupAt,Option.map_eq_some_iff,Nat.zero_add] at at'
    obtain ⟨old,there,rfl⟩ := at'
    exact openedLaid (h.windows w old there) rfl rfl rfl rfl
  · have none : (createColumnsForGroup p group 0 p.rollingWindows).1 = [] ↔ p.rollingWindows = [] := by
      rw [← List.length_eq_zero_iff,← List.length_eq_zero_iff,count]
    have some : ∃ g, g ∈ p.groupWiseFeatureMap.insert group p.defaultFeature := ⟨group,by simp⟩
    have failed := (createColumnsForGroupKnown group 0 infos).not
    simp only [Bool.or_eq_true,Bool.not_eq_true',← Bool.not_eq_true,failed,h.useless,ne_eq,none,some,true_and,not_or]
    exact or_iff_right_of_imp And.right

theorem openGroupOpens {p : PreProcessor T} (h : Laid p) (group : String) :
    Open p.id group (p.openGroup group).rollingWindows ∧
      ∃ cells, (p.openGroup group).groupWiseFeatureMap[group]? = some cells := by
  have laid := openGroupLaid h group
  have inside : group ∈ (p.openGroup group).groupWiseFeatureMap := by
    unfold openGroup
    split
    · rename_i old
      exact Std.ExtTreeMap.contains_iff_mem.mp old
    · simp
  refine ⟨fun window member => ?_,_,Std.ExtTreeMap.getElem?_eq_some_getElem inside⟩
  obtain ⟨w,at'⟩ := List.mem_iff_getElem?.mp member
  have here := laid.windows w window at'
  obtain ⟨configs,some⟩ := Option.isSome_iff_exists.mp ((here.groups group).mpr inside)
  obtain ⟨columns,there,_⟩ := Option.map_eq_some_iff.mp some
  exact ⟨here.preprocessorId.trans (openGroupSignature p group).1,columns,there⟩

theorem openGroupOthers (p : PreProcessor T) {group g : String} (other : g ≠ group) :
    (p.openGroup group).groupWiseFeatureMap[g]? = p.groupWiseFeatureMap[g]? := by
  unfold openGroup
  split
  · rfl
  · exact insertOther other

theorem addEventLaid {p : PreProcessor T} (h : Laid p) (clock : Nat → Int) (e : TableEvent) (index : Nat) :
    Laid (p.addEvent clock e index) := by
  have laid := openGroupLaid h (e.groupAt p.id)
  obtain ⟨opens,cells,vector⟩ := openGroupOpens h (e.groupAt p.id)
  obtain ⟨layouts,sizes,_⟩ := addToWindowsTakes clock index 0 opens vector
  exact passLaid laid layouts sizes

theorem addEventOthers {p : PreProcessor T} (h : Laid p) (clock : Nat → Int) {e : TableEvent} (index : Nat) {g : String}
    (other : g ≠ e.groupAt p.id) : (p.addEvent clock e index).groupWiseFeatureMap[g]? = p.groupWiseFeatureMap[g]? := by
  obtain ⟨opens,cells,vector⟩ := openGroupOpens h (e.groupAt p.id)
  obtain ⟨_,_,others⟩ := addToWindowsTakes clock index 0 opens vector
  exact (others g other).trans (openGroupOthers p other)

theorem modelInputLaid {clock} {p p' : PreProcessor T} (h : Laid p) {groups allEvents result}
    (ok : p.getModelInput clock groups allEvents = some (p',result)) : Laid p' := by
  rcases modelInputEnds ok with ⟨_,rfl,_⟩ | ⟨_,_,_,ran,rfl,_⟩
  · exact h
  · obtain ⟨layouts,sizes⟩ := updateWindowsKeeps ran
    exact passLaid h layouts sizes

theorem addEventInfo (clock) (p : PreProcessor T) (e index) :
    (p.addEvent clock e index).info = p.info ∧ (p.addEvent clock e index).columnIds = p.columnIds := by
  unfold PreProcessor.addEvent openGroup
  split <;> exact ⟨rfl,rfl⟩

def Fed (p : PreProcessor T) : Prop := ∃ g, g ∈ p.groupWiseFeatureMap

theorem addEventFed {p : PreProcessor T} (h : Laid p) (clock : Nat → Int) (e : TableEvent) (index : Nat) :
    Fed (p.addEvent clock e index) := by
  obtain ⟨opens,cells,vector⟩ := openGroupOpens h (e.groupAt p.id)
  obtain ⟨_,sizes,_⟩ := addToWindowsTakes clock index 0 opens vector
  refine ⟨e.groupAt p.id,Std.ExtTreeMap.mem_iff_isSome_getElem?.mpr ?_⟩
  have size := sizes (e.groupAt p.id)
  rw [vector] at size
  obtain ⟨cells',there,_⟩ := Option.map_eq_some_iff.mp size
  exact Option.isSome_iff_exists.mpr ⟨cells',there⟩

theorem modelInputFed {clock} {p p' : PreProcessor T} {groups allEvents result}
    (ok : p.getModelInput clock groups allEvents = some (p',result)) :
    p'.info = p.info ∧ p'.columnIds = p.columnIds ∧ (Fed p' ↔ Fed p) := by
  rcases modelInputEnds ok with ⟨_,rfl,_⟩ | ⟨_,_,_,ran,rfl,_⟩
  · exact ⟨rfl,rfl,.rfl⟩
  · obtain ⟨_,sizes⟩ := updateWindowsKeeps ran
    refine ⟨rfl,rfl,exists_congr (fun g => ?_)⟩
    rw [Std.ExtTreeMap.mem_iff_isSome_getElem?,Std.ExtTreeMap.mem_iff_isSome_getElem?,← Option.isSome_map,sizes g,
      Option.isSome_map]

end Groups

section Stores
variable {V : ElementType → Type} [∀ d, Scalar (V d)]

structure Stored (s : TableStore V) (a : AnyPreProcessor V) : Prop where
  laid : Laid a.preprocessor
  groupIds : a.preprocessor.info.groupColumns.mapM (s.columnToIdMap[·]?) = some a.preprocessor.groupIds
  columnIds : a.preprocessor.info.operations.mapM (fun operation => s.columnToIdMap[operation.columnName]?) =
    some a.preprocessor.columnIds
  fed : Fed a.preprocessor ↔ s.allEvents ≠ []

theorem feedAt (clock index j) (ps : List (AnyPreProcessor V)) (e : TableEvent) (k : Nat) :
    (feed clock index j ps e).1[k]? = ps[k]?.map (fun a =>
      ⟨a.elementType,a.preprocessor.addEvent (clock (j + k))
        {e with groups := e.groups ++ (ps.take (k + 1)).map (groupKey · e)} index⟩) := by
  induction ps generalizing j k e with
  | nil => simp [feed]
  | cons a rest ih =>
      simp only [feed]
      cases k with
      | zero => rfl
      | succ k =>
          simp only [List.getElem?_cons_succ,ih,List.take_succ_cons,List.map_cons,List.append_assoc]
          rw [Nat.add_assoc,Nat.add_comm 1]
          rfl

theorem feedStored {s s' : TableStore V} {clock index j} {ps : List (AnyPreProcessor V)} {e : TableEvent}
    (each : ∀ a ∈ ps, Stored s a) (columns : s'.columnToIdMap = s.columnToIdMap) (some : s'.allEvents ≠ []) :
    ∀ a ∈ (feed clock index j ps e).1, Stored s' a := by
  intro a member
  obtain ⟨k,at'⟩ := List.mem_iff_getElem?.mp member
  rw [feedAt] at at'
  obtain ⟨old,there,rfl⟩ := Option.map_eq_some_iff.mp at'
  have stored := each old (List.mem_of_getElem? there)
  refine ⟨addEventLaid stored.laid _ _ _,?_,?_,iff_of_true (addEventFed stored.laid _ _ _) some⟩
  · simp only [(addEventInfo _ old.preprocessor _ _).1,columns,(addEventSignature _ old.preprocessor _ _).2]
    exact stored.groupIds
  · simp only [(addEventInfo _ old.preprocessor _ _).1,(addEventInfo _ old.preprocessor _ _).2,columns]
    exact stored.columnIds

theorem backfillInfo {T : Type} [Scalar T] (clock i) (p : PreProcessor T) (events : List TableEvent) :
    (backfill clock i p events).1.info = p.info ∧ (backfill clock i p events).1.columnIds = p.columnIds := by
  induction events generalizing i p with
  | nil => exact ⟨rfl,rfl⟩
  | cons e rest ih =>
      simp only [backfill]
      rw [(ih _ _).1,(ih _ _).2]
      exact addEventInfo _ p _ _

theorem backfillLaid {T : Type} [Scalar T] (clock i) {p : PreProcessor T} (h : Laid p) (events : List TableEvent) :
    Laid (backfill clock i p events).1 ∧ (Fed (backfill clock i p events).1 ↔ Fed p ∨ events ≠ []) := by
  induction events generalizing i p with
  | nil => exact ⟨h,by simp [backfill]⟩
  | cons e rest ih =>
      simp only [backfill]
      obtain ⟨e',event⟩ : ∃ e' : TableEvent, e' = {e with groups := e.groups ++ [p.getGroupFromEvent e]} := ⟨_,rfl⟩
      rw [← event]
      have fed := addEventFed h (clock i) e' i
      obtain ⟨laid,fed'⟩ := ih (i + 1) (addEventLaid h (clock i) e' i)
      exact ⟨laid,iff_of_true (fed'.mpr (.inl fed)) (.inr (by simp))⟩

def StoreLaid (s : TableStore V) : Prop := ∀ a ∈ s.preprocessors, Stored s a

theorem addRowLaid {s : TableStore V} (h : StoreLaid s) (clock) (r : TableRow) : StoreLaid (s.addRow clock r) := by
  unfold TableStore.addRow
  split
  · exact h
  split
  · exact h
  · exact feedStored h rfl (by simp)

theorem createLaid {s : TableStore V} (h : StoreLaid s) (clock d name) (info : PreProcessorInfo (V d)) :
    StoreLaid (s.createPreprocessor clock d name info).1 := by
  unfold TableStore.createPreprocessor
  split
  · rename_i groupIds columnIds known accepted
    obtain ⟨laid,fed⟩ := backfillLaid clock 0 (newLaid s.preprocessors.length info groupIds columnIds) s.allEvents
    obtain ⟨same,ids⟩ := backfillInfo clock 0 (PreProcessor.new s.preprocessors.length info groupIds columnIds) s.allEvents
    have signed := backfillSignature clock 0 (PreProcessor.new s.preprocessors.length info groupIds columnIds) s.allEvents
    have none : ∀ es : List TableEvent, (backfill clock 0 (PreProcessor.new s.preprocessors.length info groupIds columnIds)
        s.allEvents).2 = es → (es ≠ [] ↔ s.allEvents ≠ []) := by
      rintro es rfl
      rw [backfillEvents]
      simp
    intro a member
    rcases List.mem_append.mp member with old | new
    · exact ⟨(h a old).laid,(h a old).groupIds,(h a old).columnIds,(h a old).fed.trans (none _ rfl).symm⟩
    · cases List.mem_singleton.mp new
      refine ⟨laid,?_,?_,fed.trans ?_⟩
      · rw [same,signed.2]
        exact known
      · rw [same,ids]
        exact describedColumns accepted
      · rw [none _ rfl]
        simp [Fed,PreProcessor.new]
  · exact h

theorem modelInputStoreLaid {s s' : TableStore V} (h : StoreLaid s) {clock name rows result}
    (ok : s.getModelInput clock name rows = some (s',result)) : StoreLaid s' := by
  rcases modelInputCases ok with ⟨_,rfl,_⟩ | ⟨_,_,_,_,here,⟨_,rfl,_⟩ | ⟨_,_,_,_,ran,rfl,_⟩⟩
  · exact h
  · exact h
  · have old := h _ (List.mem_of_getElem? here)
    obtain ⟨info,ids,fed⟩ := modelInputFed ran
    intro a member
    rcases List.mem_or_eq_of_mem_set member with there | rfl
    · exact ⟨(h a there).laid,(h a there).groupIds,(h a there).columnIds,(h a there).fed⟩
    · refine ⟨modelInputLaid old.laid ran,?_,?_,fed.trans old.fed⟩
      · rw [info,(modelInputSignature ran).2]
        exact old.groupIds
      · rw [info,ids]
        exact old.columnIds

theorem stepLaid {s next : Tracked V} {a : (Nat → Nat → Int) × Action V} (h : StoreLaid s.store)
    (taken : step s a = some next) : StoreLaid next.store := by
  obtain ⟨clock,a⟩ := a
  cases a with
  | addEvent r =>
      simp only [step,Option.some.injEq] at taken
      subst taken
      split
      · exact addRowLaid h clock r
      · exact h
  | callback cells =>
      simp only [step,bind,Option.bind_eq_some_iff] at taken
      obtain ⟨⟨timestamp,row⟩,_,taken⟩ := taken
      cases timestamp with
      | none =>
          cases taken
          exact h
      | some t =>
          cases taken
          exact addRowLaid h clock ⟨t,row⟩
  | setToFillInMemory =>
      cases taken
      exact fun a member => ⟨(h a member).laid,(h a member).groupIds,(h a member).columnIds,(h a member).fed⟩
  | createPreprocessor d name info =>
      cases taken
      exact createLaid h clock d name info
  | getModelInput name rows =>
      simp only [step,bind,Option.bind_eq_some_iff] at taken
      obtain ⟨⟨store,result⟩,ran,taken⟩ := taken
      cases taken
      exact modelInputStoreLaid h ran

theorem reachableLaid {info : TableInfo} {actions : List ((Nat → Nat → Int) × Action V)} {s : Tracked V}
    (reached : run step (Tracked.new info) actions = some s) : StoreLaid s.store :=
  runInvariant _ (fun _ _ _ laid taken => stepLaid laid taken) (fun _ member => absurd member List.not_mem_nil) reached

end Stores
end NimbleNet.FeatureLayout
