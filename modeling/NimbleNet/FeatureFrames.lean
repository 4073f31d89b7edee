import NimbleNet.FeatureLayout

/-! What add_row and create_preprocessor leave alone: add_row writes the vector of the
event's group only, each column there its own cell; create_preprocessor writes nothing
of the preprocessors that are there. -/
namespace NimbleNet.FeatureFrames
open AggregateColumn FeatureLayout PreProcessor RollingWindow StepRuns TableStore TableStoreInvariant

section Cells
variable {T : Type} [Scalar T]

def ColumnAt (windows : List (RollingWindow T)) (group : String) (w c : Nat) (window : RollingWindow T) (col : Column T) :
    Prop :=
  windows[w]? = some window ∧ ∃ columns, window.groupWiseAggregatedColumnMap[group]? = some columns ∧ columns[c]? = some col

def InSlots (C i : Nat) (group : String) (windows : List (RollingWindow T)) : Prop :=
  ∀ w c window col, ColumnAt windows group w c window col → col.config.storeSlot = (i + w) * C + c ∧ c < C

theorem blocksApart {C a b c c' : Nat} (inside : c < C) (inside' : c' < C) (same : a * C + c = b * C + c') : a = b := by
  have left : (a * C + c) / C = a := by rw [Nat.mul_comm,Nat.mul_add_div (by omega),Nat.div_eq_of_lt inside,Nat.add_zero]
  have right : (b * C + c') / C = b := by rw [Nat.mul_comm,Nat.mul_add_div (by omega),Nat.div_eq_of_lt inside',Nat.add_zero]
  rw [← left,same,right]

omit [Scalar T] in
theorem separateSlots {start : Nat} {columns : List (Column T)}
    (slots : ∀ c col, columns[c]? = some col → col.config.storeSlot = start + c) : separate columns := by
  have range : columns.map (fun col => col.config.storeSlot) = List.range' start columns.length := by
    refine List.ext_getElem? (fun c => ?_)
    rw [List.getElem?_map]
    cases at' : columns[c]? with
    | none =>
        have outside := List.getElem?_eq_none_iff.mp at'
        simp [outside]
    | some col =>
        obtain ⟨inside,_⟩ := List.getElem?_eq_some_iff.mp at'
        simp [List.getElem?_range' inside,slots c col at']
  unfold separate
  rw [range]
  exact List.nodup_range'

theorem addEventCells (now : Int) {window : RollingWindow T} {features : StdMap (List T)} {e : TableEvent}
    {columns : List (Column T)} {cells : List T} (index start : Nat)
    (open' : window.groupWiseAggregatedColumnMap[e.groupAt window.preprocessorId]? = some columns)
    (vector : features[e.groupAt window.preprocessorId]? = some cells)
    (slots : ∀ c col, columns[c]? = some col → col.config.storeSlot = start + c ∧ start + c < cells.length) :
    ∃ after, (window.addEvent now features e index).2[e.groupAt window.preprocessorId]? = some after ∧
      after.length = cells.length ∧
      (∀ slot, (∀ col ∈ columns, col.config.storeSlot ≠ slot) → after.getD slot 0 = cells.getD slot 0) ∧
      ∀ c col, columns[c]? = some col → after.getD (start + c) 0 =
        if expired now e.timestamp window.windowTime then cells.getD (start + c) 0
        else (AggregateColumn.addEvent col (cells.getD (start + c) 0) e index).2 := by
  unfold RollingWindow.addEvent
  split
  · exact ⟨cells,vector,rfl,fun _ _ => rfl,fun _ _ _ => rfl⟩
  · simp only [Std.ExtTreeMap.getD_eq_getD_getElem?,open',vector,Option.getD_some,Std.ExtTreeMap.getElem?_insert_self]
    refine ⟨_,rfl,overColumnsLength columns cells,fun slot others => overColumnsFrame others cells,fun c col at' => ?_⟩
    obtain ⟨slot,inside⟩ := slots c col at'
    have apart := separateSlots (fun c col at' => (slots c col at').1)
    rw [← slot] at inside ⊢
    exact overColumnsCell apart (List.mem_of_getElem? at') inside

theorem addToWindowsCells (clock : Nat → Int) {id C : Nat} {e : TableEvent} (index i : Nat)
    {windows : List (RollingWindow T)} {features : StdMap (List T)} {cells : List T} (opened : Open id (e.groupAt id) windows)
    (vector : features[e.groupAt id]? = some cells) (slots : InSlots C i (e.groupAt id) windows)
    (room : (i + windows.length) * C ≤ cells.length) :
    ∃ after, (addToWindows clock e index i windows features).2[e.groupAt id]? = some after ∧ after.length = cells.length ∧
      (∀ slot, (∀ w c window col, ColumnAt windows (e.groupAt id) w c window col → (i + w) * C + c ≠ slot) →
        after.getD slot 0 = cells.getD slot 0) ∧
      ∀ w c window col, ColumnAt windows (e.groupAt id) w c window col → after.getD ((i + w) * C + c) 0 =
        if expired (clock (i + w)) e.timestamp window.windowTime then cells.getD ((i + w) * C + c) 0
        else (AggregateColumn.addEvent col (cells.getD ((i + w) * C + c) 0) e index).2 := by
  induction windows generalizing i features cells with
  | nil => exact ⟨cells,vector,rfl,fun _ _ => rfl,fun w c window col at' => by simp [ColumnAt] at at'⟩
  | cons window rest ih =>
      obtain ⟨rfl,columns,open'⟩ := opened window List.mem_cons_self
      have first : ∀ c col, columns[c]? = some col → col.config.storeSlot = i * C + c ∧ c < C := fun c col at' =>
        slots 0 c window col ⟨rfl,columns,open',at'⟩
      have inside : ∀ c, c < C → i * C + c < cells.length := by
        intro c less
        rw [List.length_cons] at room
        have : (i + 1) * C ≤ (i + (rest.length + 1)) * C := Nat.mul_le_mul_right C (by omega)
        rw [Nat.succ_mul] at this
        omega
      obtain ⟨middle,vector',size,kept,cell⟩ := addEventCells (clock i) index (i * C) open' vector
        (fun c col at' => ⟨(first c col at').1,inside c (first c col at').2⟩)
      have later : InSlots C (i + 1) (e.groupAt window.preprocessorId) rest := by
        intro w c other col at'
        have := slots (w + 1) c other col at'
        rwa [← Nat.add_assoc,Nat.add_right_comm] at this
      obtain ⟨after,vector'',size',kept',cell'⟩ := ih (i + 1) (fun w member => opened w (List.mem_cons_of_mem _ member))
        vector' later (by rw [size]; rw [List.length_cons] at room; convert room using 2; omega)
      refine ⟨after,vector'',size'.trans size,fun slot none => ?_,fun w c other col at' => ?_⟩
      · rw [kept' slot (fun w c other col at' => ?_)]
        · refine kept slot (fun col member => ?_)
          obtain ⟨c,at'⟩ := List.mem_iff_getElem?.mp member
          rw [(first c col at').1]
          exact none 0 c window col ⟨rfl,columns,open',at'⟩
        · have apart := none (w + 1) c other col at'
          rwa [← Nat.add_assoc,Nat.add_right_comm] at apart
      · cases w with
        | zero =>
            obtain ⟨same,columns',open'',there⟩ := at'
            cases same
            cases Option.some.inj (open'.symm.trans open'')
            rw [Nat.add_zero]
            have below := (first c col there).2
            rw [kept' (i * C + c) (fun w c' other col' at' same => ?_)]
            · exact cell c col there
            · have := blocksApart (later w c' other col' at').2 below same
              omega
        | succ w =>
            have moved := cell' w c other col at'
            have below := (later w c other col at').2
            have before : middle.getD ((i + 1 + w) * C + c) 0 = cells.getD ((i + 1 + w) * C + c) 0 := by
              refine kept _ (fun col' member same => ?_)
              obtain ⟨c',there⟩ := List.mem_iff_getElem?.mp member
              rw [(first c' col' there).1] at same
              have := blocksApart (first c' col' there).2 below same
              omega
            rwa [before,Nat.add_assoc,Nat.add_comm 1] at moved

omit [Scalar T] in
theorem laidSlots {p : PreProcessor T} (h : Laid p) (g : String) :
    InSlots p.info.operations.length 0 g p.rollingWindows := by
  rintro w c window col ⟨at',columns,there,here⟩
  have laid := h.windows w window at'
  have configs : layout window g = some (columns.map (·.config)) := by rw [layout,there]; rfl
  have config : (columns.map (·.config))[c]? = some col.config := by rw [List.getElem?_map,here]; rfl
  have below := laid.short g _ configs
  obtain ⟨inside,_⟩ := List.getElem?_eq_some_iff.mp here
  rw [List.length_map] at below
  rw [Nat.zero_add]
  exact ⟨(laid.slots g _ c _ configs config).1,by omega⟩

def vectorOf (p : PreProcessor T) (group : String) : List T := p.groupWiseFeatureMap.getD group p.defaultFeature

/- A preprocessor that takes in an event of a group: the other vectors stay, and in the
group's own the c-th column of the w-th window writes cell w * C + c from that very
cell, if the window lets the event in. Cells of no column stay. -/
structure Writes (clock : Nat → Int) (e : TableEvent) (index : Nat) (group : String) (p p' : PreProcessor T) : Prop where
  others : ∀ g : String, g ≠ group → p'.groupWiseFeatureMap[g]? = p.groupWiseFeatureMap[g]?
  vector : ∃ after, p'.groupWiseFeatureMap[group]? = some after ∧ after.length = (vectorOf p group).length ∧
    (∀ slot, (∀ w c window col, ColumnAt (p.openGroup group).rollingWindows group w c window col →
      w * p.info.operations.length + c ≠ slot) → after.getD slot 0 = (vectorOf p group).getD slot 0) ∧
    ∀ w c window col, ColumnAt (p.openGroup group).rollingWindows group w c window col →
      after.getD (w * p.info.operations.length + c) 0 =
        if expired (clock w) e.timestamp window.windowTime then (vectorOf p group).getD (w * p.info.operations.length + c) 0
        else (AggregateColumn.addEvent col ((vectorOf p group).getD (w * p.info.operations.length + c) 0) e index).2
  slots : ∀ g w c window col, ColumnAt p'.rollingWindows g w c window col →
    col.config.storeSlot = w * p.info.operations.length + c ∧ c < p.info.operations.length

theorem openGroupVector (p : PreProcessor T) (group : String) :
    (p.openGroup group).groupWiseFeatureMap[group]? = some (vectorOf p group) := by
  unfold openGroup vectorOf
  rw [Std.ExtTreeMap.getD_eq_getD_getElem?]
  split
  · rename_i old
    rw [Std.ExtTreeMap.getElem?_eq_some_getElem (Std.ExtTreeMap.contains_iff_mem.mp old)]
    rfl
  · rename_i fresh
    rw [Std.ExtTreeMap.contains_iff_mem,Std.ExtTreeMap.mem_iff_isSome_getElem?,Bool.not_eq_true,
      Option.isSome_eq_false_iff,Option.isNone_iff_eq_none] at fresh
    simp [fresh]

theorem openGroupSame (p : PreProcessor T) (group : String) :
    (p.openGroup group).info = p.info ∧ (p.openGroup group).defaultFeature = p.defaultFeature := by
  unfold openGroup
  split <;> exact ⟨rfl,rfl⟩

theorem addEventWrites {p : PreProcessor T} (h : Laid p) (clock : Nat → Int) (e : TableEvent) (index : Nat) :
    Writes clock e index (e.groupAt p.id) p (p.addEvent clock e index) := by
  obtain ⟨opens,_⟩ := openGroupOpens h (e.groupAt p.id)
  have laid := openGroupLaid h (e.groupAt p.id)
  have vector := openGroupVector p (e.groupAt p.id)
  have slots := laidSlots laid (e.groupAt p.id)
  obtain ⟨info,default⟩ := openGroupSame p (e.groupAt p.id)
  have room : (0 + (p.openGroup (e.groupAt p.id)).rollingWindows.length) * (p.openGroup (e.groupAt p.id)).info.operations.length ≤
      (vectorOf p (e.groupAt p.id)).length := by
    rw [laid.sizes _ _ vector,laid.default,laid.count,Nat.zero_add]
  obtain ⟨after,there,size,kept,cell⟩ := addToWindowsCells clock index 0 opens vector slots room
  simp only [Nat.zero_add,info] at kept cell
  refine ⟨fun g other => addEventOthers h clock index other,⟨after,there,size,kept,cell⟩,fun g w c window col at' => ?_⟩
  have own := laidSlots (addEventLaid h clock e index) g w c window col at'
  rwa [(addEventInfo _ _ _ _).1,Nat.zero_add] at own

end Cells

section Stores
variable {V : ElementType → Type}

def eventOf (r : TableRow) : TableEvent := ⟨[],r.timestamp,r.row.toList.map Prod.snd⟩

def eventFor (s : TableStore V) (r : TableRow) (j : Nat) : TableEvent :=
  {eventOf r with groups := (s.preprocessors.take (j + 1)).map (groupKey · (eventOf r))}

structure Untouched (s s' : TableStore V) : Prop where
  preprocessors : ∀ (j : Nat) a, s.preprocessors[j]? = some a → s'.preprocessors[j]? = some a
  keys : ∀ (i : Nat) e, s.allEvents[i]? = some e → ∃ e', s'.allEvents[i]? = some e' ∧
    ∀ j < s.preprocessors.length, e'.groups[j]? = e.groups[j]?

variable [∀ d, Scalar (V d)]

def AddsInGroup (s : TableStore V) (clock : Nat → Nat → Int) (r : TableRow) : Prop :=
  ∀ (j : Nat) a, s.preprocessors[j]? = some a →
    ∃ p', (s.addRow clock r).preprocessors[j]? = some ⟨a.elementType,p'⟩ ∧ (p' = a.preprocessor ∨
      Writes (clock j) (eventFor s r j) s.allEvents.length (groupKey a (eventOf r)) a.preprocessor p')

omit [∀ d, Scalar (V d)] in
theorem eventForKey {info : TableInfo} {s : Tracked V} (h : Represents info s) {j : Nat} {a : AnyPreProcessor V}
    (at' : s.store.preprocessors[j]? = some a) (r : TableRow) :
    (eventFor s.store r j).groupAt a.preprocessor.id = groupKey a (eventOf r) := by
  have id := (representsAligned h).ids j a at'
  simp [eventFor,TableEvent.groupAt,id,at']

theorem addRowInGroup {info : TableInfo} {s : Tracked V} (h : Represents info s) (laid : StoreLaid s.store)
    (clock : Nat → Nat → Int) (r : TableRow) : AddsInGroup s.store clock r := by
  intro j a at'
  unfold TableStore.addRow
  split
  · exact ⟨a.preprocessor,at',.inl rfl⟩
  split
  · exact ⟨a.preprocessor,at',.inl rfl⟩
  · have fed := feedAt clock s.store.allEvents.length 0 s.store.preprocessors (eventOf r) j
    rw [at',Option.map_some,Nat.zero_add] at fed
    refine ⟨_,fed,.inr ?_⟩
    have writes := addEventWrites (laid a (List.mem_of_getElem? at')).laid (clock j) (eventFor s.store r j)
      s.store.allEvents.length
    rwa [eventForKey h at'] at writes

theorem createUntouched {info : TableInfo} {s : Tracked V} (h : Represents info s) (clock d name)
    (pre : PreProcessorInfo (V d)) : Untouched s.store (s.store.createPreprocessor clock d name pre).1 := by
  unfold TableStore.createPreprocessor
  split
  · refine ⟨fun j a at' => ?_,fun i e at' => ?_⟩
    · obtain ⟨inside,_⟩ := List.getElem?_eq_some_iff.mp at'
      exact (List.getElem?_append_left inside).trans at'
    · simp only [backfillEvents,List.getElem?_map,at',Option.map_some,Option.some.injEq,exists_eq_left']
      have size := (representsAligned h).groupsSize e (List.mem_of_getElem? at')
      exact fun j inside => List.getElem?_append_left (by omega)
  · exact ⟨fun _ _ at' => at',fun _ e at' => ⟨e,at',fun _ _ => rfl⟩⟩

theorem framesKept (info : TableInfo) (actions : List ((Nat → Nat → Int) × Action V)) (s : Tracked V)
    (fromTable : ∀ a ∈ actions, FromTable info a.2) (reached : run step (Tracked.new info) actions = some s)
    (clock : Nat → Nat → Int) :
    (∀ r : TableRow, AddsInGroup s.store clock r) ∧
      ∀ d modelInputIdentifier (pre : PreProcessorInfo (V d)),
        Untouched s.store (s.store.createPreprocessor clock d modelInputIdentifier pre).1 := by
  have represents := reachableRepresents fromTable reached
  exact ⟨fun r => addRowInGroup represents (reachableLaid reached) clock r,
    fun d name pre => createUntouched represents clock d name pre⟩

end Stores

def carts : TableInfo := ⟨"carts",.ofList [("user","TEXT"),("items","INT")],60⟩

def noon : Nat → Nat → Int := fun _ _ => 100

def cartActions : List ((Nat → Nat → Int) × Action IntValues) :=
  [(noon,.setToFillInMemory),(noon,.createPreprocessor .int32 "ranker" ⟨[60],[⟨"items","Sum",0⟩],["user"],"carts"⟩),
    (noon,.addEvent ⟨100,.ofList [("items","3"),("user","ann")]⟩)]

theorem framesKeptCarts : ∃ s : Tracked IntValues, s.store.allEvents.length = 1 ∧
    (∀ r : TableRow, AddsInGroup s.store noon r) ∧
      ∀ d modelInputIdentifier (pre : PreProcessorInfo Int),
        Untouched s.store (s.store.createPreprocessor noon d modelInputIdentifier pre).1 := by
  have fromTable : ∀ a ∈ cartActions, FromTable carts a.2 := by
    intro a member
    simp only [cartActions,List.mem_cons,List.not_mem_nil,or_false] at member
    rcases member with rfl | rfl | rfl <;> trivial
  obtain ⟨s,reached,one⟩ : ∃ s, run step (Tracked.new carts) cartActions = some s ∧ s.store.allEvents.length = 1 :=
    ⟨_,rfl,by decide +kernel⟩
  exact ⟨s,one,framesKept carts cartActions s fromTable reached noon⟩

end NimbleNet.FeatureFrames
