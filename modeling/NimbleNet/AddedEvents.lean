import NimbleNet.ColumnCounts
import NimbleNet.FeatureFrames

/-! Runs of a table store with a ledger beside it: for every preprocessor, window and group the
indices of the events that the columns added and have not removed. time(NULL) may change
between any two readings. -/
namespace NimbleNet.AddedEvents
open AggregateColumn ColumnCounts FeatureFrames FeatureLayout ModelInputVerdicts OrderedMap PreProcessor RollingWindow StepRuns
  TableStore TableStoreInvariant

section PreProcessors
variable {T : Type} [Scalar T]

def heldAfter (clock : Nat → Int) (p : PreProcessor T) (e : TableEvent) (index : Nat) (held : Nat → Ledger) : Nat → Ledger :=
  fun w =>
    match p.rollingWindows[w]? with
    | none => held w
    | some window => heldAdd (clock w) window e index (held w)

def AllSound (keys : List String) (held : Nat → Ledger) (p : PreProcessor T) : Prop :=
  ∀ (w : Nat) window, p.rollingWindows[w]? = some window → WindowSound keys (held w) window

def Taken (clock : Nat → Int) (p : PreProcessor T) (e : TableEvent) : Prop :=
  ∀ item ∈ p.rollingWindows.zipIdx, expired (clock item.2) e.timestamp item.1.windowTime = true →
    ∀ col ∈ item.1.groupWiseAggregatedColumnMap.getD (e.groupAt p.id) [], col.oldestIndex = -1
instance (clock : Nat → Int) (p : PreProcessor T) (e : TableEvent) : Decidable (Taken clock p e) := by
  unfold Taken; infer_instance

theorem createColumnsFresh {id : Nat} {group : String} {columnIds : List Nat} {features : List T} {start i : Nat}
    {operations : List (Operation T)} :
    ∀ col ∈ (createColumns id group columnIds features start i operations).1, col.totalCount = 0 ∧ col.oldestIndex = -1 := by
  induction operations generalizing i with
  | nil => simp [createColumns]
  | cons operation rest ih =>
      unfold createColumns
      split
      · simp
      · exact List.forall_mem_cons.mpr ⟨⟨rfl,rfl⟩,ih⟩

theorem openedSound {p : PreProcessor T} {group : String} {w : Nat} {window : RollingWindow T} {keys : List String}
    {held : Ledger} (h : WindowSound keys held window) (none : window.groupWiseAggregatedColumnMap[group]? = none) :
    WindowSound keys held (opened p group w window) := by
  refine ⟨fun g columns there col member => ?_,fun g absent => ?_,h.idle,h.within,h.bounds⟩
  · rw [openedMap] at there
    rcases insertFound there with ⟨rfl,rfl⟩ | ⟨_,old⟩
    · obtain ⟨total,oldest⟩ := createColumnsFresh col member
      rw [h.fresh _ none]
      exact emptySound total oldest
    · exact h.columns g columns old col member
  · rw [openedMap,Std.ExtTreeMap.getElem?_insert] at absent
    split at absent
    · contradiction
    · exact h.fresh g absent

theorem openGroupAt {p : PreProcessor T} (laid : Laid p) {group : String} {w : Nat} {window : RollingWindow T}
    (at' : (p.openGroup group).rollingWindows[w]? = some window) : ∃ old, p.rollingWindows[w]? = some old ∧
      window.windowTime = old.windowTime ∧ window.preprocessorId = old.preprocessorId ∧
      (∀ keys held, WindowSound keys held old → WindowSound keys held window) ∧
      ∀ columns, window.groupWiseAggregatedColumnMap[group]? = some columns →
        old.groupWiseAggregatedColumnMap[group]? = some columns ∨ ∀ col ∈ columns, col.oldestIndex = -1 := by
  unfold openGroup at at'
  split at at'
  · exact ⟨window,at',rfl,rfl,fun _ _ sound => sound,fun columns there => .inl there⟩
  · rename_i absent
    simp only [createColumnsForGroupAt,Option.map_eq_some_iff] at at'
    obtain ⟨old,there,rfl⟩ := at'
    have none : old.groupWiseAggregatedColumnMap[group]? = none := by
      have groups := (laid.windows w old there).groups group
      rw [← Std.ExtTreeMap.contains_iff_mem] at groups
      rw [← Option.not_isSome_iff_eq_none]
      intro some
      refine absent (groups.mp ?_)
      rwa [layout,Option.isSome_map]
    refine ⟨old,there,rfl,rfl,fun keys held sound => openedSound sound none,fun columns found => .inr ?_⟩
    rw [openedMap,Std.ExtTreeMap.getElem?_insert_self] at found
    cases found
    exact fun col member => (createColumnsFresh col member).2

theorem addToWindowsAt {clock : Nat → Int} {e : TableEvent} {index i w : Nat} {windows : List (RollingWindow T)}
    {features : StdMap (List T)} {window' : RollingWindow T}
    (at' : (addToWindows clock e index i windows features).1[w]? = some window') : ∃ window features',
      windows[w]? = some window ∧ window' = (window.addEvent (clock (i + w)) features' e index).1 := by
  induction windows generalizing i w features with
  | nil => simp [addToWindows] at at'
  | cons window rest ih =>
      simp only [addToWindows] at at'
      cases w with
      | zero =>
          cases at'
          exact ⟨window,features,rfl,rfl⟩
      | succ w =>
          obtain ⟨old,features',there,same⟩ := ih at'
          refine ⟨old,features',there,?_⟩
          rw [same,Nat.add_assoc,Nat.add_comm 1]

theorem addEventAllSound {p : PreProcessor T} (laid : Laid p) {keys : List String} {held : Nat → Ledger}
    (h : AllSound keys held p) {clock : Nat → Int} {e : TableEvent} (taken : Taken clock p e) :
    AllSound (keys ++ [e.groupAt p.id]) (heldAfter clock p e keys.length held) (p.addEvent clock e keys.length) := by
  intro w window' at'
  obtain ⟨window,features,there,rfl⟩ := addToWindowsAt at'
  obtain ⟨old,before,time,id,sound,columns⟩ := openGroupAt laid there
  have opens := openGroupOpens laid (e.groupAt p.id)
  obtain ⟨own,cells,open'⟩ := opens.1 window (List.mem_of_getElem? there)
  have owned := laidOwned ((openGroupLaid laid (e.groupAt p.id)).windows w window there)
  have ledger : heldAfter clock p e keys.length held w = heldAdd (clock w) window e keys.length (held w) := by
    simp only [heldAfter,before]
    funext g
    simp only [heldAdd,time,id]
  rw [ledger,Nat.zero_add,← own]
  refine addEventSound features (sound keys (held w) (h w old before)) owned (by rw [own]; exact open') ?_
  intro late col member
  rcases columns cells open' with found | fresh
  · refine taken (old,w) (List.mk_mem_zipIdx_iff_getElem?.mpr before) (time ▸ late) col ?_
    rwa [Std.ExtTreeMap.getD_eq_getD_getElem?,found,Option.getD_some]
  · exact fresh col member

def heldBackfill (clock : Nat → Nat → Int) : Nat → PreProcessor T → List TableEvent → (Nat → Ledger) → Nat → Ledger
  | _,_,[],held => held
  | i,p,e :: rest,held =>
      let e' := {e with groups := e.groups ++ [p.getGroupFromEvent e]}
      heldBackfill clock (i + 1) (p.addEvent (clock i) e' i) rest (heldAfter (clock i) p e' i held)

/- No window finds an event expired behind one of the same group that it found live. -/
def BackfillTaken (clock : Nat → Nat → Int) (p : PreProcessor T) (allEvents : List TableEvent) : Prop :=
  ∀ item ∈ p.rollingWindows.zipIdx, ∀ first ∈ allEvents.zipIdx, ∀ later ∈ allEvents.zipIdx, first.2 < later.2 →
    p.getGroupFromEvent first.1 = p.getGroupFromEvent later.1 →
    expired (clock later.2 item.2) later.1.timestamp item.1.windowTime = true →
    expired (clock first.2 item.2) first.1.timestamp item.1.windowTime = true
instance (clock : Nat → Nat → Int) (p : PreProcessor T) (allEvents : List TableEvent) :
    Decidable (BackfillTaken clock p allEvents) := by unfold BackfillTaken; infer_instance

structure Filling (clock : Nat → Nat → Int) (start : PreProcessor T) (done : List TableEvent) (held : Nat → Ledger)
    (p : PreProcessor T) : Prop where
  laid : Laid p
  signature : p.id = start.id ∧ p.groupIds = start.groupIds
  times : ∀ (w : Nat) window, p.rollingWindows[w]? = some window →
    ∃ old, start.rollingWindows[w]? = some old ∧ window.windowTime = old.windowTime
  sound : AllSound (done.map start.getGroupFromEvent) held p
  taken : ∀ (w : Nat) window, start.rollingWindows[w]? = some window → ∀ g, ∀ i ∈ held w g, ∃ e, done[i]? = some e ∧
    start.getGroupFromEvent e = g ∧ expired (clock i w) e.timestamp window.windowTime = false

theorem addEventTimes {p : PreProcessor T} (laid : Laid p) {clock : Nat → Int} {e : TableEvent} {index w : Nat}
    {window : RollingWindow T} (at' : (p.addEvent clock e index).rollingWindows[w]? = some window) :
    ∃ old, p.rollingWindows[w]? = some old ∧ window.windowTime = old.windowTime := by
  obtain ⟨middle,features,there,rfl⟩ := addToWindowsAt at'
  obtain ⟨old,before,time,_⟩ := openGroupAt laid there
  refine ⟨old,before,?_⟩
  rw [← time]
  unfold RollingWindow.addEvent
  split
  · rfl
  · rfl

section Filling
variable {clock : Nat → Nat → Int} {start p : PreProcessor T} {done : List TableEvent} {e : TableEvent} {held : Nat → Ledger}

omit [Scalar T] in
theorem fillingGroup (h : Filling clock start done held p) (size : e.groups.length = start.id) :
    TableEvent.groupAt {e with groups := e.groups ++ [p.getGroupFromEvent e]} p.id = start.getGroupFromEvent e := by
  have key : p.getGroupFromEvent e = start.getGroupFromEvent e := (groupOfSignature h.signature.2 rfl).symm ▸ rfl
  rw [TableEvent.groupAt,h.signature.1,← size,key]
  simp

omit [Scalar T] in
theorem fillingTakes {rest : List TableEvent} (taken : BackfillTaken clock start (done ++ e :: rest))
    (h : Filling clock start done held p) (size : e.groups.length = start.id) :
    Taken (clock done.length) p {e with groups := e.groups ++ [p.getGroupFromEvent e]} := by
  have here : (done ++ e :: rest)[done.length]? = some e := by simp
  rintro ⟨window,w⟩ item late col member
  have at' := List.mk_mem_zipIdx_iff_getElem?.mp item
  simp only [fillingGroup h size,Std.ExtTreeMap.getD_eq_getD_getElem?] at late member
  obtain ⟨columns,there⟩ : ∃ columns, window.groupWiseAggregatedColumnMap[start.getGroupFromEvent e]? = some columns := by
    cases there : window.groupWiseAggregatedColumnMap[start.getGroupFromEvent e]? with
    | none => simp [there] at member
    | some columns => exact ⟨columns,rfl⟩
  rw [there,Option.getD_some] at member
  rcases (h.sound w window at').columns _ columns there col member |>.place with ⟨empty,_⟩ | ⟨_,_,used,_⟩
  · exact empty
  · obtain ⟨old,before,windowTime⟩ := h.times w window at'
    obtain ⟨i,member⟩ := List.exists_mem_of_ne_nil _ used
    obtain ⟨first,found,same,live⟩ := h.taken w old before _ i member
    obtain ⟨inside,_⟩ := List.getElem?_eq_some_iff.mp found
    have earlier : (done ++ e :: rest)[i]? = some first := (List.getElem?_append_left inside).trans found
    rw [windowTime] at late
    have gone := taken (old,w) (List.mk_mem_zipIdx_iff_getElem?.mpr before) (first,i)
      (List.mk_mem_zipIdx_iff_getElem?.mpr earlier) (e,done.length) (List.mk_mem_zipIdx_iff_getElem?.mpr here) inside same late
    rw [live] at gone
    contradiction

omit [Scalar T] in
theorem fillingHeld (h : Filling clock start done held p) (size : e.groups.length = start.id) {w : Nat}
    {window : RollingWindow T} (at' : start.rollingWindows[w]? = some window) {g : String} {i : Nat}
    (member : i ∈ heldAfter (clock done.length) p {e with groups := e.groups ++ [p.getGroupFromEvent e]} done.length held w g) :
    ∃ e₁, (done ++ [e])[i]? = some e₁ ∧ start.getGroupFromEvent e₁ = g ∧
      expired (clock i w) e₁.timestamp window.windowTime = false := by
  have older : i ∈ held w g → ∃ e₁, (done ++ [e])[i]? = some e₁ ∧ start.getGroupFromEvent e₁ = g ∧
      expired (clock i w) e₁.timestamp window.windowTime = false := by
    intro member
    obtain ⟨first,found,same,live⟩ := h.taken w window at' g i member
    obtain ⟨inside,_⟩ := List.getElem?_eq_some_iff.mp found
    exact ⟨first,(List.getElem?_append_left inside).trans found,same,live⟩
  cases there : p.rollingWindows[w]? with
  | none =>
      simp only [heldAfter,there] at member
      exact older member
  | some now =>
      obtain ⟨old,before,windowTime⟩ := h.times w now there
      cases Option.some.inj (before.symm.trans at')
      have own := (h.laid.windows w now there).preprocessorId
      simp only [heldAfter,there,heldAdd,own,fillingGroup h size,windowTime] at member
      split at member
      · rename_i takes
        simp only [Bool.and_eq_true,Bool.not_eq_true',beq_iff_eq] at takes
        rcases List.mem_append.mp member with before | new
        · exact older before
        · cases List.mem_singleton.mp new
          exact ⟨e,by simp,takes.2,takes.1⟩
      · exact older member

theorem fillingStep {rest : List TableEvent} (taken : BackfillTaken clock start (done ++ e :: rest))
    (size : e.groups.length = start.id) (h : Filling clock start done held p) :
    Filling clock start (done ++ [e])
      (heldAfter (clock done.length) p {e with groups := e.groups ++ [p.getGroupFromEvent e]} done.length held)
      (p.addEvent (clock done.length) {e with groups := e.groups ++ [p.getGroupFromEvent e]} done.length) where
  laid := addEventLaid h.laid _ _ _
  signature := by
    obtain ⟨id,ids⟩ := addEventSignature (clock done.length) p {e with groups := e.groups ++ [p.getGroupFromEvent e]} done.length
    exact ⟨id.trans h.signature.1,ids.trans h.signature.2⟩
  times w window at' := by
    obtain ⟨middle,there,same⟩ := addEventTimes h.laid at'
    obtain ⟨old,before,windowTime⟩ := h.times w middle there
    exact ⟨old,before,same.trans windowTime⟩
  sound := by
    have sound := @addEventAllSound T _ p h.laid (done.map start.getGroupFromEvent) held h.sound (clock done.length) _
      (fillingTakes taken h size)
    rw [List.length_map,fillingGroup h size] at sound
    rw [List.map_append,List.map_singleton]
    exact sound
  taken _ _ at' _ _ member := fillingHeld h size at' member

end Filling

theorem fillingRun {clock : Nat → Nat → Int} {start p : PreProcessor T} {done rest : List TableEvent}
    {held : Nat → Ledger} (taken : BackfillTaken clock start (done ++ rest)) (sizes : ∀ e ∈ rest, e.groups.length = start.id)
    (h : Filling clock start done held p) :
    Filling clock start (done ++ rest) (heldBackfill clock done.length p rest held) (backfill clock done.length p rest).1 := by
  induction rest generalizing done p held with
  | nil =>
      rw [List.append_nil]
      exact h
  | cons e rest ih =>
      have first := fillingStep taken (sizes e List.mem_cons_self) h
      rw [List.append_cons] at taken ⊢
      have later := ih taken (fun f member => sizes f (List.mem_cons_of_mem e member)) first
      simp only [List.length_append,List.length_singleton] at later
      exact later

theorem newSound (id : Nat) (info : PreProcessorInfo T) (groupIds columnIds : List Nat) :
    AllSound [] (fun _ _ => []) (PreProcessor.new id info groupIds columnIds) := by
  intro w window at'
  obtain ⟨time,_,rfl⟩ := List.mem_map.mp (List.mem_of_getElem? at')
  refine ⟨fun g columns there => ?_,fun _ _ => rfl,fun _ _ => rfl,fun _ _ member => ?_,le_rfl,?_⟩
  · simp [RollingWindow.new] at there
  · cases member
  · exact (by decide : (-1 : Int) ≤ 0)

theorem backfillAllSound {clock : Nat → Nat → Int} {id : Nat} {info : PreProcessorInfo T} {groupIds columnIds : List Nat}
    {allEvents : List TableEvent} (taken : BackfillTaken clock (PreProcessor.new id info groupIds columnIds) allEvents)
    (sizes : ∀ e ∈ allEvents, e.groups.length = id) :
    AllSound (allEvents.map (PreProcessor.new id info groupIds columnIds).getGroupFromEvent)
      (heldBackfill clock 0 (PreProcessor.new id info groupIds columnIds) allEvents (fun _ _ => []))
      (backfill clock 0 (PreProcessor.new id info groupIds columnIds) allEvents).1 := by
  have fresh : Filling clock (PreProcessor.new id info groupIds columnIds) [] (fun _ _ => [])
      (PreProcessor.new id info groupIds columnIds) :=
    ⟨newLaid id info groupIds columnIds,⟨rfl,rfl⟩,fun _ window at' => ⟨window,at',rfl⟩,newSound id info groupIds columnIds,
      fun _ _ _ _ _ member => absurd member List.not_mem_nil⟩
  exact (fillingRun taken sizes fresh).sound

def heldInput (clock : Nat → Nat → Int) (p : PreProcessor T) (allEvents : List TableEvent) (held : Nat → Ledger) : Nat → Ledger :=
  fun w =>
    match p.rollingWindows[w]? with
    | none => held w
    | some window => heldUpdate (clock w) window allEvents (held w)

theorem updateWindowsAt {clock : Nat → Nat → Int} {allEvents : List TableEvent} {i w : Nat}
    {windows windows' : List (RollingWindow T)} {features features' : StdMap (List T)} {window' : RollingWindow T}
    (ok : updateWindows clock allEvents i windows features = some (windows',features')) (at' : windows'[w]? = some window') :
    ∃ window before after, windows[w]? = some window ∧
      window.updateWindow (clock (i + w)) before allEvents = some (window',after) := by
  induction windows generalizing i w features windows' with
  | nil =>
      cases ok
      simp at at'
  | cons window rest ih =>
      simp only [updateWindows,bind,Option.bind_eq_some_iff] at ok
      obtain ⟨⟨first,middle⟩,here,⟨others,last⟩,later,ok⟩ := ok
      cases ok
      cases w with
      | zero =>
          cases at'
          exact ⟨window,features,middle,rfl,here⟩
      | succ w =>
          obtain ⟨old,before,after,there,moved⟩ := ih later at'
          rw [Nat.add_assoc,Nat.add_comm 1] at moved
          exact ⟨old,before,after,there,moved⟩

theorem modelInputAllSound {clock : Nat → Nat → Int} {p p' : PreProcessor T} (laid : Laid p) {held : Nat → Ledger}
    {groups : List String} {allEvents : List TableEvent} {result : Option (ModelInput T)} (useful : p.isUseless = false)
    (h : AllSound (allEvents.map (·.groupAt p.id)) held p)
    (ok : p.getModelInput clock groups allEvents = some (p',result)) :
    AllSound (allEvents.map (·.groupAt p.id)) (heldInput clock p allEvents held) p' := by
  rcases modelInputEnds ok with ⟨useless,_⟩ | ⟨_,windows,features,ran,rfl,_⟩
  · rw [useful] at useless
    contradiction
  intro w window' at'
  obtain ⟨window,before,after,there,moved⟩ := updateWindowsAt ran at'
  rw [Nat.zero_add] at moved
  have own := laid.windows w window there
  have sound := h w window there
  rw [← own.preprocessorId] at sound ⊢
  have ledger : heldInput clock p allEvents held w = heldUpdate (clock w) window allEvents (held w) := by
    simp only [heldInput,there]
  rw [ledger]
  exact updateSound sound (laidOwned own) moved

end PreProcessors

section Stores
variable {V : ElementType → Type} [∀ d, Scalar (V d)]

structure Recorded (V : ElementType → Type) where
  tracked : Tracked V
  held : Nat → Nat → Ledger

def heldByRow (clock : Nat → Nat → Int) (store : TableStore V) (r : TableRow) (held : Nat → Nat → Ledger) : Nat → Nat → Ledger :=
  if store.isReadyToBeFilled && r.row.keys.all (store.columnToIdMap.contains ·) then fun j =>
    match store.preprocessors[j]? with
    | none => held j
    | some a => heldAfter (clock j) a.preprocessor (eventFor store r j) store.allEvents.length (held j)
  else held

def ledgers (store : TableStore V) (held : Nat → Nat → Ledger) : (Nat → Nat → Int) × Action V → Nat → Nat → Ledger
  | (clock,.addEvent r) => if store.checkColumnsOfRow r then heldByRow clock store r held else held
  | (clock,.callback cells) =>
      match UserEventsManager.readCells cells with
      | some (some t,row) => heldByRow clock store ⟨t,row⟩ held
      | _ => held
  | (_,.setToFillInMemory) => held
  | (clock,.createPreprocessor _ _ info) =>
      match info.groupColumns.mapM (store.columnToIdMap[·]?),info.operations.mapM store.columnIdFor with
      | some groupIds,some columnIds => Function.update held store.preprocessors.length (heldBackfill clock 0
          (PreProcessor.new store.preprocessors.length info groupIds columnIds) store.allEvents (fun _ _ => []))
      | _,_ => held
  | (clock,.getModelInput name rows) =>
      match store.modelInputPreprocessorIdMap[name]? with
      | none => held
      | some i =>
          match store.preprocessors[i]? with
          | none => held
          | some ⟨_,p⟩ =>
              if (rows.mapM (store.groupOfInput p)).isSome && !p.isUseless then
                Function.update held i (heldInput clock p store.allEvents (held i))
              else held

namespace Recorded

def new (info : TableInfo) : Recorded V := ⟨.new info,fun _ _ _ => []⟩

def step (s : Recorded V) (a : (Nat → Nat → Int) × Action V) : Option (Recorded V) :=
  (TableStoreInvariant.step s.tracked a).map (⟨·,ledgers s.tracked.store s.held a⟩)

end Recorded

structure Right {T : Type} (held : List Nat) (col : Column T) : Prop where
  counted : col.totalCount = held.length
  notNegative : 0 ≤ col.totalCount
  divides : col.totalCount + 1 ≠ 0

def CountsAdded (s : Recorded V) : Prop :=
  ∀ (j : Nat) a, s.tracked.store.preprocessors[j]? = some a → ∀ (w : Nat) window, a.preprocessor.rollingWindows[w]? = some window →
    ∀ (g : String) columns, window.groupWiseAggregatedColumnMap[g]? = some columns → ∀ col ∈ columns, Right (s.held j w g) col

/- Whatever an update subtracts was added, and is read inside the events. From the index -1
the loops of Min and Max do not run. -/
def SubtractsAdded (s : Recorded V) : (Nat → Nat → Int) × Action V → Prop
  | (clock,.getModelInput name _) => ∀ (i : Nat) a, s.tracked.store.modelInputPreprocessorIdMap[name]? = some i →
      s.tracked.store.preprocessors[i]? = some a → ∀ (w : Nat) window, a.preprocessor.rollingWindows[w]? = some window →
      ∀ v ∈ removesAt (clock w) window s.tracked.store.allEvents, ∀ (g : String) columns,
      window.groupWiseAggregatedColumnMap[g]? = some columns → ∀ col ∈ columns,
      readsInside col s.tracked.store.allEvents.length v ∧ (0 ≤ col.oldestIndex → ∀ n ∈ indices col.oldestIndex v,
        col.config.inGroup (eventAt s.tracked.store.allEvents n) = true → n.toNat ∈ s.held i w g)
  | _ => True

def RowTaken (clock : Nat → Nat → Int) (store : TableStore V) (r : TableRow) : Prop :=
  store.isReadyToBeFilled = true → ∀ item ∈ store.preprocessors.zipIdx,
    Taken (clock item.2) item.1.preprocessor (eventFor store r item.2)
instance (clock : Nat → Nat → Int) (store : TableStore V) (r : TableRow) : Decidable (RowTaken clock store r) := by
  unfold RowTaken; infer_instance

def NoneEmpty {T : Type} (clock : Nat → Nat → Int) (p : PreProcessor T) (allEvents : List TableEvent) : Prop :=
  ∀ item ∈ p.rollingWindows.zipIdx, ∀ v ∈ removesAt (clock item.2) item.1 allEvents, 0 ≤ v →
    ∀ group ∈ item.1.groupWiseAggregatedColumnMap.toList, ∀ col ∈ group.2,
      col.config.kind = .min ∨ col.config.kind = .max ∨ col.oldestIndex ≠ -1
instance {T : Type} (clock : Nat → Nat → Int) (p : PreProcessor T) (allEvents : List TableEvent) :
    Decidable (NoneEmpty clock p allEvents) := by unfold NoneEmpty; infer_instance

def Offered (s : Recorded V) : (Nat → Nat → Int) × Action V → Prop
  | (clock,.addEvent r) => RowTaken clock s.tracked.store r
  | (clock,.callback cells) => ∀ read ∈ UserEventsManager.readCells cells, ∀ t ∈ read.1,
      RowTaken clock s.tracked.store ⟨t,read.2⟩
  | (_,.setToFillInMemory) => True
  | (clock,.createPreprocessor _ _ info) => ∀ groupIds ∈ info.groupColumns.mapM (s.tracked.store.columnToIdMap[·]?),
      ∀ columnIds ∈ info.operations.mapM s.tracked.store.columnIdFor, BackfillTaken clock
        (PreProcessor.new s.tracked.store.preprocessors.length info groupIds columnIds) s.tracked.store.allEvents
  | (clock,.getModelInput name _) => ∀ i ∈ s.tracked.store.modelInputPreprocessorIdMap[name]?,
      ∀ a ∈ s.tracked.store.preprocessors[i]?, NoneEmpty clock a.preprocessor s.tracked.store.allEvents
instance (s : Recorded V) : (a : (Nat → Nat → Int) × Action V) → Decidable (Offered s a)
  | (clock,.addEvent r) => inferInstanceAs (Decidable (RowTaken clock s.tracked.store r))
  | (clock,.callback cells) => inferInstanceAs (Decidable (∀ read ∈ UserEventsManager.readCells cells, ∀ t ∈ read.1,
      RowTaken clock s.tracked.store ⟨t,read.2⟩))
  | (_,.setToFillInMemory) => isTrue trivial
  | (clock,.createPreprocessor _ _ info) => inferInstanceAs (Decidable (∀ groupIds ∈
      info.groupColumns.mapM (s.tracked.store.columnToIdMap[·]?),
      ∀ columnIds ∈ info.operations.mapM s.tracked.store.columnIdFor, BackfillTaken clock
        (PreProcessor.new s.tracked.store.preprocessors.length info groupIds columnIds) s.tracked.store.allEvents))
  | (clock,.getModelInput name _) => inferInstanceAs (Decidable (∀ i ∈ s.tracked.store.modelInputPreprocessorIdMap[name]?,
      ∀ a ∈ s.tracked.store.preprocessors[i]?, NoneEmpty clock a.preprocessor s.tracked.store.allEvents))

def EachSound (store : TableStore V) (held : Nat → Nat → Ledger) : Prop :=
  ∀ (j : Nat) a, store.preprocessors[j]? = some a →
    AllSound (store.allEvents.map (groupKey a)) (held j) a.preprocessor

structure Inv (info : TableInfo) (s : Recorded V) : Prop where
  represents : Represents info s.tracked
  laid : StoreLaid s.tracked.store
  sound : EachSound s.tracked.store s.held

variable {info : TableInfo} {s : Tracked V} {held : Nat → Nat → Ledger}

omit [∀ d, Scalar (V d)] in
theorem keysAt (h : Represents info s) {j : Nat} {a : AnyPreProcessor V} (at' : s.store.preprocessors[j]? = some a) :
    s.store.allEvents.map (·.groupAt a.preprocessor.id) = s.store.allEvents.map (groupKey a) := by
  have aligned := representsAligned h
  refine List.map_congr_left (fun e member => ?_)
  have group := aligned.groups e member j a at'
  rw [TableEvent.groupAt,aligned.ids j a at',List.getD_eq_getElem?_getD,group]
  rfl

theorem rowSound (h : Represents info s) (laid : StoreLaid s.store) (sound : EachSound s.store held) {clock : Nat → Nat → Int}
    {r : TableRow} (taken : RowTaken clock s.store r) :
    EachSound (s.addRow clock r).store (heldByRow clock s.store r held) := by
  unfold Tracked.addRow TableStore.addRow heldByRow
  cases ready : s.store.isReadyToBeFilled with
  | false => exact sound
  | true =>
      cases known : r.row.keys.all (s.store.columnToIdMap.contains ·) with
      | false => exact sound
      | true =>
          simp only [Bool.not_true,Bool.false_eq_true,if_false,Bool.and_self,if_true]
          intro j a' at'
          have fed := feedAt clock s.store.allEvents.length 0 s.store.preprocessors (eventOf r) j
          rw [Nat.zero_add] at fed
          obtain ⟨a,there,rfl⟩ := Option.map_eq_some_iff.mp (fed.symm.trans at')
          have size : s.store.allEvents.length = (s.store.allEvents.map (groupKey a)).length := List.length_map _ |>.symm
          have old := laid a (List.mem_of_getElem? there)
          have offered := taken ready (a,j) (List.mk_mem_zipIdx_iff_getElem?.mpr there)
          have added := addEventAllSound old.laid (sound j a there) offered
          rw [eventForKey h there,← size] at added
          have signed := addEventSignature (clock j) a.preprocessor (eventFor s.store r j) s.store.allEvents.length
          have key : ∀ e e' : TableEvent, e'.row = e.row → groupKey ⟨a.elementType,a.preprocessor.addEvent (clock j)
              (eventFor s.store r j) s.store.allEvents.length⟩ e' = groupKey a e :=
            fun e e' row => groupOfSignature signed.2 row
          have last := key (eventOf r) (feed clock s.store.allEvents.length 0 s.store.preprocessors (eventOf r)).2
            (by rw [feedEvent])
          have before : s.store.allEvents.map (groupKey ⟨a.elementType,a.preprocessor.addEvent (clock j)
              (eventFor s.store r j) s.store.allEvents.length⟩) = s.store.allEvents.map (groupKey a) :=
            List.map_congr_left (fun e _ => key e e rfl)
          simp only [there,List.map_append,List.map_singleton]
          rw [← before,← last] at added
          exact added

theorem createSound (h : Represents info s) (sound : EachSound s.store held) {clock : Nat → Nat → Int} {d : ElementType}
    {name : String} {pre : PreProcessorInfo (V d)}
    (taken : ∀ groupIds ∈ pre.groupColumns.mapM (s.store.columnToIdMap[·]?),
      ∀ columnIds ∈ pre.operations.mapM s.store.columnIdFor, BackfillTaken clock
        (PreProcessor.new s.store.preprocessors.length pre groupIds columnIds) s.store.allEvents) :
    EachSound (s.store.createPreprocessor clock d name pre).1
      (ledgers s.store held (clock,.createPreprocessor d name pre)) := by
  unfold TableStore.createPreprocessor
  cases known : pre.groupColumns.mapM (s.store.columnToIdMap[·]?) with
  | none =>
      simp only [ledgers,known]
      exact sound
  | some groupIds =>
      cases allowed : pre.operations.mapM s.store.columnIdFor with
      | none =>
          simp only [ledgers,known,allowed]
          exact sound
      | some columnIds =>
          simp only [ledgers,known,allowed]
          intro j a at'
          have same : ∀ a : AnyPreProcessor V, (backfill clock 0 (PreProcessor.new s.store.preprocessors.length pre groupIds
              columnIds) s.store.allEvents).2.map (groupKey a) = s.store.allEvents.map (groupKey a) := by
            intro a
            rw [backfillEvents,List.map_map]
            rfl
          simp only at at' ⊢
          rw [same]
          by_cases old : j < s.store.preprocessors.length
          · rw [List.getElem?_append_left old] at at'
            rw [Function.update_of_ne (Nat.ne_of_lt old)]
            exact sound j a at'
          · rw [List.getElem?_append_right (Nat.not_lt.mp old),List.getElem?_singleton] at at'
            split at at'
            · rename_i last
              have new : j = s.store.preprocessors.length := by omega
              cases at'
              rw [new,Function.update_self]
              have sizes : ∀ e ∈ s.store.allEvents, e.groups.length = s.store.preprocessors.length :=
                (representsAligned h).groupsSize
              have filled := backfillAllSound (taken groupIds known columnIds allowed) sizes
              have signed := backfillSignature clock 0 (PreProcessor.new s.store.preprocessors.length pre groupIds columnIds)
                s.store.allEvents
              have key : s.store.allEvents.map (groupKey ⟨d,(backfill clock 0 (PreProcessor.new s.store.preprocessors.length pre
                  groupIds columnIds) s.store.allEvents).1⟩) = s.store.allEvents.map
                    (PreProcessor.new s.store.preprocessors.length pre groupIds columnIds).getGroupFromEvent :=
                List.map_congr_left (fun e _ => groupOfSignature signed.2 rfl)
              rw [key]
              exact filled
            · contradiction

theorem inputSound (h : Represents info s) (laid : StoreLaid s.store) (sound : EachSound s.store held)
    {clock : Nat → Nat → Int} {name : String} {rows : List (List (String × String))} {store : TableStore V}
    {result : Option (AnyModelInput V)} (ok : s.store.getModelInput clock name rows = some (store,result)) :
    EachSound store (ledgers s.store held (clock,.getModelInput name rows)) := by
  rcases modelInputCases ok with ⟨route,rfl,_⟩ | ⟨i,d,p,route,here,⟨found,rfl,_⟩ | ⟨groups,p',_,found,ran,rfl,_⟩⟩
  · simp only [ledgers,route]
    exact sound
  · simp only [ledgers,route,here,found]
    exact sound
  · obtain ⟨inside,at'⟩ := List.getElem?_eq_some_iff.mp here
    simp only [ledgers,route,here,found,Option.isSome_some,Bool.true_and]
    cases useless : p.isUseless with
    | true =>
        rcases modelInputEnds ran with ⟨_,rfl,_⟩ | ⟨useful,_⟩
        · have same : s.store.preprocessors.set i ⟨d,p'⟩ = s.store.preprocessors := by
            rw [← at']
            exact List.set_getElem_self _
          simp only [Bool.not_true,Bool.false_eq_true,if_false,same]
          exact sound
        · rw [useful] at useless
          contradiction
    | false =>
        simp only [Bool.not_false,if_true]
        have keys := keysAt h here
        have updated := modelInputAllSound (laid _ (List.mem_of_getElem? here)).laid useless (keys ▸ sound i ⟨d,p⟩ here) ran
        rw [keys] at updated
        intro j a at'
        by_cases same : j = i
        · subst same
          simp only [List.getElem?_set_self inside,Option.some.injEq] at at'
          subst at'
          rw [Function.update_self]
          have key : s.store.allEvents.map (groupKey ⟨d,p'⟩) = s.store.allEvents.map (groupKey ⟨d,p⟩) :=
            List.map_congr_left (fun e _ => groupOfSignature (modelInputSignature ran).2 rfl)
          simp only
          rw [key]
          exact updated
        · simp only [List.getElem?_set_ne (Ne.symm same)] at at'
          rw [Function.update_of_ne same]
          exact sound j a at'

theorem stepInv {s next : Recorded V} (h : Inv info s) {a : (Nat → Nat → Int) × Action V} (fromTable : FromTable info a.2)
    (offered : Offered s a) (taken : s.step a = some next) : Inv info next := by
  obtain ⟨tracked,ok,rfl⟩ := Option.map_eq_some_iff.mp taken
  refine ⟨stepRepresents h.represents fromTable ok,stepLaid h.laid ok,?_⟩
  obtain ⟨clock,a⟩ := a
  cases a with
  | addEvent r =>
      simp only [TableStoreInvariant.step,Option.some.injEq] at ok
      subst ok
      simp only [ledgers]
      split
      · exact rowSound h.represents h.laid h.sound offered
      · exact h.sound
  | callback cells =>
      simp only [TableStoreInvariant.step,bind,Option.bind_eq_some_iff] at ok
      obtain ⟨⟨timestamp,row⟩,read,ok⟩ := ok
      simp only [ledgers,read]
      cases timestamp with
      | none =>
          cases ok
          exact h.sound
      | some t =>
          cases ok
          exact rowSound h.represents h.laid h.sound (offered _ read t rfl)
  | setToFillInMemory =>
      cases ok
      exact h.sound
  | createPreprocessor d name pre =>
      cases ok
      exact createSound h.represents h.sound offered
  | getModelInput name rows =>
      simp only [TableStoreInvariant.step,bind,Option.bind_eq_some_iff] at ok
      obtain ⟨⟨store,result⟩,ran,ok⟩ := ok
      cases ok
      exact inputSound h.represents h.laid h.sound ran

omit [∀ d, Scalar (V d)] in
theorem soundCounts {s : Recorded V} (h : EachSound s.tracked.store s.held) : CountsAdded s := by
  intro j a at' w window there g columns open' col member
  have total := ((h j a at' w window there).columns g columns open' col member).total
  exact ⟨total,by omega,by omega⟩

theorem subtractsSound {s : Recorded V} (h : Inv info s) {a : (Nat → Nat → Int) × Action V} (offered : Offered s a) :
    SubtractsAdded s a := by
  obtain ⟨clock,a⟩ := a
  cases a with
  | getModelInput name rows =>
      intro i a route at' w window there v removes g columns open' col member
      have windowSound := h.sound i a at' w window there
      have keys := keysAt h.represents at'
      have high := windowSound.bounds.2
      rw [List.length_map] at high
      have where' := removesAtEnds windowSound.bounds.1 high removes
      obtain ⟨id,group⟩ := laidOwned ((h.laid a (List.mem_of_getElem? at')).laid.windows w window there) g columns open' col member
      have own := ((h.laid a (List.mem_of_getElem? at')).laid.windows w window there).preprocessorId
      have nonempty := offered i route a at' (window,w) (List.mk_mem_zipIdx_iff_getElem?.mpr there) v removes
      rcases (windowSound.columns g columns open' col member).place with ⟨empty,none⟩ | ⟨lo,oldest,used,places⟩
      · refine ⟨?_,fun started => by omega⟩
        rcases where' with rfl | ⟨rfl,_⟩
        · have item := Std.ExtTreeMap.mem_toList_iff_getElem?_eq_some.mpr open'
          rcases nonempty (by omega) (g,columns) item col member with min | max | started
          · exact .inl min
          · exact .inr (.inl max)
          · contradiction
        · rw [readsInside,empty,ColumnTracking.indicesEmpty le_rfl]
          exact .inr (.inr (fun _ none => absurd none List.not_mem_nil))
      · rcases where' with rfl | ⟨_,idle⟩
        · rw [readsInside,oldest]
          have inside : ∀ n ∈ indices (lo : Int) s.tracked.store.allEvents.length,
              0 ≤ n ∧ n < s.tracked.store.allEvents.length := by
            intro n within
            have bounds := ColumnTracking.indicesMem within
            omega
          refine ⟨.inr (.inr inside),fun _ n within mine => ?_⟩
          have bounds := ColumnTracking.indicesMem within
          obtain ⟨k,rfl⟩ := Int.eq_ofNat_of_zero_le (inside n within).1
          have below : k < s.tracked.store.allEvents.length := by omega
          obtain ⟨e,event,read⟩ := ColumnTracking.eventRead below
          rw [read] at mine
          have key : e.groupAt a.preprocessor.id = g := by
            rw [← own,← id,← group]
            simpa [ColumnConfig.inGroup] using mine
          rw [places,← keys]
          refine List.mem_filter.mpr ⟨List.mem_range'_1.mpr ?_,?_⟩
          · rw [List.length_map,Int.toNat_natCast]
            omega
          · simp [event,key]
        · exact absurd (windowSound.idle idle g) used
  | addEvent r => trivial
  | callback cells => trivial
  | setToFillInMemory => trivial
  | createPreprocessor d name pre => trivial

omit [∀ d, Scalar (V d)] in
theorem newInv (info : TableInfo) : Inv info (Recorded.new (V := V) info) where
  represents := newRepresents info
  laid _ member := absurd member List.not_mem_nil
  sound j a at' := by simp [Recorded.new,Tracked.new,TableStore.new] at at'

theorem countsHold (info : TableInfo) (actions : List ((Nat → Nat → Int) × Action V))
    (fromTable : ∀ a ∈ actions, FromTable info a.2)
    (offered : Guarded Recorded.step Offered (Recorded.new info) actions) :
    Always Recorded.step CountsAdded (Recorded.new info) actions ∧
      Guarded Recorded.step SubtractsAdded (Recorded.new info) actions := by
  have guarded : Guarded Recorded.step (fun s a => FromTable info a.2 ∧ Offered s a) (Recorded.new info) actions :=
    guardedAnd fromTable offered
  have preserved : ∀ (s : Recorded V) a next, Inv info s → FromTable info a.2 ∧ Offered s a →
      s.step a = some next → Inv info next := fun s a next h guard taken => stepInv h guard.1 guard.2 taken
  exact ⟨guardedAlways (fun s h => soundCounts h.sound) preserved (newInv info) guarded,
    guardedImplies (fun s a h guard => subtractsSound h guard.2) preserved (newInv info) guarded⟩

end Stores

section Ticks

def NonDecreasing (clocks : List (Nat → Nat → Int)) : Prop :=
  (∀ clock ∈ clocks, ∀ i w i' w', i < i' ∨ (i = i' ∧ w ≤ w') → clock i w ≤ clock i' w') ∧
    clocks.Pairwise (fun before after => ∀ i w i' w', before i w ≤ after i' w')

def countsOf {V : ElementType → Type} (s : TableStore V) : List Int :=
  s.preprocessors.flatMap (fun a => a.preprocessor.rollingWindows.flatMap (fun window =>
    window.groupWiseAggregatedColumnMap.toList.flatMap (fun item => item.2.map (·.totalCount))))

theorem countsOfNonNegative {V : ElementType → Type} {s : Recorded V} (h : CountsAdded s) :
    ∀ n ∈ countsOf s.tracked.store, 0 ≤ n := by
  intro n member
  obtain ⟨a,preprocessor,member⟩ := List.mem_flatMap.mp member
  obtain ⟨window,there,member⟩ := List.mem_flatMap.mp member
  obtain ⟨⟨g,columns⟩,item,member⟩ := List.mem_flatMap.mp member
  obtain ⟨col,inside,rfl⟩ := List.mem_map.mp member
  obtain ⟨j,at'⟩ := List.mem_iff_getElem?.mp preprocessor
  obtain ⟨w,at''⟩ := List.mem_iff_getElem?.mp there
  exact (h j a at' w window at'' g columns (Std.ExtTreeMap.mem_toList_iff_getElem?_eq_some.mp item) col inside).notNegative

def carts : TableInfo := ⟨"carts",.ofList [("user","TEXT"),("items","INT")],60⟩

def always (now : Int) : Nat → Nat → Int := fun _ _ => now

def tick : Nat → Nat → Int := fun i _ => if i = 0 then 100 else 101

def tickActions : List ((Nat → Nat → Int) × Action IntValues) :=
  [(always 40,.setToFillInMemory),(always 40,.addEvent ⟨40,.ofList [("items","3"),("user","ann")]⟩),
    (always 40,.addEvent ⟨40,.ofList [("items","4"),("user","ann")]⟩),
    (tick,.createPreprocessor .int32 "ranker" ⟨[60],[⟨"items","Avg",0⟩],["user"],"carts"⟩),
    (always 200,.getModelInput "ranker" [[("user","ann")]])]

def Within (clock : Nat → Nat → Int) (range : Int × Int) : Prop := ∀ i w, range.1 ≤ clock i w ∧ clock i w ≤ range.2

theorem withinPairwise {clocks : List (Nat → Nat → Int)} {ranges : List (Int × Int)} (within : List.Forall₂ Within clocks ranges)
    (apart : ranges.Pairwise (fun before after => before.2 ≤ after.1)) :
    clocks.Pairwise (fun before after => ∀ i w i' w', before i w ≤ after i' w') := by
  induction within with
  | nil => exact .nil
  | @cons clock range clocks ranges here others ih =>
      obtain ⟨first,rest⟩ := List.pairwise_cons.mp apart
      refine List.pairwise_cons.mpr ⟨fun after member i w i' w' => ?_,ih rest⟩
      obtain ⟨k,at'⟩ := List.mem_iff_getElem?.mp member
      obtain ⟨later,there,bounds⟩ := LogSuffix.forall₂At others.flip at'
      have order := first later (List.mem_of_getElem? there)
      have low := (here i w).2
      have high := (bounds i' w').1
      omega

theorem tickWithin : Within tick (100,101) := by
  intro i w
  unfold tick
  split
  · decide
  · decide

theorem tickNonDecreasing : NonDecreasing (tickActions.map Prod.fst) := by
  have same : ∀ now, Within (always now) (now,now) := fun now _ _ => ⟨le_rfl,le_rfl⟩
  refine ⟨fun clock member i w i' w' order => ?_,?_⟩
  · simp only [tickActions,List.map_cons,List.map_nil,List.mem_cons,List.not_mem_nil,or_false] at member
    rcases member with rfl | rfl | rfl | rfl | rfl
    · exact le_rfl
    · exact le_rfl
    · exact le_rfl
    · unfold tick
      split_ifs <;> omega
    · exact le_rfl
  · exact withinPairwise (.cons (same 40) (.cons (same 40) (.cons (same 40) (.cons tickWithin (.cons (same 200) .nil)))))
      (by decide)

/- Two events of one second are in memory when the preprocessor is made. The second one is
past its window when its turn comes, and yet it is subtracted with the first. -/
theorem tickSubtracts : ¬ ∀ (info : TableInfo) (actions : List ((Nat → Nat → Int) × Action IntValues))
    (final : Recorded IntValues), (∀ a ∈ actions, FromTable info a.2) → NonDecreasing (actions.map Prod.fst) →
    run Recorded.step (Recorded.new info) actions = some final →
    (final.tracked.given.map (·.timestamp)).Pairwise (· ≤ ·) → CountsAdded final := by
  intro claim
  have fromTable : ∀ a ∈ tickActions, FromTable carts a.2 := by
    intro a member
    simp only [tickActions,List.mem_cons,List.not_mem_nil,or_false] at member
    rcases member with rfl | rfl | rfl | rfl | rfl
    all_goals trivial
  have ran : (run Recorded.step (Recorded.new carts) tickActions).map (fun final =>
      (final.tracked.given.map (·.timestamp),countsOf final.tracked.store)) = some ([40,40],[-1]) := by decide +kernel
  obtain ⟨final,ok,same⟩ := Option.map_eq_some_iff.mp ran
  obtain ⟨times,counts⟩ := Prod.mk.injEq .. ▸ same
  have sorted : (final.tracked.given.map (·.timestamp)).Pairwise (· ≤ ·) := by
    rw [times]
    decide
  have good := claim carts tickActions final fromTable tickNonDecreasing ok sorted
  have negative := countsOfNonNegative good (-1) (by rw [counts]; exact List.mem_cons_self)
  omega

def steadyActions : List ((Nat → Nat → Int) × Action IntValues) :=
  [(always 40,.setToFillInMemory),(always 40,.addEvent ⟨40,.ofList [("items","3"),("user","ann")]⟩),
    (always 40,.addEvent ⟨40,.ofList [("items","4"),("user","ann")]⟩),
    (always 100,.createPreprocessor .int32 "ranker" ⟨[60],[⟨"items","Avg",0⟩],["user"],"carts"⟩),
    (always 200,.getModelInput "ranker" [[("user","ann")]])]

theorem steadyCounts : ∃ final : Recorded IntValues, CountsAdded final ∧ countsOf final.tracked.store = [0] := by
  have fromTable : ∀ a ∈ steadyActions, FromTable carts a.2 := by
    intro a member
    simp only [steadyActions,List.mem_cons,List.not_mem_nil,or_false] at member
    rcases member with rfl | rfl | rfl | rfl | rfl
    all_goals trivial
  have offered : Guarded Recorded.step Offered (Recorded.new carts) steadyActions := by decide +kernel
  have ran : (run Recorded.step (Recorded.new carts) steadyActions).map (fun final => countsOf final.tracked.store) =
      some [0] := by decide +kernel
  obtain ⟨final,ok,counts⟩ := Option.map_eq_some_iff.mp ran
  exact ⟨final,alwaysEnd (countsHold carts steadyActions fromTable offered).1 ok,counts⟩

end Ticks
end NimbleNet.AddedEvents
