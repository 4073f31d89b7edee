import NimbleNet.CommutingSteps
import NimbleNet.TableStore

/-! Events and preprocessors that come to a table in any order. A preprocessor that comes late
takes in the events that are in memory, one that comes early takes them in one by one. The
clock is taken to say the same to a window whenever it comes to an event: early or late. -/
namespace NimbleNet.LateRegistration
open CommutingSteps TableStore

variable {V : ElementType → Type} [∀ d, Scalar (V d)] (readings : Nat → Nat → Nat → Int)

structure Registered (V : ElementType → Type) where
  elementType : ElementType
  modelInputIdentifier : String
  info : PreProcessorInfo (V elementType)

/- `readings i j w`: for the i-th event by the w-th window of the j-th preprocessor. -/
def add (s : TableStore V) (r : TableRow) : TableStore V := s.addRow (readings s.allEvents.length) r

def register (s : TableStore V) (p : Registered V) : TableStore V :=
  (s.createPreprocessor (fun i => readings i s.preprocessors.length) p.elementType p.modelInputIdentifier p.info).1

section Orders
variable {readings}

theorem feedLength (clock : Nat → Nat → Int) (index j : Nat) (ps : List (AnyPreProcessor V)) (e : TableEvent) :
    (feed clock index j ps e).1.length = ps.length := by
  induction ps generalizing j e with
  | nil => rfl
  | cons p rest ih => simp only [feed,List.length_cons,ih]

theorem backfillLength {T : Type} [Scalar T] (clock : Nat → Nat → Int) (i : Nat) (p : PreProcessor T) (events : List TableEvent) :
    (backfill clock i p events).2.length = events.length := by
  induction events generalizing i p with
  | nil => rfl
  | cons e rest ih => simp only [backfill,List.length_cons,ih]

theorem feedLast (clock : Nat → Nat → Int) (index j : Nat) (ps : List (AnyPreProcessor V)) (d : ElementType)
    (p : PreProcessor (V d)) (e : TableEvent) : feed clock index j (ps ++ [⟨d,p⟩]) e =
      let fed := feed clock index j ps e
      let e' := {fed.2 with groups := fed.2.groups ++ [p.getGroupFromEvent fed.2]}
      (fed.1 ++ [⟨d,p.addEvent (clock (j + ps.length)) e' index⟩],e') := by
  induction ps generalizing j e with
  | nil => rfl
  | cons q rest ih =>
      simp only [List.cons_append,feed,ih,List.length_cons]
      rw [show j + 1 + rest.length = j + (rest.length + 1) by omega]

theorem backfillLast {T : Type} [Scalar T] (clock : Nat → Nat → Int) (i : Nat) (p : PreProcessor T) (events : List TableEvent)
    (e : TableEvent) : backfill clock i p (events ++ [e]) =
      let filled := backfill clock i p events
      let e' := {e with groups := e.groups ++ [filled.1.getGroupFromEvent e]}
      (filled.1.addEvent (clock (i + events.length)) e' (i + events.length),filled.2 ++ [e']) := by
  induction events generalizing i p with
  | nil => rfl
  | cons first rest ih =>
      simp only [List.cons_append,backfill,ih,List.length_cons]
      rw [show i + 1 + rest.length = i + (rest.length + 1) by omega]

omit [∀ d, Scalar (V d)] in
theorem columnIdSame {s s' : TableStore V} (ids : s'.columnToIdMap = s.columnToIdMap) (info : s'.tableInfo = s.tableInfo)
    {T : Type} : (s'.columnIdFor : Operation T → Option Nat) = s.columnIdFor := by
  funext operation
  simp only [columnIdFor,ids,info]

def Takes (s : TableStore V) (r : TableRow) : Prop :=
  s.isReadyToBeFilled = true ∧ r.row.keys.all (s.columnToIdMap.contains ·) = true

variable (readings) in
theorem addTaken {s : TableStore V} {r : TableRow} (takes : Takes s r) : add readings s r =
    let fed := feed (readings s.allEvents.length) s.allEvents.length 0 s.preprocessors
      ⟨[],r.timestamp,r.row.toList.map Prod.snd⟩
    {s with allEvents := s.allEvents ++ [fed.2], preprocessors := fed.1} := by
  unfold add addRow
  rw [takes.1,takes.2]
  rfl

theorem addIgnored {s : TableStore V} {r : TableRow} (ignores : ¬ Takes s r) : add readings s r = s := by
  unfold add addRow
  split
  · rfl
  · split
    · rfl
    · rename_i ready known
      exact absurd ⟨by simpa using ready,by simpa using known⟩ ignores

variable (readings) in
theorem registerCases (s : TableStore V) (d : ElementType) (name : String) (info : PreProcessorInfo (V d)) :
    (info.groupColumns.mapM (s.columnToIdMap[·]?) = none ∨ info.operations.mapM s.columnIdFor = none) ∧
      register readings s ⟨d,name,info⟩ = s ∨
    ∃ groupIds columnIds, info.groupColumns.mapM (s.columnToIdMap[·]?) = some groupIds ∧
      info.operations.mapM s.columnIdFor = some columnIds ∧ register readings s ⟨d,name,info⟩ =
        let filled := backfill (fun i => readings i s.preprocessors.length) 0
          (PreProcessor.new s.preprocessors.length info groupIds columnIds) s.allEvents
        {s with
          allEvents := filled.2,
          modelInputPreprocessorIdMap := s.modelInputPreprocessorIdMap.insert name s.preprocessors.length,
          preprocessors := s.preprocessors ++ [⟨d,filled.1⟩]} := by
  unfold register createPreprocessor
  dsimp only
  split
  · rename_i groupIds columnIds groups columns
    exact .inr ⟨groupIds,columnIds,groups,columns,rfl⟩
  · rename_i refused
    refine .inl ⟨?_,rfl⟩
    cases groups : info.groupColumns.mapM (s.columnToIdMap[·]?) with
    | none => exact .inl rfl
    | some groupIds =>
        cases columns : info.operations.mapM s.columnIdFor with
        | none => exact .inr rfl
        | some columnIds => exact absurd columns (refused groupIds columnIds groups)

theorem addCommutes (s : TableStore V) (r : TableRow) (p : Registered V) :
    add readings (register readings s p) r = register readings (add readings s r) p := by
  obtain ⟨d,name,info⟩ := p
  by_cases takes : Takes s r
  · have after := addTaken readings takes
    have ids : (add readings s r).columnToIdMap = s.columnToIdMap := by rw [after]
    have columns : ((add readings s r).columnIdFor : Operation (V d) → Option Nat) = s.columnIdFor :=
      columnIdSame ids (by rw [after])
    have later := registerCases readings (add readings s r) d name info
    rw [ids,columns] at later
    rcases registerCases readings s d name info with ⟨refused,same⟩ | ⟨groupIds,columnIds,groups,known,same⟩
    · rcases later with ⟨_,same'⟩ | ⟨groupIds,columnIds,groups,known,_⟩
      · rw [same,same']
      · simp [groups,known] at refused
    · rcases later with ⟨refused,_⟩ | ⟨groupIds',columnIds',groups',known',same'⟩
      · simp [groups,known] at refused
      · cases groups.symm.trans groups'
        cases known.symm.trans known'
        have taken : Takes (register readings s ⟨d,name,info⟩) r := by
          rw [same]
          exact takes
        rw [same',addTaken readings taken,same,after]
        simp only [backfillLength,feedLast,feedLength,backfillLast,Nat.zero_add]
  · rw [addIgnored takes]
    refine addIgnored ?_
    rcases registerCases readings s d name info with ⟨_,same⟩ | ⟨_,_,_,_,same⟩
    · rwa [same]
    · rw [same]
      exact takes

theorem registeredLast (s : TableStore V) (steps : List (TableRow ⊕ Registered V)) :
    steps.foldl (act (add readings) (register readings)) s =
      (steps.filterMap Sum.getRight?).foldl (register readings) ((steps.filterMap Sum.getLeft?).foldl (add readings) s) :=
  foldlSplit addCommutes s steps

end Orders

end NimbleNet.LateRegistration
