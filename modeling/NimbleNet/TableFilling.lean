import NimbleNet.TableStoreInvariant

/-! add_event calls on one table, in any number, while the background thread makes the
table's first preprocessor. Each call checks, inserts and adds its row in three steps;
the thread checks the flag, sets it, selects the rows and creates in four. -/
namespace NimbleNet.TableFilling
open StepRuns TableStoreInvariant

inductive Filler where
  | waiting | foundEmpty | filling | filled | finished
  deriving DecidableEq

structure Call where
  id : Nat
  row : TableRow
  deriving DecidableEq

/- `origins`: the calls that the events in memory come from, in their order. `database`:
the calls whose rows are in the table. -/
structure Filling (V : ElementType → Type) where
  memory : Tracked V
  origins : List Nat
  database : List Nat
  started : Nat
  checked : List Call
  inserted : List Call
  filler : Filler

variable {V : ElementType → Type} [∀ d, Scalar (V d)]

inductive Action (V : ElementType → Type) where
  | check (r : TableRow)
  | insert (id : Nat) (executed : Bool)
  | addRow (clock : Nat → Nat → Int) (id : Nat)
  | checkReady
  | setToFillInMemory
  | select (clock : Nat → Nat → Nat → Int) (rows : List Call)
  | createPreprocessor (clock : Nat → Nat → Int) (d : ElementType) (modelInputIdentifier : String)
      (info : PreProcessorInfo (V d))

def put (clock : Nat → Nat → Int) (s : Filling V) (c : Call) : Filling V :=
  {s with
    memory := s.memory.addRow clock c.row
    origins := if s.memory.store.isReadyToBeFilled then s.origins ++ [c.id] else s.origins}

def putAll (clock : Nat → Nat → Nat → Int) : Nat → Filling V → List Call → Filling V
  | _,s,[] => s
  | k,s,c :: rest => putAll clock (k + 1) (put (clock k) s c) rest

def Delivers (s : Filling V) (rows : List Call) : Prop :=
  (rows.map Call.id).Perm s.database ∧ ∀ c ∈ rows, s.memory.store.checkColumnsOfRow c.row = true
omit [∀ d, Scalar (V d)] in
instance (s : Filling V) (rows : List Call) : Decidable (Delivers s rows) := by unfold Delivers; infer_instance

def step (s : Filling V) : Action V → Option (Filling V)
  | .check r => some (
      if s.memory.store.checkColumnsOfRow r then {s with started := s.started + 1, checked := ⟨s.started,r⟩ :: s.checked}
      else s)
  | .insert id executed => do
      let c ← s.checked.find? (·.id = id)
      let waiting := s.checked.filter (·.id ≠ id)
      some (
        if executed then {s with checked := waiting, database := s.database ++ [id], inserted := c :: s.inserted}
        else {s with checked := waiting})
  | .addRow clock id => do
      let c ← s.inserted.find? (·.id = id)
      some {put clock s c with inserted := s.inserted.filter (·.id ≠ id)}
  | .checkReady =>
      if s.filler = .waiting then
        some {s with filler := if s.memory.store.isReadyToBeFilled then .filled else .foundEmpty}
      else none
  | .setToFillInMemory =>
      if s.filler = .foundEmpty then
        some {s with memory := {s.memory with store := s.memory.store.setToFillInMemory}, filler := .filling}
      else none
  | .select clock rows =>
      if s.filler = .filling ∧ Delivers s rows then some {putAll clock 0 s rows with filler := .filled} else none
  | .createPreprocessor clock d name info =>
      if s.filler = .filled then
        some {s with
          memory := {s.memory with store := (s.memory.store.createPreprocessor clock d name info).1}
          filler := .finished}
      else none

def start (info : TableInfo) (old : Nat) : Filling V := ⟨.new info,[],List.range old,old,[],[],.waiting⟩

def Finished (s : Filling V) : Prop := s.filler = .finished ∧ s.checked = [] ∧ s.inserted = []
omit [∀ d, Scalar (V d)] in
instance (s : Filling V) : Decidable (Finished s) := by unfold Finished; infer_instance

/- add_row runs before the flag is set, or after a SELECT that did not deliver the event. -/
def OnOneSide (s : Filling V) : Action V → Prop
  | .addRow _ id => s.memory.store.isReadyToBeFilled = false ∨ (s.filler ≠ .filling ∧ id ∉ s.origins)
  | _ => True

def isSet : Filler → Bool
  | .waiting => false
  | .foundEmpty => false
  | _ => true

def hasSelected : Filler → Bool
  | .filled => true
  | .finished => true
  | _ => false

theorem selectedSet {f : Filler} (selected : hasSelected f = true) : isSet f = true := by
  cases f with
  | waiting => contradiction
  | foundEmpty => contradiction
  | filling => rfl
  | filled => rfl
  | finished => rfl

structure Fills (info : TableInfo) (s : Filling V) : Prop where
  represents : Represents info s.memory
  aligned : s.origins.length = s.memory.given.length
  ready : s.memory.store.isReadyToBeFilled = isSet s.filler
  unfilled : isSet s.filler = false → s.origins = []
  distinct : s.database.Nodup
  below : ∀ id ∈ s.database, id < s.started
  checked : ∀ c ∈ s.checked, c.id < s.started ∧ c.id ∉ s.database ∧ c.row.row.keys = info.schema.keys
  inserted : ∀ c ∈ s.inserted, c.id ∈ s.database ∧ c.row.row.keys = info.schema.keys
  known : ∀ id ∈ s.origins, id ∈ s.database
  loaded : hasSelected s.filler = true → ∀ id ∈ s.database, id ∈ s.origins ∨ ∃ c ∈ s.inserted, c.id = id

def Single (s : Filling V) : Prop := s.origins.Nodup ∧ (s.filler = .filling → s.origins = [])

section Put

theorem addRowReady (clock : Nat → Nat → Int) (s : TableStore V) (r : TableRow) :
    (s.addRow clock r).isReadyToBeFilled = s.isReadyToBeFilled := by
  unfold TableStore.addRow
  split
  · rfl
  · split <;> rfl

theorem createReady (clock : Nat → Nat → Int) (s : TableStore V) (d : ElementType) (name : String)
    (info : PreProcessorInfo (V d)) : (s.createPreprocessor clock d name info).1.isReadyToBeFilled = s.isReadyToBeFilled := by
  unfold TableStore.createPreprocessor
  split <;> rfl

structure PutIn (info : TableInfo) (s next : Filling V) (ids : List Nat) : Prop where
  represents : Represents info next.memory
  ready : next.memory.store.isReadyToBeFilled = s.memory.store.isReadyToBeFilled
  origins : next.origins = if s.memory.store.isReadyToBeFilled then s.origins ++ ids else s.origins
  aligned : next.origins.length = next.memory.given.length
  others : next.database = s.database ∧ next.started = s.started ∧ next.checked = s.checked ∧
    next.inserted = s.inserted ∧ next.filler = s.filler

variable {info : TableInfo} {s : Filling V}

theorem putPutsIn (represents : Represents info s.memory) (aligned : s.origins.length = s.memory.given.length)
    (clock : Nat → Nat → Int) {c : Call} (keys : c.row.row.keys = info.schema.keys) :
    PutIn info s (put clock s c) [c.id] := by
  refine ⟨addRowRepresents represents clock keys,addRowReady clock s.memory.store c.row,rfl,?_,rfl,rfl,rfl,rfl,rfl⟩
  simp only [put,Tracked.addRow]
  split
  · rw [List.length_append,List.length_append,aligned]
    rfl
  · exact aligned

theorem putAllPutsIn (clock : Nat → Nat → Nat → Int) (k : Nat) {rows : List Call}
    (represents : Represents info s.memory) (aligned : s.origins.length = s.memory.given.length)
    (keys : ∀ c ∈ rows, c.row.row.keys = info.schema.keys) : PutIn info s (putAll clock k s rows) (rows.map Call.id) := by
  induction rows generalizing k s with
  | nil =>
      refine ⟨represents,rfl,?_,aligned,rfl,rfl,rfl,rfl,rfl⟩
      simp [putAll]
  | cons c rest ih =>
      have first := putPutsIn represents aligned (clock k) (keys c List.mem_cons_self)
      have later := ih (k + 1) first.represents first.aligned (fun d member => keys d (List.mem_cons_of_mem c member))
      obtain ⟨database,started,checked,inserted,filler⟩ := later.others
      obtain ⟨database',started',checked',inserted',filler'⟩ := first.others
      refine ⟨later.represents,later.ready.trans first.ready,?_,later.aligned,database.trans database',
        started.trans started',checked.trans checked',inserted.trans inserted',filler.trans filler'⟩
      refine later.origins.trans ?_
      rw [first.ready,first.origins]
      split
      · rw [List.append_assoc]
        rfl
      · rfl

end Put

section Steps
variable {info : TableInfo} {s next : Filling V}

theorem checkFills (inv : Fills info s) (r : TableRow) (taken : step s (.check r) = some next) :
    Fills info next ∧ (Single next ↔ Single s) := by
  cases taken
  split
  · rename_i columns
    refine ⟨⟨inv.represents,inv.aligned,inv.ready,inv.unfilled,inv.distinct,?_,?_,inv.inserted,inv.known,inv.loaded⟩,Iff.rfl⟩
    · exact fun id member => Nat.lt_succ_of_lt (inv.below id member)
    · intro c member
      rcases List.mem_cons.mp member with rfl | old
      · exact ⟨Nat.lt_succ_self _,fun inside => Nat.lt_irrefl _ (inv.below _ inside),checkedKeys inv.represents columns⟩
      · have before := inv.checked c old
        exact ⟨Nat.lt_succ_of_lt before.1,before.2⟩
  · exact ⟨inv,Iff.rfl⟩

theorem insertFills (inv : Fills info s) {id : Nat} {executed : Bool} (taken : step s (.insert id executed) = some next) :
    Fills info next ∧ (Single next ↔ Single s) := by
  simp only [step,bind,Option.bind_eq_some_iff] at taken
  obtain ⟨c,found,taken⟩ := taken
  have asked := inv.checked c (List.mem_of_find?_eq_some found)
  have same : c.id = id := by simpa using List.find?_some found
  subst same
  have others : ∀ d ∈ s.checked.filter (·.id ≠ c.id), d ∈ s.checked ∧ d.id ≠ c.id := fun d member => by
    have kept := List.mem_filter.mp member
    exact ⟨kept.1,by simpa using kept.2⟩
  cases executed with
  | false =>
      simp only [Bool.false_eq_true,if_false,Option.some.injEq] at taken
      subst taken
      refine ⟨⟨inv.represents,inv.aligned,inv.ready,inv.unfilled,inv.distinct,inv.below,?_,inv.inserted,inv.known,inv.loaded⟩,
        Iff.rfl⟩
      exact fun d member => inv.checked d (others d member).1
  | true =>
      simp only [if_true,Option.some.injEq] at taken
      subst taken
      refine ⟨⟨inv.represents,inv.aligned,inv.ready,inv.unfilled,?_,?_,?_,?_,?_,?_⟩,Iff.rfl⟩
      · have apart : s.database.Disjoint [c.id] := by simpa using asked.2.1
        exact inv.distinct.append (List.nodup_singleton c.id) apart
      · intro d member
        rcases List.mem_append.mp member with old | new
        · exact inv.below d old
        · rw [List.mem_singleton.mp new]
          exact asked.1
      · intro d member
        obtain ⟨before,other⟩ := others d member
        obtain ⟨below,fresh,keys⟩ := inv.checked d before
        refine ⟨below,fun inside => ?_,keys⟩
        rcases List.mem_append.mp inside with old | new
        · exact fresh old
        · exact other (List.mem_singleton.mp new)
      · intro d member
        rcases List.mem_cons.mp member with rfl | old
        · exact ⟨List.mem_append_right _ List.mem_cons_self,asked.2.2⟩
        · have before := inv.inserted d old
          exact ⟨List.mem_append_left _ before.1,before.2⟩
      · exact fun d member => List.mem_append_left _ (inv.known d member)
      · intro selected d member
        rcases List.mem_append.mp member with old | new
        · rcases inv.loaded selected d old with inMemory | ⟨e,waiting,rfl⟩
          · exact .inl inMemory
          · exact .inr ⟨e,List.mem_cons_of_mem c waiting,rfl⟩
        · exact .inr ⟨c,List.mem_cons_self,(List.mem_singleton.mp new).symm⟩

theorem addRowFills (inv : Fills info s) {clock : Nat → Nat → Int} {id : Nat}
    (taken : step s (.addRow clock id) = some next) :
    Fills info next ∧ (Single next ↔ Single s ∧ OnOneSide s (.addRow clock id)) := by
  simp only [step,bind,Option.bind_eq_some_iff] at taken
  obtain ⟨c,found,taken⟩ := taken
  have asked := inv.inserted c (List.mem_of_find?_eq_some found)
  have same : c.id = id := by simpa using List.find?_some found
  subst same
  cases taken
  have here := putPutsIn inv.represents inv.aligned clock asked.2
  have set' : s.memory.store.isReadyToBeFilled = isSet s.filler := inv.ready
  have waitingStill : ∀ d ∈ s.inserted, d.id ≠ c.id → d ∈ s.inserted.filter (·.id ≠ c.id) := fun d member other =>
    List.mem_filter.mpr ⟨member,by simpa using other⟩
  have inserted : ∀ d ∈ s.inserted.filter (·.id ≠ c.id), d.id ∈ s.database ∧ d.row.row.keys = info.schema.keys :=
    fun d member => inv.inserted d (List.mem_filter.mp member).1
  have origins := here.origins
  cases ready : s.memory.store.isReadyToBeFilled with
  | false =>
      rw [ready] at origins set'
      simp only [Bool.false_eq_true,if_false] at origins
      have none := inv.unfilled set'.symm
      refine ⟨⟨here.represents,here.aligned,here.ready.trans inv.ready,?_,inv.distinct,inv.below,inv.checked,inserted,?_,?_⟩,?_⟩
      · exact fun _ => origins.trans none
      · intro d member
        rw [origins] at member
        exact inv.known d member
      · intro selected
        exact absurd (set'.trans (selectedSet selected)) (by decide)
      · simp only [Single,OnOneSide,ready,true_or,and_true]
        rw [show (put clock s c).origins = s.origins from origins]
        rfl
  | true =>
      rw [ready] at origins set'
      simp only [if_true] at origins
      refine ⟨⟨here.represents,here.aligned,here.ready.trans inv.ready,?_,inv.distinct,inv.below,inv.checked,inserted,?_,?_⟩,?_⟩
      · intro unset
        exact absurd (set'.trans unset) (by decide)
      · intro d member
        rw [origins] at member
        rcases List.mem_append.mp member with old | new
        · exact inv.known d old
        · rw [List.mem_singleton.mp new]
          exact asked.1
      · intro selected d member
        rw [origins]
        by_cases isCall : d = c.id
        · exact .inl (List.mem_append_right _ (List.mem_singleton.mpr isCall))
        · rcases inv.loaded selected d member with inMemory | ⟨e,waiting,rfl⟩
          · exact .inl (List.mem_append_left _ inMemory)
          · exact .inr ⟨e,waitingStill e waiting isCall,rfl⟩
      · simp only [Single,OnOneSide,ready,Bool.true_eq_false,false_or]
        rw [show (put clock s c).origins = s.origins ++ [c.id] from origins]
        simp only [List.nodup_append,List.append_eq_nil_iff,List.cons_ne_nil,and_false,imp_false]
        have kept : (put clock s c).filler = s.filler := rfl
        rw [kept]
        grind

theorem selectFills (inv : Fills info s) {clock : Nat → Nat → Nat → Int} {rows : List Call}
    (taken : step s (.select clock rows) = some next) : Fills info next ∧ (Single next ↔ Single s) := by
  simp only [step] at taken
  split at taken
  · rename_i asked
    obtain ⟨filling,perm,columns⟩ := asked
    have here := putAllPutsIn clock 0 inv.represents inv.aligned (fun c member => checkedKeys inv.represents (columns c member))
    obtain ⟨database,started,checked,inserted,filler⟩ := here.others
    have ready : s.memory.store.isReadyToBeFilled = true := by
      rw [inv.ready,filling]
      rfl
    have origins := here.origins
    rw [ready,if_pos rfl] at origins
    cases taken
    refine ⟨⟨here.represents,here.aligned,here.ready.trans ready,by simp [isSet],?_,?_,?_,?_,?_,?_⟩,?_⟩
    · rw [database]
      exact inv.distinct
    · rw [database,started]
      exact inv.below
    · rw [checked,started,database]
      exact inv.checked
    · rw [inserted,database]
      exact inv.inserted
    · intro d member
      rw [origins] at member
      rw [database]
      rcases List.mem_append.mp member with old | new
      · exact inv.known d old
      · exact perm.mem_iff.mp new
    · intro _ d member
      rw [database] at member
      rw [origins]
      exact .inl (List.mem_append_right _ (perm.mem_iff.mpr member))
    · simp only [Single,origins,filling,true_imp_iff,reduceCtorEq,false_imp_iff,and_true]
      constructor
      · intro distinct
        have parts := List.nodup_append.mp distinct
        refine ⟨parts.1,List.eq_nil_iff_forall_not_mem.mpr (fun d member => ?_)⟩
        exact parts.2.2 d member d (perm.mem_iff.mpr (inv.known d member)) rfl
      · rintro ⟨_,none⟩
        rw [none,List.nil_append]
        exact perm.nodup_iff.mpr inv.distinct
  · contradiction

theorem fillerFills (inv : Fills info s) {a : Action V} (taken : step s a = some next)
    (thread : a = .checkReady ∨ a = .setToFillInMemory ∨ ∃ clock d name pre, a = .createPreprocessor clock d name pre) :
    Fills info next ∧ (Single next ↔ Single s) := by
  rcases thread with rfl | rfl | ⟨clock,d,name,pre,rfl⟩
  · simp only [step] at taken
    split at taken
    · rename_i waiting
      have ready := inv.ready
      rw [waiting] at ready
      rw [ready] at taken
      cases taken
      refine ⟨⟨inv.represents,inv.aligned,ready,?_,inv.distinct,inv.below,inv.checked,inv.inserted,inv.known,?_⟩,?_⟩
      · exact fun _ => inv.unfilled (by rw [waiting]; rfl)
      · exact fun selected => absurd (selectedSet selected) Bool.false_ne_true
      · simp [Single,waiting,isSet]
    · contradiction
  · simp only [step] at taken
    split at taken
    · rename_i empty
      have none := inv.unfilled (by rw [empty]; rfl)
      have same := inv.represents
      cases taken
      refine ⟨⟨⟨same.schema,same.rows,same.keys,same.groups,same.ids,same.routes⟩,inv.aligned,rfl,fun _ => none,
        inv.distinct,inv.below,inv.checked,inv.inserted,inv.known,?_⟩,?_⟩
      · intro selected
        contradiction
      · simp [Single,empty,none]
    · contradiction
  · simp only [step] at taken
    split at taken
    · rename_i filled
      cases taken
      have ready := (createReady clock s.memory.store d name pre).trans inv.ready
      rw [filled] at ready
      refine ⟨⟨createRepresents inv.represents clock d name pre,inv.aligned,ready,by simp [isSet],inv.distinct,inv.below,
        inv.checked,inv.inserted,inv.known,fun _ => inv.loaded (by rw [filled]; rfl)⟩,?_⟩
      simp [Single,filled]
    · contradiction

theorem stepFills (inv : Fills info s) {a : Action V} (taken : step s a = some next) :
    Fills info next ∧ (Single next ↔ Single s ∧ OnOneSide s a) := by
  cases a with
  | check r =>
      obtain ⟨inv',same⟩ := checkFills inv r taken
      exact ⟨inv',same.trans (and_iff_left trivial).symm⟩
  | insert id executed =>
      obtain ⟨inv',same⟩ := insertFills inv taken
      exact ⟨inv',same.trans (and_iff_left trivial).symm⟩
  | addRow clock id => exact addRowFills inv taken
  | checkReady =>
      obtain ⟨inv',same⟩ := fillerFills inv taken (.inl rfl)
      exact ⟨inv',same.trans (and_iff_left trivial).symm⟩
  | setToFillInMemory =>
      obtain ⟨inv',same⟩ := fillerFills inv taken (.inr (.inl rfl))
      exact ⟨inv',same.trans (and_iff_left trivial).symm⟩
  | select clock rows =>
      obtain ⟨inv',same⟩ := selectFills inv taken
      exact ⟨inv',same.trans (and_iff_left trivial).symm⟩
  | createPreprocessor clock d name pre =>
      obtain ⟨inv',same⟩ := fillerFills inv taken (.inr (.inr ⟨clock,d,name,pre,rfl⟩))
      exact ⟨inv',same.trans (and_iff_left trivial).symm⟩

end Steps

section Runs
variable {info : TableInfo}

omit [∀ d, Scalar (V d)] in
theorem startFills (info : TableInfo) (old : Nat) : Fills info (start (V := V) info old) where
  represents := newRepresents info
  aligned := rfl
  ready := rfl
  unfilled _ := rfl
  distinct := List.nodup_range
  below _ member := List.mem_range.mp member
  checked _ member := absurd member List.not_mem_nil
  inserted _ member := absurd member List.not_mem_nil
  known _ member := absurd member List.not_mem_nil
  loaded selected := absurd selected Bool.false_ne_true

def ExactlyOnce (s : Filling V) : Prop := ∀ id ∈ s.database, s.origins.count id = 1
instance (s : Filling V) : Decidable (ExactlyOnce s) := by unfold ExactlyOnce; infer_instance

theorem onceWhileOnOneSide {old : Nat} {actions : List (Action V)} {final : Filling V}
    (ok : run step (start info old) actions = some final) (ended : Finished final) :
    final.memory.store.allEvents.length = final.origins.length ∧ (∀ id ∈ final.database, id ∈ final.origins) ∧
      (ExactlyOnce final ↔ Guarded step OnOneSide (start info old) actions) := by
  obtain ⟨inv,single⟩ := endIffGuarded (fun _ _ _ inv taken => stepFills inv taken) (startFills info old) ok
  have none : Single (start (V := V) info old) := ⟨List.nodup_nil,fun _ => rfl⟩
  have rows := congrArg List.length inv.represents.rows
  rw [List.length_map,List.length_map] at rows
  have there : ∀ id ∈ final.database, id ∈ final.origins := by
    intro id member
    rcases inv.loaded (by rw [ended.1]; rfl) id member with inMemory | ⟨c,waiting,_⟩
    · exact inMemory
    · rw [ended.2.2] at waiting
      contradiction
  refine ⟨rows.trans inv.aligned.symm,there,Iff.trans ⟨fun once => ?_,fun distinct id member => ?_⟩
    (single.trans (and_iff_right none))⟩
  · refine ⟨List.nodup_iff_count_le_one.mpr (fun id => ?_),fun filling => ?_⟩
    · by_cases member : id ∈ final.origins
      · exact (once id (inv.known id member)).le
      · rw [List.count_eq_zero.mpr member]
        exact Nat.zero_le 1
    · exact absurd (ended.1.symm.trans filling) (by decide)
  · exact List.count_eq_one_of_mem distinct.1 (there id member)

/- After all have finished no event is missing, and each is there once exactly if every
add_row ran before the flag was set or found its event not selected. -/
theorem exactlyOnceIff (info : TableInfo) (old : Nat) (actions : List (Action V)) (final : Filling V)
    (ok : run step (start info old) actions = some final) (ended : Finished final) :
    final.memory.store.allEvents.length = final.origins.length ∧ (∀ id ∈ final.database, id ∈ final.origins) ∧
      (ExactlyOnce final ↔ Guarded step OnOneSide (start info old) actions) :=
  onceWhileOnOneSide ok ended

def carts : TableInfo := ⟨"carts",.ofList [("items","INT")],60⟩

def cart : TableRow := ⟨100,.ofList [("items","3")]⟩

def fill : List (Action IntValues) :=
  [.checkReady,.setToFillInMemory,.select (fun _ _ _ => 100) [⟨0,cart⟩],
    .createPreprocessor (fun _ _ => 100) .int32 "ranker" ⟨[60],[⟨"items","Sum",0⟩],[],"carts"⟩]

def callThenFill : List (Action IntValues) := [.check cart,.insert 0 true,.addRow (fun _ _ => 100) 0] ++ fill

def fillInside : List (Action IntValues) := [.check cart,.insert 0 true] ++ fill ++ [.addRow (fun _ _ => 100) 0]

theorem exactlyOnceCart : ∃ final, run step (start carts 0) callThenFill = some final ∧ Finished final ∧
    final.memory.store.allEvents.length = final.origins.length ∧ (∀ id ∈ final.database, id ∈ final.origins) ∧
    (ExactlyOnce final ↔ Guarded step OnOneSide (start carts 0) callThenFill) := by
  have runs : (run step (start carts 0) callThenFill).map (fun s => decide (Finished s)) = some true := by decide +kernel
  obtain ⟨final,ok,ended⟩ := Option.map_eq_some_iff.mp runs
  have ended := of_decide_eq_true ended
  exact ⟨final,ok,ended,exactlyOnceIff carts 0 callThenFill final ok ended⟩

theorem cartTwice : ¬ ∀ (info : TableInfo) (old : Nat) (actions : List (Action IntValues)) (final : Filling IntValues),
    run step (start info old) actions = some final → Finished final → ExactlyOnce final := by
  intro claim
  have runs : (run step (start carts 0) fillInside).map (fun s => decide (Finished s ∧ ¬ ExactlyOnce s)) = some true := by
    decide +kernel
  obtain ⟨final,ok,both⟩ := Option.map_eq_some_iff.mp runs
  have both := of_decide_eq_true both
  exact both.2 (claim carts 0 fillInside final ok both.1)

end Runs
end NimbleNet.TableFilling
