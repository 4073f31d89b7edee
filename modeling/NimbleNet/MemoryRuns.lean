import NimbleNet.LastInferences
import NimbleNet.ModelOwnership
import NimbleNet.OutputMemory
import NimbleNet.PartialMaps

/-! The executor with its memory, one call after the other: the sessions of the loaded
models, and the return objects that a host was given and has not deallocated. -/
namespace NimbleNet.MemoryRuns
open HeapBlocks MachineNumbers ONNXModel OutputMemory StepRuns

variable {V : ElementType → Type} [∀ d, Scalar (V d)] (parse : String → Option Json) (a : Allocator)

structure Populated where
  heap : Heap
  ret : InferenceReturn

omit [∀ d, Scalar (V d)] in
def populateInput (s : ONNXExecutor V) (t : Populated) (entry : ONNXPreProcessorInput V × Nat) : Flow Populated Unit :=
  match s.populateInput [] entry.1 with
  | .undefined => .undefined
  | .leave _ _ => .leave t ()
  | .proceed _ =>
      let (output,heap) := malloc a t.heap
      let (shape,heap) := malloc a heap
      .proceed ⟨heap,{t.ret with cells := t.ret.cells.set entry.2 (some output,some shape)}⟩

def populateReturn (s : ONNXExecutor V) (entries : List (ONNXPreProcessorInput V)) (h : Heap) : Flow Populated Unit :=
  let (ret,heap) := newReturn a entries.length h
  Flow.loop (populateInput a s) ⟨heap,ret⟩ entries.zipIdx

structure Memory (V : ElementType → Type) where
  executor : ONNXExecutor V
  sessions : StdMap Nat
  handed : List InferenceReturn
  heap : Heap

inductive Action where
  | loadPlan (l : Loading) (modelId : String) (planData : PlanData)
  | getInference (c : Call) (inferId modelId : String)
  | getInputsForInferId (inferId : String)
  | deallocate (position : Nat)

namespace Memory

def start (maxInputsToSave : Nat) (manager : UserEventsManager V) (h : Heap) : Memory V :=
  ⟨.new maxInputsToSave manager,∅,[],h⟩

/- The destructor of the replaced instance deletes its session. -/
def loadPlan (s : Memory V) (l : Loading) (modelId : String) (planData : PlanData) : Option (Memory V) :=
  match (parse planData.extraFields).bind ONNXModelInfo.fromJson with
  | none => some s
  | some info => do
      match ← construct a l modelId planData.version info s.executor.manager s.heap with
      | (manager,heap,none) => some {s with executor.manager := manager, heap := heap}
      | (manager,heap,some (model,session)) =>
          let heap ← freePointer s.sessions[modelId]? heap
          let built := {s.executor with manager := manager, instances := s.executor.instances ++ [some model]}
          some {s with
            executor := built.replaceModel modelId s.executor.instances.length,
            sessions := s.sessions.insert modelId session,
            heap := heap}

/- A host has a return object only from a call that succeeds. -/
def getInference (s : Memory V) (c : Call) (inferId modelId : String) : Option (Memory V) :=
  match s.executor.modelMap[modelId]? with
  | none => some s
  | some address => do
      let m ← s.executor.instanceAt address
      let e ← OutputMemory.getInference a {c with this := address} m s.executor.manager s.heap
      let executor := {s.executor with manager := e.manager, instances := s.executor.instances.set address (some e.model)}
      let handed := if e.exit = .returned SUCCESS then s.handed ++ e.ret.toList else s.handed
      match e.exit with
      | .threw => some {s with executor := executor, heap := e.heap}
      | .returned _ => some {s with
          executor := executor.saveInputs inferId e.preprocessorInputsToFill, handed := handed, heap := e.heap}

def getInputsForInferId (s : Memory V) (inferId : String) : Option (Memory V) :=
  match s.executor.inferenceDataBase.inferIds.idxOf? inferId with
  | none => some s
  | some i =>
      match populateReturn a s.executor (s.executor.inferenceDataBase.preprocessorInputsForInferIds.getD i []) s.heap with
      | .undefined => none
      | .leave t _ => some {s with heap := t.heap}
      | .proceed t => some {s with handed := s.handed ++ [t.ret], heap := t.heap}

def deallocate (s : Memory V) (position : Nat) : Option (Memory V) := do
  let ret ← s.handed[position]?
  let heap ← deallocateOutputMemory ret s.heap
  some {s with handed := s.handed.eraseIdx position, heap := heap}

def blocks (s : Memory V) : List Nat := s.handed.flatMap InferenceReturn.blocks ++ s.sessions.toList.map Prod.snd

end Memory

def step (s : Memory V) : Action → Option (Memory V)
  | .loadPlan l modelId planData => s.loadPlan parse a l modelId planData
  | .getInference c inferId modelId => s.getInference a c inferId modelId
  | .getInputsForInferId inferId => s.getInputsForInferId a inferId
  | .deallocate position => s.deallocate position

def plainStep (s : ONNXExecutor V × Nat) : Action → Option (ONNXExecutor V × Nat)
  | .loadPlan l modelId planData => (s.1.loadPlan parse l modelId planData).map (fun r => (r.1,s.2))
  | .getInference c inferId modelId => (s.1.getInference (fun address => {c with this := address}) inferId modelId).map
      (fun r => (r.1,if r.2 = .returned SUCCESS then s.2 + 1 else s.2))
  | .getInputsForInferId inferId => (s.1.getInputsForInferId inferId).map (fun r => (s.1,if r.2 then s.2 + 1 else s.2))
  | .deallocate position => if position < s.2 then some (s.1,s.2 - 1) else none

def Memory.forget (s : Memory V) : ONNXExecutor V × Nat := (s.executor,s.handed.length)

/- Every type that a loaded model mentions has a size: the constructor's dummy inference has
made a tensor of each. -/
def SupportedTypes (info : ONNXModelInfo) : Prop :=
  ∀ tensor ∈ info.inputs ++ info.outputs, getFieldSizeFromDataType tensor.dataType ≠ 0

def Supported (s : ONNXExecutor V) : Prop := ∀ m, some m ∈ s.instances → SupportedTypes m.info

section Supported
variable {parse} {l : Loading}

theorem createdSupported {input : TensorInfo} {data : Buffer} {tensor : OrtValue}
    (created : createOrtTensor input data = some tensor) : getFieldSizeFromDataType input.dataType ≠ 0 := by
  intro unsupported
  simp [createOrtTensor,unsupported] at created

theorem loopSupported {σ ε : Type} {body : σ → TensorInfo × Nat → Flow σ ε} {items : List TensorInfo} {s s' : σ}
    (each : ∀ item s s', body s item = .proceed s' → getFieldSizeFromDataType item.1.dataType ≠ 0)
    (ok : Flow.loop body s items.zipIdx = .proceed s') : ∀ tensor ∈ items, getFieldSizeFromDataType tensor.dataType ≠ 0 := by
  intro tensor member
  obtain ⟨i,at'⟩ := List.mem_iff_getElem?.mp member
  exact Flow.loopDoneEach each ok (tensor,i) (List.mk_mem_zipIdx_iff_getElem?.mpr at')

theorem dummySupported {m m' : ONNXModel} (ok : ONNXModel.runDummyInference l m = .proceed m') : SupportedTypes m.info := by
  have kept : (Flow.loop (ONNXModel.dummyInput l) m m.info.inputs.zipIdx).Ends (fun t => t.info = m.info) := by
    refine Flow.loopEnds (P := fun (t : ONNXModel) => t.info = m.info) (fun t item good => ?_) rfl _
    unfold ONNXModel.dummyInput
    split
    · exact good
    · split <;> exact good
  unfold ONNXModel.runDummyInference at ok
  cases filled : Flow.loop (ONNXModel.dummyInput l) m m.info.inputs.zipIdx with
  | undefined => simp [filled,Flow.andThen] at ok
  | leave s e => simp [filled,Flow.andThen] at ok
  | proceed s =>
      rw [filled] at kept
      have same : s.info = m.info := kept
      simp only [filled,Flow.andThen,same] at ok
      split at ok <;> try contradiction
      rename_i tensors allocated
      rw [SupportedTypes,List.forall_mem_append]
      refine ⟨loopSupported (fun item s s' pass => ?_) filled,loopSupported (fun item s s' pass => ?_) allocated⟩
      · unfold ONNXModel.dummyInput at pass
        split at pass <;> try contradiction
        rename_i tensor created
        exact createdSupported created
      · unfold ONNXModel.allocateOutput at pass
        split at pass <;> try contradiction
        rename_i tensor created
        exact createdSupported created

theorem constructedSupported {modelId version : String} {info : ONNXModelInfo} {before after : UserEventsManager V}
    {m : ONNXModel} (built : ONNXModel.construct l modelId version info before = some (after,some m)) :
    SupportedTypes m.info := by
  unfold ONNXModel.construct at built
  split at built
  · cases built
  split at built
  · contradiction
  · cases built
  rename_i s _
  have kept := runDummyInferenceKeeps (l := l) s.1
  split at built
  · contradiction
  · cases built
  rename_i m' ran
  cases built
  rw [ran] at kept
  rw [kept.2.1]
  exact dummySupported ran

theorem supportedAppend {instances : List (Option ONNXModel)} (h : ∀ m, some m ∈ instances → SupportedTypes m.info)
    {new : ONNXModel} (own : SupportedTypes new.info) : ∀ m, some m ∈ instances ++ [some new] → SupportedTypes m.info := by
  intro m member
  rcases List.mem_append.mp member with old | here
  · exact h m old
  · cases List.mem_singleton.mp here
    exact own

theorem supportedSet {instances : List (Option ONNXModel)} (h : ∀ m, some m ∈ instances → SupportedTypes m.info)
    {address : Nat} {new : Option ONNXModel} (own : ∀ m ∈ new, SupportedTypes m.info) :
    ∀ m, some m ∈ instances.set address new → SupportedTypes m.info := by
  intro m member
  rcases List.mem_or_eq_of_mem_set member with old | same
  · exact h m old
  · exact own m same.symm

omit [∀ d, Scalar (V d)] in
theorem instanceMember {s : ONNXExecutor V} {address : Nat} {m : ONNXModel} (there : s.instanceAt address = some m) :
    some m ∈ s.instances := by
  rw [ONNXExecutor.instanceAt,Option.join_eq_some_iff] at there
  exact List.mem_of_getElem? there

theorem supportedStep {s next : ONNXExecutor V × Nat} {act : Action} (h : Supported s.1)
    (taken : plainStep parse s act = some next) : Supported next.1 := by
  cases act with
  | loadPlan l modelId planData =>
      obtain ⟨r,loaded,rfl⟩ := Option.map_eq_some_iff.mp taken
      simp only [ONNXExecutor.loadPlan,ONNXExecutor.buildModel,bind,Option.bind_eq_some_iff] at loaded
      obtain ⟨⟨built,address⟩,built',loaded⟩ := loaded
      split at built'
      · cases built'
        cases loaded
        exact h
      · split at built'
        · contradiction
        · cases built'
          cases loaded
          exact h
        · rename_i constructed
          cases built'
          cases loaded
          have appended := supportedAppend h (constructedSupported constructed)
          unfold ONNXExecutor.replaceModel
          simp only [Supported]
          split
          · exact appended
          · exact supportedSet appended (by simp)
  | getInference c inferId modelId =>
      obtain ⟨r,ran,rfl⟩ := Option.map_eq_some_iff.mp taken
      unfold ONNXExecutor.getInference at ran
      split at ran
      · cases ran
        exact h
      · rename_i address _
        simp only [bind,Option.bind_eq_some_iff] at ran
        obtain ⟨m,there,result,body,ran⟩ := ran
        have info : result.frame.model.info = m.info := by
          refine bodyEnds (P := fun (t : Frame V) => t.model.info = m.info) ?_ (fun _ _ _ same => same) body
          exact Flow.endsImp (fillInputsKeeps _) (fun t kept => kept.2.1)
        have set := @supportedSet _ h address (some result.frame.model) (fun m' same => by
          cases same
          rw [info]
          exact h m (instanceMember there))
        split at ran <;> cases ran <;> exact set
  | getInputsForInferId inferId =>
      obtain ⟨r,_,rfl⟩ := Option.map_eq_some_iff.mp taken
      exact h
  | deallocate position =>
      simp only [plainStep] at taken
      split at taken <;> cases taken
      exact h

end Supported

/- The condition on a call: the constructor does not throw once it has its session, and
CreateTensor accepts the tensors over the outputs of a call that gets as far. -/
def KeepsMemory (s : ONNXExecutor V) : Action → Prop
  | .loadPlan l modelId planData => l.runtime.createsSession = true →
      ∀ info ∈ (parse planData.extraFields).bind ONNXModelInfo.fromJson,
        ∀ r ∈ ONNXModel.construct l modelId planData.version info s.manager, r.2.isSome = true
  | .getInference c _ modelId => ∀ address ∈ s.modelMap[modelId]?, ∀ m ∈ s.instanceAt address,
      (fillInputs {c with this := address} ⟨clearOutputTensors m,s.manager,[],[]⟩).isProceed = true →
        ∀ tensor ∈ ownTensors (.output c.number) m.info.outputs, c.runtime.createsTensor tensor = true
  | _ => True

instance : (s : ONNXExecutor V) → (act : Action) → Decidable (KeepsMemory parse s act)
  | s,.loadPlan l modelId planData => inferInstanceAs (Decidable (l.runtime.createsSession = true →
      ∀ info ∈ (parse planData.extraFields).bind ONNXModelInfo.fromJson,
        ∀ r ∈ ONNXModel.construct l modelId planData.version info s.manager, r.2.isSome = true))
  | s,.getInference c _ modelId => inferInstanceAs (Decidable (∀ address ∈ s.modelMap[modelId]?, ∀ m ∈ s.instanceAt address,
      (fillInputs {c with this := address} ⟨clearOutputTensors m,s.manager,[],[]⟩).isProceed = true →
        ∀ tensor ∈ ownTensors (.output c.number) m.info.outputs, c.runtime.createsTensor tensor = true))
  | _,.getInputsForInferId _ => isTrue trivial
  | _,.deallocate _ => isTrue trivial

section Kept
variable {parse} {a} {blocks : List Nat}

omit [∀ d, Scalar (V d)]

theorem populateKind (s : ONNXExecutor V) (saved : List (SavedInput V)) (entry : ONNXPreProcessorInput V) :
    Flow.Matches (fun _ _ => True) (s.populateInput [] entry) (s.populateInput saved entry) := by
  unfold ONNXExecutor.populateInput
  cases s.tensorInfo entry.tensorInfoPtr with
  | none => trivial
  | some t =>
      simp only
      split
      · exact ⟨trivial,rfl⟩
      · split <;> trivial

theorem populateMatches (s : ONNXExecutor V) (entries : List (ONNXPreProcessorInput V)) (k : Nat) (t : Populated)
    (saved : List (SavedInput V)) : Flow.Matches (fun _ _ => True) (Flow.loop (populateInput a s) t (entries.zipIdx k))
      (Flow.loop s.populateInput saved entries) := by
  induction entries generalizing k t saved with
  | nil => trivial
  | cons entry rest ih =>
      have kind := populateKind s saved entry
      rw [List.zipIdx_cons,Flow.loop,Flow.loop,populateInput]
      cases first : s.populateInput [] entry <;> cases second : s.populateInput saved entry <;> rw [first,second] at kind
      case proceed.proceed => exact ih _ _ _
      case leave.leave => exact ⟨trivial,rfl⟩
      case undefined.undefined => trivial
      all_goals exact kind.elim

theorem populateInputHolds {s : ONNXExecutor V} {t : Populated} {item : ONNXPreProcessorInput V × Nat}
    (null : t.ret.cells[item.2]? = some (none,none)) (held : Holds t.heap (t.ret.blocks ++ blocks)) :
    (populateInput a s t item).Ends (fun t' => Holds t'.heap (t'.ret.blocks ++ blocks) ∧
      ∀ j, j ≠ item.2 → t'.ret.cells[j]? = t.ret.cells[j]?) := by
  unfold populateInput
  split
  · trivial
  · exact ⟨held,fun j _ => rfl⟩
  · have both := holdsPerm (mallocHolds a (mallocHolds a held)) (List.Perm.swap _ _ _)
    exact ⟨setCell (some _,some _) null both,fun j other => List.getElem?_set_ne other.symm⟩

theorem populateHolds {h : Heap} (held : Holds h blocks) (s : ONNXExecutor V) (entries : List (ONNXPreProcessorInput V)) :
    (populateReturn a s entries h).Ends (fun t => Holds t.heap (t.ret.blocks ++ blocks)) :=
  cellLoopHolds (fun t : Populated => (t.ret,t.heap)) (fun _ _ => populateInputHolds) (newReturnHolds held entries.length)
    (fun _ _ inside => newReturnNull h inside)

theorem tensorSupported {s : ONNXExecutor V} (h : Supported s) {ptr : TensorInfoPtr} {t : TensorInfo}
    (there : s.tensorInfo ptr = some t) : getFieldSizeFromDataType t.dataType ≠ 0 := by
  obtain ⟨m,alive,input⟩ := Option.bind_eq_some_iff.mp there
  exact h m (instanceMember alive) t (List.mem_append_left _ (List.mem_of_getElem? input))

theorem populateSupported {s : ONNXExecutor V} (h : Supported s) (saved : List (SavedInput V))
    (entry : ONNXPreProcessorInput V) : (s.populateInput saved entry).Leaves (fun _ => False) := by
  unfold ONNXExecutor.populateInput
  split
  · trivial
  · rename_i t there
    simp only [tensorSupported h there,if_false]
    split <;> trivial

def Readable (s : ONNXExecutor V) (entry : ONNXPreProcessorInput V) : Prop :=
  ∃ t ∈ s.tensorInfo entry.tensorInfoPtr, 0 ≤ wrap32 (t.size * getFieldSizeFromDataType t.dataType) ∧
    wrap32 (t.size * getFieldSizeFromDataType t.dataType) ≤
      entry.modelInput.input.data.length * ONNXExecutor.sizeOfElement entry.modelInput.elementType

theorem copySupported {s : ONNXExecutor V} (h : Supported s) (entry : ONNXPreProcessorInput V) :
    (LastInferences.copyOf s entry).isSome = true ↔ Readable s entry := by
  unfold LastInferences.copyOf Readable
  cases there : s.tensorInfo entry.tensorInfoPtr with
  | none => simp
  | some t =>
      simp only [tensorSupported h there,ne_eq,not_false_eq_true,true_and,Option.mem_some_iff,exists_eq_left']
      split <;> simp [*]

theorem populateReturns {s : ONNXExecutor V} (h : Supported s) (entries : List (ONNXPreProcessorInput V)) :
    ((∃ saved, s.populateReturn entries = some (saved,true)) ↔ ∀ entry ∈ entries, Readable s entry) ∧
      ∀ saved, s.populateReturn entries ≠ some (saved,false) := by
  constructor
  · simp only [LastInferences.populateReturns,← copySupported h]
    rw [← PartialMaps.mapMSome,Option.isSome_iff_exists]
  · intro saved
    have never := Flow.loopLeaves (populateSupported h) [] entries
    unfold ONNXExecutor.populateReturn
    split <;> rename_i ended <;> rw [ended] at never
    · simp
    · exact never.elim
    · simp

end Kept

section Ledger
variable {parse} {a} {blocks rest : List Nat}

theorem sessionTaken (sessions : StdMap Nat) (modelId : String) : (sessions.toList.map Prod.snd).Perm
    (sessions[modelId]?.toList ++ (sessions.erase modelId).toList.map Prod.snd) := by
  cases loaded : sessions[modelId]? with
  | none => rw [OrderedMap.eraseAbsent loaded,Option.toList_none,List.nil_append]
  | some session => exact (OrderedMap.listedPerm loaded).map Prod.snd

theorem sessionAdded (sessions : StdMap Nat) (modelId : String) (session : Nat) :
    ((sessions.insert modelId session).toList.map Prod.snd).Perm
      (session :: (sessions.erase modelId).toList.map Prod.snd) :=
  (OrderedMap.insertPerm sessions modelId session).map Prod.snd

def Loses (rest : List Nat) (kept : Prop) (next : Memory V) : Prop :=
  ∃ lost, Holds next.heap (next.blocks ++ (lost ++ rest)) ∧ (lost = [] ↔ kept)

omit [∀ d, Scalar (V d)] in
theorem losesNothing {next : Memory V} {kept : Prop} (held : Holds next.heap (next.blocks ++ rest)) (good : kept) :
    Loses rest kept next := ⟨[],held,by simp [good]⟩

omit [∀ d, Scalar (V d)] in
theorem losesSome {next : Memory V} {kept : Prop} (lost : List Nat)
    (held : Holds next.heap (lost ++ (next.blocks ++ rest))) (some : lost ≠ []) (bad : ¬ kept) : Loses rest kept next :=
  ⟨lost,holdsPerm held (List.perm_append_comm_assoc _ _ _),by simp [some,bad]⟩

omit [∀ d, Scalar (V d)] in
theorem replacedSession {s : Memory V} {heap : Heap} (modelId : String) {session : Nat}
    (held : Holds heap (session :: (s.blocks ++ rest))) : ∃ next, freePointer s.sessions[modelId]? heap = some next ∧
      Holds next (s.handed.flatMap InferenceReturn.blocks ++ (s.sessions.insert modelId session).toList.map Prod.snd ++ rest) := by
  have taken := sessionTaken s.sessions modelId
  have added := sessionAdded s.sessions modelId session
  refine freePointerHolds (holdsPerm held (List.perm_iff_count.mpr (fun x => ?_)))
  have taken := taken.count_eq x
  have added := added.count_eq x
  simp only [Memory.blocks,List.count_append,List.count_cons] at taken added ⊢
  omega

theorem loadLoses {s next : Memory V} {l : Loading} {modelId : String} {planData : PlanData}
    (held : Holds s.heap (s.blocks ++ rest)) (taken : s.loadPlan parse a l modelId planData = some next) :
    Loses rest (KeepsMemory parse s.executor (.loadPlan l modelId planData)) next := by
  unfold Memory.loadPlan at taken
  cases parsed : (parse planData.extraFields).bind ONNXModelInfo.fromJson with
  | none =>
      simp only [parsed] at taken
      cases taken
      exact losesNothing held (by simp [KeepsMemory,parsed])
  | some info =>
      simp only [parsed,bind,Option.bind_eq_some_iff] at taken
      obtain ⟨⟨manager,heap,made⟩,constructed,taken⟩ := taken
      have kept := constructHolds held constructed
      have plain := constructRefines (a := a) (l := l) modelId planData.version info s.executor.manager s.heap
      rw [constructed] at plain
      cases made with
      | none =>
          cases taken
          simp only [ConstructKeeps] at kept
          split at kept
          · rename_i creates
            obtain ⟨lost,some,held⟩ := kept
            refine losesSome lost held some (fun good => ?_)
            simpa using good creates info parsed _ plain.symm
          · rename_i creates
            exact losesNothing kept (fun created => absurd created creates)
      | some made =>
          obtain ⟨next',freed,rest'⟩ := replacedSession modelId kept
          simp only [freed,Option.bind_some] at taken
          cases taken
          refine losesNothing rest' (fun _ info' same r built => ?_)
          cases parsed.symm.trans same
          cases plain.trans built
          rfl

omit [∀ d, Scalar (V d)] in
theorem handedBlocks {s next : Memory V} {ret : InferenceReturn} (handed : next.handed = s.handed ++ [ret])
    (sessions : next.sessions = s.sessions) : (ret.blocks ++ (s.blocks ++ rest)).Perm (next.blocks ++ rest) := by
  refine List.perm_iff_count.mpr (fun x => ?_)
  simp only [Memory.blocks,handed,sessions,List.flatMap_append,List.flatMap_singleton,List.count_append]
  omega

theorem allocatesOutputs {c : Call} {m : ONNXModel} {manager : UserEventsManager V} (supported : SupportedTypes m.info) :
    (∃ s, fillInputs c ⟨clearOutputTensors m,manager,[],[]⟩ = .proceed s ∧
      (ONNXModel.allocateOutputMemory c.runtime.createsTensor (.output c.number) s.model.info.outputs
        s.model.outputTensors).isProceed = false) ↔
      ¬ ((fillInputs c ⟨clearOutputTensors m,manager,[],[]⟩).isProceed = true →
        ∀ tensor ∈ ownTensors (.output c.number) m.info.outputs, c.runtime.createsTensor tensor = true) := by
  have kept := fillInputsKeeps (c := c) ⟨clearOutputTensors m,manager,[],[]⟩
  have sized : ∀ item ∈ m.info.outputs.zipIdx, getFieldSizeFromDataType item.1.dataType ≠ 0 := fun item member =>
    supported item.1 (List.mem_append_right _ (List.fst_mem_of_mem_zipIdx member))
  cases filled : fillInputs c ⟨clearOutputTensors m,manager,[],[]⟩ with
  | undefined => simp [Flow.isProceed]
  | leave s e => simp [Flow.isProceed]
  | proceed s =>
      rw [filled] at kept
      have info : s.model.info = m.info := kept.2.1
      have outputs := allocatesIff c.runtime.createsTensor (.output c.number)
        (s := (s.model.outputTensors,[])) sized
      simp only [Flow.proceed.injEq,exists_eq_left',Flow.isProceed,forall_const,info,ownTensors,← outputs,
        Bool.not_eq_true]
      rfl

theorem inferenceLosesBlocks {s next : Memory V} {c : Call} {inferId modelId : String} (supported : Supported s.executor)
    (held : Holds s.heap (s.blocks ++ rest)) (taken : s.getInference a c inferId modelId = some next) :
    Loses rest (KeepsMemory parse s.executor (.getInference c inferId modelId)) next := by
  unfold Memory.getInference at taken
  cases loaded : s.executor.modelMap[modelId]? with
  | none =>
      simp only [loaded] at taken
      cases taken
      exact losesNothing held (by simp [KeepsMemory,loaded])
  | some address =>
      simp only [loaded,bind,Option.bind_eq_some_iff] at taken
      obtain ⟨m,there,e,answered,taken⟩ := taken
      have ends := inferenceHolds answered held
      obtain ⟨hands,loses⟩ := inferenceLoses answered
      rw [allocatesOutputs (supported m (instanceMember there))] at loses
      have kept : KeepsMemory parse s.executor (.getInference c inferId modelId) ↔
          ¬ (e.exit ≠ .returned SUCCESS ∧ e.ret.isSome = true) := by
        rw [loses,not_not]
        simp only [KeepsMemory,loaded,there,Option.mem_some_iff,forall_eq']
      by_cases success : e.exit = .returned SUCCESS
      · obtain ⟨ret,given⟩ := Option.isSome_iff_exists.mp (hands success)
        rw [given] at ends
        simp only [success,if_true] at taken
        cases taken
        refine losesNothing (holdsPerm ends (handedBlocks ?_ rfl)) (kept.mpr (fun bad => bad.1 success))
        simp [given]
      · have same : next.blocks = s.blocks ∧ next.heap = e.heap := by
          split at taken <;> cases taken <;> simp_all [Memory.blocks]
        obtain ⟨blocks,heap⟩ := same
        cases given : e.ret with
        | none =>
            rw [given] at ends
            exact losesNothing (by rw [blocks,heap]; exact ends) (kept.mpr (by simp [given]))
        | some ret =>
            rw [given] at ends
            exact losesSome ret.blocks (by rw [blocks,heap]; exact ends)
              (by simp [InferenceReturn.blocks,InferenceReturn.arrays]) (fun good => kept.mp good ⟨success,by simp [given]⟩)

omit [∀ d, Scalar (V d)] in
theorem inputsLoseNothing {s next : Memory V} {inferId : String} (supported : Supported s.executor)
    (held : Holds s.heap (s.blocks ++ rest)) (taken : s.getInputsForInferId a inferId = some next) :
    Loses rest True next := by
  unfold Memory.getInputsForInferId at taken
  split at taken
  · cases taken
    exact losesNothing held trivial
  · rename_i i _
    have populated := populateHolds (a := a) held s.executor
      (s.executor.inferenceDataBase.preprocessorInputsForInferIds.getD i [])
    have alike : Flow.Matches _ (populateReturn a s.executor
        (s.executor.inferenceDataBase.preprocessorInputsForInferIds.getD i []) s.heap) _ :=
      populateMatches s.executor _ 0 _ []
    have never := Flow.loopLeaves (populateSupported supported) []
      (s.executor.inferenceDataBase.preprocessorInputsForInferIds.getD i [])
    split at taken <;> rename_i ended <;> rw [ended] at populated alike
    · contradiction
    · cases plain : Flow.loop s.executor.populateInput []
        (s.executor.inferenceDataBase.preprocessorInputsForInferIds.getD i []) <;> rw [plain] at alike never
      · exact alike.elim
      · exact never.elim
      · exact alike.elim
    · cases taken
      exact losesNothing (holdsPerm populated (handedBlocks rfl rfl)) trivial

omit [∀ d, Scalar (V d)] in
theorem handedTaken {s : Memory V} {position : Nat} {ret : InferenceReturn} (given : s.handed[position]? = some ret) :
    (s.blocks ++ rest).Perm (ret.blocks ++ ((s.handed.eraseIdx position).flatMap InferenceReturn.blocks ++
      s.sessions.toList.map Prod.snd ++ rest)) := by
  obtain ⟨inside,rfl⟩ := List.getElem?_eq_some_iff.mp given
  have taken := (List.getElem_cons_eraseIdx_perm inside).flatMap_right InferenceReturn.blocks
  rw [List.flatMap_cons] at taken
  refine List.perm_iff_count.mpr (fun x => ?_)
  have taken := taken.count_eq x
  simp only [Memory.blocks,List.count_append] at taken ⊢
  omega

omit [∀ d, Scalar (V d)] in
theorem deallocateLosesNothing {s next : Memory V} {position : Nat} (held : Holds s.heap (s.blocks ++ rest))
    (taken : s.deallocate position = some next) : Loses rest True next := by
  simp only [Memory.deallocate,bind,Option.bind_eq_some_iff] at taken
  obtain ⟨ret,given,heap,freed,taken⟩ := taken
  cases taken
  obtain ⟨next,freed',rest'⟩ := deallocateHolds (holdsPerm held (handedTaken given))
  cases freed.symm.trans freed'
  exact losesNothing rest' trivial

theorem stepLoses {s next : Memory V} {act : Action} (supported : Supported s.executor)
    (held : Holds s.heap (s.blocks ++ rest)) (taken : step parse a s act = some next) :
    Loses rest (KeepsMemory parse s.executor act) next := by
  cases act with
  | loadPlan l modelId planData => exact loadLoses held taken
  | getInference c inferId modelId => exact inferenceLosesBlocks supported held taken
  | getInputsForInferId inferId => exact inputsLoseNothing supported held taken
  | deallocate position => exact deallocateLosesNothing held taken

theorem loadForgets {s : Memory V} {l : Loading} {modelId : String} {planData : PlanData}
    (held : Holds s.heap (s.blocks ++ rest)) : (s.loadPlan parse a l modelId planData).map Memory.forget =
      plainStep parse s.forget (.loadPlan l modelId planData) := by
  simp only [Memory.loadPlan,plainStep,Memory.forget,ONNXExecutor.loadPlan,ONNXExecutor.buildModel]
  cases (parse planData.extraFields).bind ONNXModelInfo.fromJson with
  | none => rfl
  | some info =>
      have plain := constructRefines (a := a) (l := l) modelId planData.version info s.executor.manager s.heap
      simp only [← plain]
      cases constructed : construct a l modelId planData.version info s.executor.manager s.heap with
      | none => rfl
      | some r =>
          obtain ⟨manager,heap,_ | made⟩ := r
          · rfl
          · obtain ⟨next,freed,-⟩ := replacedSession modelId (constructHolds held constructed)
            simp [freed,Memory.forget]

theorem inferenceForgets {s : Memory V} {c : Call} {inferId modelId : String} :
    (s.getInference a c inferId modelId).map Memory.forget = plainStep parse s.forget (.getInference c inferId modelId) := by
  simp only [Memory.getInference,plainStep,Memory.forget,ONNXExecutor.getInference]
  cases s.executor.modelMap[modelId]? with
  | none => simp [Memory.forget,TERMINAL_ERROR,SUCCESS]
  | some address =>
      cases there : s.executor.instanceAt address with
      | none => simp [there]
      | some m =>
          have refines := inferenceRefines (a := a) {c with this := address} m s.executor.manager s.heap
          simp only [there,bind,Option.bind_some]
          cases answered : OutputMemory.getInference a {c with this := address} m s.executor.manager s.heap <;>
            cases plain : ONNXModel.getInference {c with this := address} m s.executor.manager <;>
            simp only [answered,plain,Option.map_none,Option.map_some,Option.some.injEq,Prod.mk.injEq,reduceCtorEq] at refines
          · rfl
          · rename_i e r
            obtain ⟨model,manager,inputs,exit⟩ := refines
            obtain ⟨hands,-⟩ := inferenceLoses answered
            simp only [Option.bind_some,ONNXExecutor.afterBody,model,manager,inputs,exit] at hands ⊢
            cases ended : r.exit with
            | threw => simp [Memory.forget]
            | returned status =>
                rw [ended] at hands
                by_cases success : status = SUCCESS
                · obtain ⟨ret,given⟩ := Option.isSome_iff_exists.mp (hands (by rw [success]))
                  simp [Memory.forget,success,given]
                · simp [Memory.forget,success]

theorem inputsForget {s : Memory V} {inferId : String} :
    (s.getInputsForInferId a inferId).map Memory.forget = plainStep parse s.forget (.getInputsForInferId inferId) := by
  simp only [Memory.getInputsForInferId,plainStep,Memory.forget,ONNXExecutor.getInputsForInferId]
  cases s.executor.inferenceDataBase.inferIds.idxOf? inferId with
  | none => rfl
  | some i =>
      have alike : Flow.Matches _ (populateReturn a s.executor
          (s.executor.inferenceDataBase.preprocessorInputsForInferIds.getD i []) s.heap) _ :=
        populateMatches s.executor _ 0 _ []
      simp only [ONNXExecutor.populateReturn]
      cases memory : populateReturn a s.executor
          (s.executor.inferenceDataBase.preprocessorInputsForInferIds.getD i []) s.heap <;>
        cases plain : Flow.loop s.executor.populateInput []
          (s.executor.inferenceDataBase.preprocessorInputsForInferIds.getD i []) <;>
        rw [memory,plain] at alike <;> first | exact alike.elim | simp [Memory.forget]

theorem deallocateForgets {s : Memory V} {position : Nat} (held : Holds s.heap (s.blocks ++ rest)) :
    (s.deallocate position).map Memory.forget = plainStep parse s.forget (.deallocate position) := by
  simp only [Memory.deallocate,plainStep,Memory.forget]
  cases given : s.handed[position]? with
  | none =>
      have outside := List.getElem?_eq_none_iff.mp given
      simp [Nat.not_lt.mpr outside]
  | some ret =>
      obtain ⟨inside,-⟩ := List.getElem?_eq_some_iff.mp given
      obtain ⟨next,freed,-⟩ := deallocateHolds (holdsPerm held (handedTaken given))
      simp [freed,inside,Memory.forget,List.length_eraseIdx_of_lt]

theorem stepForgets {s : Memory V} {act : Action} (held : Holds s.heap (s.blocks ++ rest)) :
    (step parse a s act).map Memory.forget = plainStep parse s.forget act := by
  cases act with
  | loadPlan l modelId planData => exact loadForgets held
  | getInference c inferId modelId => exact inferenceForgets
  | getInputsForInferId inferId => exact inputsForget
  | deallocate position => exact deallocateForgets held

end Ledger

section Runs
variable {parse} {a} {maxInputsToSave : Nat} {manager : UserEventsManager V} {h : Heap} {actions : List Action}

def Accounted (base : List Nat) (s : Memory V) : Prop :=
  Supported s.executor ∧ ∃ lost, Holds s.heap (s.blocks ++ (lost ++ base))

theorem accountedStep {base : List Nat} (s : Memory V) (act : Action) (next : Memory V) (inv : Accounted base s)
    (taken : step parse a s act = some next) : Accounted base next := by
  obtain ⟨supported,lost,held⟩ := inv
  obtain ⟨more,held',-⟩ := stepLoses supported held taken
  have plain : (step parse a s act).map Memory.forget = plainStep parse s.forget act := stepForgets held
  rw [taken] at plain
  exact ⟨supportedStep supported plain.symm,more ++ lost,by rwa [List.append_assoc]⟩

omit [∀ d, Scalar (V d)] in
theorem startAccounted : Accounted h.live (.start maxInputsToSave manager h : Memory V) :=
  ⟨by simp [Supported,Memory.start,ONNXExecutor.new],[],List.Perm.refl _⟩

theorem stepAgrees {base : List Nat} (s : Memory V) (act : Action) (inv : Accounted base s) :
    (step parse a s act).map Memory.forget = plainStep parse s.forget act :=
  stepForgets inv.2.choose_spec

theorem freedOnce (parse : String → Option Json) (a : Allocator) (maxInputsToSave : Nat) (manager : UserEventsManager V)
    (h : Heap) (actions : List Action) :
    (run (step parse a) (.start maxInputsToSave manager h) actions).map Memory.forget =
      run (plainStep parse) (.new maxInputsToSave manager,0) actions :=
  runView stepAgrees accountedStep startAccounted actions

theorem noBlockLostIff {final : Memory V}
    (ok : run (step parse a) (.start maxInputsToSave manager h) actions = some final) :
    final.heap.live.Perm (final.blocks ++ h.live) ↔
      Guarded (plainStep parse) (fun s act => KeepsMemory parse s.1 act) (.new maxInputsToSave manager,0) actions := by
  have exact (s : Memory V) (act : Action) (next : Memory V) (inv : Accounted h.live s)
      (taken : step parse a s act = some next) : Accounted h.live next ∧ (Holds next.heap (next.blocks ++ h.live) ↔
        Holds s.heap (s.blocks ++ h.live) ∧ KeepsMemory parse s.executor act) := by
    refine ⟨accountedStep s act next inv taken,?_⟩
    obtain ⟨supported,lost,held⟩ := inv
    obtain ⟨more,held',kept⟩ := stepLoses supported held taken
    rw [← List.append_assoc more] at held'
    rw [holdsExactly held,holdsExactly held',← kept,List.append_eq_nil_iff,and_comm]
  have start : Holds h ((.start maxInputsToSave manager h : Memory V).blocks ++ h.live) := List.Perm.refl _
  exact ((endIffGuarded exact startAccounted ok).2.trans (and_iff_right start)).trans
    (guardedView stepAgrees accountedStep (fun s act => KeepsMemory parse s.1 act) startAccounted)

theorem savedReturnedIff {s : ONNXExecutor V × Nat} (ok : run (plainStep parse) (.new maxInputsToSave manager,0) actions = some s)
    (inferId : String) :
    ((∃ saved, s.1.getInputsForInferId inferId = some (saved,true)) ↔
      ∃ slot ∈ s.1.inferenceDataBase.inferIds.idxOf? inferId,
        ∀ entry ∈ s.1.inferenceDataBase.preprocessorInputsForInferIds.getD slot [], Readable s.1 entry) ∧
    ((∃ saved, s.1.getInputsForInferId inferId = some (saved,false)) ↔ inferId ∉ s.1.inferenceDataBase.inferIds) := by
  have supported : Supported s.1 := by
    refine runInvariant _ (fun _ _ _ => supportedStep) ?_ ok
    simp [Supported,ONNXExecutor.new]
  unfold ONNXExecutor.getInputsForInferId
  cases found : s.1.inferenceDataBase.inferIds.idxOf? inferId with
  | none => simp [List.idxOf?_eq_none_iff.mp found]
  | some slot =>
      have member : inferId ∈ s.1.inferenceDataBase.inferIds := List.isSome_idxOf?.mp (by rw [found]; rfl)
      obtain ⟨returned,never⟩ := populateReturns supported (s.1.inferenceDataBase.preprocessorInputsForInferIds.getD slot [])
      refine ⟨returned.trans (by simp),iff_of_false (not_exists.mpr never) (fun absent => absent member)⟩

end Runs

section Scorer
open ModelOwnership

def scorerJson : Json :=
  .object [("inputs",.array [.object [("name",.string "totals"),("dataType",.integer 6),("processor",totalsJson),
      ("shape",.array [.integer 1,.integer 1])]]),
    ("outputs",.array [.object [("name",.string "score"),("dataType",.integer 1),("shape",.array [.integer 2])]]),
    ("inputsToProcessors",.array [.object [("name",.string "users"),("inputNames",.array [.string "totals"])]])]

def scorerParse (_ : String) : Option Json := some scorerJson

def scored : List Action :=
  [.loadPlan rankerLoading "ranker" (rankerPlan "1.0.0"),.getInference (rankerCall 0 ["ann"]) "first" "ranker",
    .getInputsForInferId "first",.loadPlan rankerLoading "ranker" (rankerPlan "2.0.0"),.deallocate 1,
    .getInference {rankerCall 1 ["bob"] with runtime.runs := fun _ _ => false} "second" "ranker",.deallocate 0]

theorem nothingLostScored : ∃ final, run (step scorerParse nextAddress) (.start 1 ordersOnly ⟨[],List.nodup_nil⟩) scored = some final ∧
    final.heap.live.Perm (final.blocks ++ []) := by
  have guarded : Guarded (plainStep scorerParse) (fun s act => KeepsMemory scorerParse s.1 act) (.new 1 ordersOnly,0) scored := by
    decide +kernel
  have runs : (run (step scorerParse nextAddress) (.start 1 ordersOnly ⟨[],List.nodup_nil⟩) scored).isSome = true := by
    decide +kernel
  obtain ⟨final,ran⟩ := Option.isSome_iff_exists.mp runs
  exact ⟨final,ran,(noBlockLostIff ran).mpr guarded⟩

theorem firstReturned : ∃ s saved, run (plainStep scorerParse) (.new 1 ordersOnly,0) (scored.take 2) = some s ∧
    s.1.getInputsForInferId "first" = some (saved,true) ∧ ∃ slot ∈ s.1.inferenceDataBase.inferIds.idxOf? "first",
      ∀ entry ∈ s.1.inferenceDataBase.preprocessorInputsForInferIds.getD slot [], Readable s.1 entry := by
  have returned : ((run (plainStep scorerParse) (.new 1 ordersOnly,0) (scored.take 2)).bind
      (fun s => s.1.getInputsForInferId "first")).map Prod.snd = some true := by decide +kernel
  obtain ⟨⟨saved,_⟩,asked,rfl⟩ := Option.map_eq_some_iff.mp returned
  obtain ⟨s,ran,asked⟩ := Option.bind_eq_some_iff.mp asked
  exact ⟨s,saved,ran,asked,(savedReturnedIff ran "first").1.mp ⟨saved,asked⟩⟩

/- The input of "first" belongs to the model that the second plan has replaced. -/
example : (run (plainStep scorerParse) (.new 1 ordersOnly,0) [scored.get ⟨0,by decide⟩,scored.get ⟨1,by decide⟩,
    scored.get ⟨3,by decide⟩]).map (fun s => (s.1.getInputsForInferId "first").isNone) = some true := by decide +kernel

example : (run (step scorerParse nextAddress) (.start 1 ordersOnly ⟨[],List.nodup_nil⟩)
    [.loadPlan rankerLoading "ranker" (rankerPlan "1.0.0"),
      .getInference {rankerCall 0 ["ann"] with runtime.createsTensor := fun tensor => tensor.dataType != 1} "first" "ranker"]).map
    (fun s => (s.heap.live.length,s.blocks.length)) = some (8,1) := by decide +kernel

end Scorer
end NimbleNet.MemoryRuns
