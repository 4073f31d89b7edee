import NimbleNet.HeapBlocks
import NimbleNet.InferenceBody

/-! The memory of a return object: what allocate_output_memory takes with malloc and
deallocate_output_memory gives back, in get_inference and in run_dummy_inference. The other
blocks of a call are its own and are not modelled, except the session and the inputs of the
dummy inference. malloc is taken to succeed. -/
namespace NimbleNet.OutputMemory
open HeapBlocks ONNXModel

/- `cells`: what the arrays outputs and outputShapes hold at each index; the other members are
the addresses of the six arrays. -/
structure InferenceReturn where
  cells : List (Option Nat × Option Nat)
  outputs : Nat
  outputNames : Nat
  outputTypes : Nat
  outputShapes : Nat
  outputLengths : Nat
  outputShapeLengths : Nat

namespace InferenceReturn

def arrays (r : InferenceReturn) : List Nat :=
  [r.outputs,r.outputNames,r.outputTypes,r.outputShapes,r.outputLengths,r.outputShapeLengths]

def pointers (r : InferenceReturn) : List (Option Nat) :=
  r.cells.flatMap (fun cell => [cell.1,cell.2]) ++ r.arrays.map some

def cellBlocks (cells : List (Option Nat × Option Nat)) : List Nat := cells.flatMap (fun cell => cell.1.toList ++ cell.2.toList)

def blocks (r : InferenceReturn) : List Nat := cellBlocks r.cells ++ r.arrays

end InferenceReturn

def deallocateOutputMemory (ret : InferenceReturn) (h : Heap) : Option Heap := freeAll ret.pointers h

structure Allocation where
  heap : Heap
  outputTensors : List OrtValue
  ret : InferenceReturn

section Allocate
variable (a : Allocator) (createsTensor : OrtValue → Bool) (allocate : Nat → Buffer)

def newReturn (numOutputs : Nat) (h : Heap) : InferenceReturn × Heap :=
  let (outputs,h) := malloc a h
  let (outputNames,h) := malloc a h
  let (outputTypes,h) := malloc a h
  let (outputShapes,h) := malloc a h
  let (outputLengths,h) := malloc a h
  let (outputShapeLengths,h) := malloc a h
  (⟨List.replicate numOutputs (none,none),outputs,outputNames,outputTypes,outputShapes,outputLengths,outputShapeLengths⟩,h)

/- The unsupported type leaves with false, the exception of CreateTensor with true. -/
def allocateOutput (s : Allocation) (item : TensorInfo × Nat) : Flow Allocation Bool :=
  match createOrtTensor item.1 (allocate item.2) with
  | none => .leave s false
  | some tensor =>
      let (output,heap) := malloc a s.heap
      if createsTensor tensor then
        let (shape,heap) := malloc a heap
        .proceed ⟨heap,s.outputTensors ++ [tensor],{s.ret with cells := s.ret.cells.set item.2 (some output,some shape)}⟩
      else .leave ⟨heap,s.outputTensors,{s.ret with cells := s.ret.cells.set item.2 (some output,none)}⟩ true

def allocateOutputMemory (outputs : List TensorInfo) (outputTensors : List OrtValue) (h : Heap) : Flow Allocation Bool :=
  let (ret,heap) := newReturn a outputs.length h
  Flow.loop (allocateOutput a createsTensor allocate) ⟨heap,outputTensors,ret⟩ outputs.zipIdx

end Allocate

section Calls
variable {V : ElementType → Type} [∀ d, Scalar (V d)] (a : Allocator)

structure Inferred (V : ElementType → Type) where
  model : ONNXModel
  manager : UserEventsManager V
  preprocessorInputsToFill : List (ONNXPreProcessorInput V)
  heap : Heap
  ret : Option InferenceReturn
  exit : Exit

def getInference (c : Call) (m : ONNXModel) (manager : UserEventsManager V) (h : Heap) : Option (Inferred V) :=
  match fillInputs c ⟨clearOutputTensors m,manager,[],[]⟩ with
  | .undefined => none
  | .leave s exit => some ⟨s.model,s.manager,s.preprocessorInputsToFill,h,none,exit⟩
  | .proceed s =>
      match allocateOutputMemory a c.runtime.createsTensor (.output c.number) s.model.info.outputs s.model.outputTensors h with
      | .undefined => none
      | .leave t threw =>
          some ⟨{s.model with outputTensors := t.outputTensors},s.manager,s.preprocessorInputsToFill,t.heap,some t.ret,
            if threw then .threw else .returned TERMINAL_ERROR⟩
      | .proceed t =>
          let model := {s.model with outputTensors := t.outputTensors}
          if c.runtime.runs model.inputTensors (model.outputTensors.take model.info.outputs.length) then
            some ⟨model,s.manager,s.preprocessorInputsToFill,t.heap,some t.ret,.returned SUCCESS⟩
          else do
            let heap ← deallocateOutputMemory t.ret t.heap
            some ⟨model,s.manager,s.preprocessorInputsToFill,heap,none,.returned TERMINAL_ERROR⟩

structure Dummy where
  model : ONNXModel
  inputs : List Nat
  heap : Heap

variable (l : Loading)

def dummyInput (s : Dummy) (item : TensorInfo × Nat) : Flow Dummy Unit :=
  let (block,heap) := malloc a s.heap
  let s := {s with inputs := s.inputs ++ [block], heap := heap}
  match createOrtTensor item.1 (.dummyInput item.2) with
  | none => .leave s ()
  | some tensor =>
      if l.runtime.createsTensor tensor then
        .proceed {s with model.inputTensors := s.model.inputTensors.set item.2 (some tensor)}
      else .leave s ()

-- delete_input_memory
def deleteInputMemory (input : Nat) (inputs : List Nat) (h : Heap) : Option Heap := freeAll ((inputs ++ [input]).map some) h

def finishDummy (input : Nat) (s : Dummy) (t : Allocation) : Flow (ONNXModel × Heap) Unit :=
  match (deallocateOutputMemory t.ret t.heap).bind (deleteInputMemory input s.inputs) with
  | none => .undefined
  | some heap => .proceed ({s.model with outputTensors := t.outputTensors},heap)

def runDummyInference (m : ONNXModel) (h : Heap) : Flow (ONNXModel × Heap) Unit :=
  let (input,h) := malloc a h
  match Flow.loop (dummyInput a l) ⟨m,[],h⟩ m.info.inputs.zipIdx with
  | .undefined => .undefined
  | .leave s _ => .leave (s.model,s.heap) ()
  | .proceed s =>
      match allocateOutputMemory a l.runtime.createsTensor .dummyOutput s.model.info.outputs s.model.outputTensors s.heap with
      | .undefined => .undefined
      | .leave t _ => .leave ({s.model with outputTensors := t.outputTensors},t.heap) ()
      | .proceed t => finishDummy input s t

/- The new instance and its session, unless the constructor threw. Then nobody deletes the
session: the destructor of an object that was never complete does not run. -/
def construct (modelId version : String) (info : ONNXModelInfo) (manager : UserEventsManager V) (h : Heap) :
    Option (UserEventsManager V × Heap × Option (ONNXModel × Nat)) :=
  if !l.runtime.createsSession then some (manager,h,none)
  else
    let (session,h) := malloc a h
    match Flow.loop (constructInput l) (⟨modelId,version,info,[],[],∅⟩,manager) info.inputs.zipIdx with
    | .undefined => none
    | .leave s _ => some (s.2,h,none)
    | .proceed s =>
        match runDummyInference a l s.1 h with
        | .undefined => none
        | .leave t _ => some (s.2,t.2,none)
        | .proceed t => some (s.2,t.2,some (t.1,session))

end Calls

section Allocated
variable {a : Allocator} {createsTensor : OrtValue → Bool} {allocate : Nat → Buffer} {blocks : List Nat}

theorem pointersBlocks (r : InferenceReturn) : r.pointers.filterMap id = r.blocks := by
  have cells : ∀ cells : List (Option Nat × Option Nat),
      (cells.flatMap (fun cell => [cell.1,cell.2])).filterMap id = InferenceReturn.cellBlocks cells := by
    intro cells
    induction cells with
    | nil => rfl
    | cons cell rest ih =>
        rw [List.flatMap_cons,List.filterMap_append,ih]
        rcases cell with ⟨_ | _,_ | _⟩ <;> rfl
  rw [InferenceReturn.pointers,List.filterMap_append,cells]
  rfl

theorem deallocateHolds {ret : InferenceReturn} {h : Heap} (held : Holds h (ret.blocks ++ blocks)) :
    ∃ next, deallocateOutputMemory ret h = some next ∧ Holds next blocks := by
  rw [← pointersBlocks] at held
  exact freeAllHolds held

theorem setBlocks {cells : List (Option Nat × Option Nat)} {i : Nat} (cell : Option Nat × Option Nat)
    (null : cells[i]? = some (none,none)) : (InferenceReturn.cellBlocks (cells.set i cell)).Perm
      (cell.1.toList ++ cell.2.toList ++ InferenceReturn.cellBlocks cells) := by
  induction cells generalizing i with
  | nil => contradiction
  | cons first rest ih =>
      cases i with
      | zero =>
          obtain rfl := Option.some.inj null
          exact List.Perm.refl _
      | succ i =>
          have later := ih null
          exact (List.Perm.append_left (first.1.toList ++ first.2.toList) later).trans (List.perm_append_comm_assoc _ _ _)

theorem newReturnHolds {h : Heap} (held : Holds h blocks) (numOutputs : Nat) :
    Holds (newReturn a numOutputs h).2 ((newReturn a numOutputs h).1.blocks ++ blocks) := by
  have six := mallocHolds a (mallocHolds a (mallocHolds a (mallocHolds a (mallocHolds a (mallocHolds a held)))))
  refine holdsPerm six ?_
  have own : (newReturn a numOutputs h).1.blocks = (newReturn a numOutputs h).1.arrays := by
    simp [InferenceReturn.blocks,InferenceReturn.cellBlocks,newReturn]
  rw [own]
  exact List.Perm.append_right blocks (List.reverse_perm (newReturn a numOutputs h).1.arrays)

theorem setCell {ret : InferenceReturn} {i : Nat} {h : Heap} (cell : Option Nat × Option Nat)
    (null : ret.cells[i]? = some (none,none))
    (held : Holds h (cell.1.toList ++ cell.2.toList ++ (ret.blocks ++ blocks))) :
    Holds h ({ret with cells := ret.cells.set i cell}.blocks ++ blocks) := by
  have set := List.Perm.append_right (ret.arrays ++ blocks) (setBlocks cell null)
  refine holdsPerm held ?_
  simpa only [InferenceReturn.blocks,InferenceReturn.arrays,List.append_assoc] using set.symm

/- A loop whose passes fill the cells of a return object one by one. `memory`: the object
and the heap of its state. -/
theorem cellLoopHolds {σ α ε : Type} (memory : σ → InferenceReturn × Heap) {body : σ → α × Nat → Flow σ ε}
    (each : ∀ s item, (memory s).1.cells[item.2]? = some (none,none) → Holds (memory s).2 ((memory s).1.blocks ++ blocks) →
      (body s item).Ends (fun t => Holds (memory t).2 ((memory t).1.blocks ++ blocks) ∧
        ∀ j, j ≠ item.2 → (memory t).1.cells[j]? = (memory s).1.cells[j]?))
    {items : List α} {k : Nat} {s : σ} (held : Holds (memory s).2 ((memory s).1.blocks ++ blocks))
    (null : ∀ j, k ≤ j → j < k + items.length → (memory s).1.cells[j]? = some (none,none)) :
    (Flow.loop body s (items.zipIdx k)).Ends (fun t => Holds (memory t).2 ((memory t).1.blocks ++ blocks)) := by
  induction items generalizing k s with
  | nil => exact held
  | cons item rest ih =>
      have pass := each s (item,k) (null k (Nat.le_refl k) (by rw [List.length_cons]; omega)) held
      rw [List.zipIdx_cons,Flow.loop]
      cases ended : body s (item,k) with
      | undefined => trivial
      | leave t e =>
          rw [ended] at pass
          exact pass.1
      | proceed t =>
          rw [ended] at pass
          refine ih pass.1 (fun j above inside => ?_)
          rw [pass.2 j (Nat.ne_of_gt above)]
          exact null j (by omega) (by rw [List.length_cons]; omega)

theorem allocateOutputHolds {s : Allocation} {item : TensorInfo × Nat} (null : s.ret.cells[item.2]? = some (none,none))
    (held : Holds s.heap (s.ret.blocks ++ blocks)) : (allocateOutput a createsTensor allocate s item).Ends (fun t =>
      Holds t.heap (t.ret.blocks ++ blocks) ∧ ∀ j, j ≠ item.2 → t.ret.cells[j]? = s.ret.cells[j]?) := by
  have output := mallocHolds a held
  simp only [allocateOutput]
  split
  · exact ⟨held,fun j _ => rfl⟩
  · split
    · have both := holdsPerm (mallocHolds a output) (List.Perm.swap _ _ _)
      exact ⟨setCell (some _,some _) null both,fun j other => List.getElem?_set_ne other.symm⟩
    · exact ⟨setCell (some _,none) null output,fun j other => List.getElem?_set_ne other.symm⟩

theorem newReturnNull (h : Heap) {numOutputs j : Nat} (inside : j < 0 + numOutputs) :
    (newReturn a numOutputs h).1.cells[j]? = some (none,none) := by
  rw [Nat.zero_add] at inside
  simp [newReturn,inside]

variable (createsTensor allocate) in
theorem allocateHolds {h : Heap} (held : Holds h blocks) (outputs : List TensorInfo) (outputTensors : List OrtValue) :
    (allocateOutputMemory a createsTensor allocate outputs outputTensors h).Ends
      (fun t => Holds t.heap (t.ret.blocks ++ blocks)) :=
  cellLoopHolds (fun s : Allocation => (s.ret,s.heap)) (fun _ _ => allocateOutputHolds) (newReturnHolds held outputs.length)
    (fun _ _ inside => newReturnNull h inside)

variable (createsTensor allocate) in
theorem allocateMatches (outputs : List TensorInfo) (outputTensors : List OrtValue) (h : Heap) :
    Flow.Matches (fun s t => s.outputTensors = t.1) (allocateOutputMemory a createsTensor allocate outputs outputTensors h)
      (ONNXModel.allocateOutputMemory createsTensor allocate outputs outputTensors) := by
  refine Flow.loopMatches (R := fun (s : Allocation) (t : List OrtValue × List Buffer) => s.outputTensors = t.1) (fun s t item same => ?_) rfl _
  simp only [allocateOutput,ONNXModel.allocateOutput]
  cases createOrtTensor item.1 (allocate item.2) with
  | none => exact ⟨same,rfl⟩
  | some tensor =>
      simp only
      split
      · exact congrArg (· ++ [tensor]) same
      · exact ⟨same,rfl⟩

variable (createsTensor allocate) in
theorem allocatesIff {items : List (TensorInfo × Nat)} {s : List OrtValue × List Buffer}
    (supported : ∀ item ∈ items, getFieldSizeFromDataType item.1.dataType ≠ 0) :
    (Flow.loop (ONNXModel.allocateOutput createsTensor allocate) s items).isProceed = true ↔
      ∀ tensor ∈ items.filterMap (fun item => createOrtTensor item.1 (allocate item.2)), createsTensor tensor = true := by
  induction items generalizing s with
  | nil => simp [Flow.loop,Flow.isProceed]
  | cons item rest ih =>
      have created : ∃ tensor, createOrtTensor item.1 (allocate item.2) = some tensor := by
        simp [createOrtTensor,supported item List.mem_cons_self]
      obtain ⟨tensor,created⟩ := created
      have ih := fun s => @ih s (fun item member => supported item (List.mem_cons_of_mem _ member))
      simp only [List.filterMap_cons,Flow.loop,ONNXModel.allocateOutput,created,List.forall_mem_cons]
      by_cases accepted : createsTensor tensor = true
      · simp only [accepted,if_true,Flow.andThen,ih,true_and]
      · simp [accepted,Flow.andThen,Flow.isProceed]

end Allocated

section Calls
variable {V : ElementType → Type} [∀ d, Scalar (V d)] {a : Allocator} {blocks : List Nat}

def retBlocks (ret : Option InferenceReturn) : List Nat := (ret.map InferenceReturn.blocks).getD []

theorem inferenceHolds {c : Call} {m : ONNXModel} {manager : UserEventsManager V} {h : Heap} {e : Inferred V}
    (ok : getInference a c m manager h = some e) (held : Holds h blocks) : Holds e.heap (retBlocks e.ret ++ blocks) := by
  unfold getInference at ok
  cases filled : fillInputs c ⟨clearOutputTensors m,manager,[],[]⟩ with
  | undefined => simp [filled] at ok
  | leave s exit =>
      simp only [filled] at ok
      cases ok
      exact held
  | proceed s =>
      simp only [filled] at ok
      have allocated := allocateHolds (a := a) c.runtime.createsTensor (.output c.number) held
        s.model.info.outputs s.model.outputTensors
      split at ok
      · contradiction
      · rename_i t threw left
        rw [left] at allocated
        cases ok
        exact allocated
      · rename_i t ran
        rw [ran] at allocated
        split at ok
        · cases ok
          exact allocated
        · obtain ⟨next,freed,rest⟩ := deallocateHolds allocated
          rw [freed] at ok
          cases ok
          exact rest

theorem inferenceRefines (c : Call) (m : ONNXModel) (manager : UserEventsManager V) (h : Heap) :
    (getInference a c m manager h).map (fun e => (e.model,e.manager,e.preprocessorInputsToFill,e.exit)) =
      (ONNXModel.getInference c m manager).map
        (fun r => (r.frame.model,r.frame.manager,r.frame.preprocessorInputsToFill,r.exit)) := by
  unfold getInference ONNXModel.getInference inferenceBody prepareRun
  cases filled : fillInputs c ⟨clearOutputTensors m,manager,[],[]⟩ with
  | undefined => rfl
  | leave s exit => rfl
  | proceed s =>
      have alike := allocateMatches (a := a) c.runtime.createsTensor (.output c.number)
        s.model.info.outputs s.model.outputTensors h
      have held := allocateHolds (a := a) c.runtime.createsTensor (.output c.number)
        (List.Perm.refl h.live) s.model.info.outputs s.model.outputTensors
      simp only [Flow.andThen,allocateReturn]
      cases memory : allocateOutputMemory a c.runtime.createsTensor (.output c.number) s.model.info.outputs
          s.model.outputTensors h <;>
        cases plain : ONNXModel.allocateOutputMemory c.runtime.createsTensor (.output c.number) s.model.info.outputs
          s.model.outputTensors <;>
        rw [memory,plain] at alike
      case leave.leave t threw u threw' =>
        obtain ⟨tensors,rfl⟩ := alike
        cases threw <;> simp [tensors]
      case proceed.proceed t u =>
        rw [memory] at held
        have tensors : t.outputTensors = u.1 := alike
        obtain ⟨next,freed,-⟩ := deallocateHolds held
        simp only [tensors]
        split <;> rename_i ran <;> simp [ran,freed]
      case undefined.undefined => rfl
      all_goals exact alike.elim

theorem inferenceLoses {c : Call} {m : ONNXModel} {manager : UserEventsManager V} {h : Heap} {e : Inferred V}
    (ok : getInference a c m manager h = some e) : (e.exit = .returned SUCCESS → e.ret.isSome = true) ∧
      ((e.exit ≠ .returned SUCCESS ∧ e.ret.isSome = true) ↔ ∃ s, fillInputs c ⟨clearOutputTensors m,manager,[],[]⟩ = .proceed s ∧
        (ONNXModel.allocateOutputMemory c.runtime.createsTensor (.output c.number) s.model.info.outputs
          s.model.outputTensors).isProceed = false) := by
  unfold getInference at ok
  cases filled : fillInputs c ⟨clearOutputTensors m,manager,[],[]⟩ with
  | undefined => simp [filled] at ok
  | leave s exit =>
      have fails := prepareRunFails (c := c) ⟨clearOutputTensors m,manager,[],[]⟩
      rw [prepareRun,filled] at fails
      have fails : exit ≠ .returned SUCCESS := fails
      simp only [filled] at ok
      cases ok
      simp [fails]
  | proceed s =>
      have alike := allocateMatches (a := a) c.runtime.createsTensor (.output c.number)
        s.model.info.outputs s.model.outputTensors h
      simp only [filled] at ok
      split at ok <;> rename_i ended <;> rw [ended] at alike
      · contradiction
      · rename_i t threw
        cases plain : ONNXModel.allocateOutputMemory c.runtime.createsTensor (.output c.number) s.model.info.outputs
          s.model.outputTensors <;> rw [plain] at alike <;> try exact alike.elim
        cases ok
        cases threw <;> simp [plain,Flow.isProceed,TERMINAL_ERROR,SUCCESS]
      · rename_i t
        cases plain : ONNXModel.allocateOutputMemory c.runtime.createsTensor (.output c.number) s.model.info.outputs
          s.model.outputTensors <;> rw [plain] at alike <;> try exact alike.elim
        split at ok
        · cases ok
          simp [plain,Flow.isProceed]
        · obtain ⟨next,_,ok⟩ := Option.bind_eq_some_iff.mp ok
          cases ok
          simp [plain,Flow.isProceed,TERMINAL_ERROR,SUCCESS]

end Calls

section Constructor
variable {V : ElementType → Type} [∀ d, Scalar (V d)] {a : Allocator} {l : Loading} {blocks : List Nat}

theorem dummyInputsHold {input : Nat} {s : Dummy} (held : Holds s.heap (s.inputs ++ input :: blocks))
    (items : List (TensorInfo × Nat)) :
    (Flow.loop (dummyInput a l) s items).Ends (fun t => Holds t.heap (t.inputs ++ input :: blocks)) := by
  refine Flow.loopEnds (P := fun (t : Dummy) => Holds t.heap (t.inputs ++ input :: blocks)) (fun s item held => ?_) held items
  have block : Holds (malloc a s.heap).2 (s.inputs ++ [(malloc a s.heap).1] ++ input :: blocks) :=
    holdsPerm (mallocHolds a held) (by
      rw [List.append_assoc,List.singleton_append]
      exact List.perm_middle.symm)
  simp only [dummyInput]
  split
  · exact block
  · split <;> exact block

theorem dummyInputsMatch (s : Dummy) (items : List (TensorInfo × Nat)) :
    Flow.Matches (fun s m => s.model = m) (Flow.loop (dummyInput a l) s items)
      (Flow.loop (ONNXModel.dummyInput l) s.model items) := by
  refine Flow.loopMatches (R := fun (s : Dummy) m => s.model = m) (fun s m item same => ?_) rfl items
  obtain rfl := same
  simp only [dummyInput,ONNXModel.dummyInput]
  cases createOrtTensor item.1 (.dummyInput item.2) with
  | none => exact ⟨rfl,rfl⟩
  | some tensor =>
      simp only
      split
      · rfl
      · exact ⟨rfl,rfl⟩

theorem finishDummyProceeds {input : Nat} {s : Dummy} {t : Allocation}
    (held : Holds t.heap (t.ret.blocks ++ (s.inputs ++ input :: blocks))) :
    ∃ heap, finishDummy input s t = .proceed ({s.model with outputTensors := t.outputTensors},heap) ∧ Holds heap blocks := by
  obtain ⟨middle,freed,inputs⟩ := deallocateHolds held
  have pointers : ((s.inputs ++ [input]).map some).filterMap id = s.inputs ++ [input] := by simp
  rw [← List.singleton_append,← List.append_assoc,← pointers] at inputs
  obtain ⟨heap,deleted,rest⟩ := freeAllHolds inputs
  refine ⟨heap,?_,rest⟩
  rw [finishDummy,freed]
  simp only [Option.bind_some,deleteInputMemory,deleted]

def DummyKeeps (blocks : List Nat) : Flow (ONNXModel × Heap) Unit → Prop
  | .proceed t => Holds t.2 blocks
  | .leave t _ => ∃ lost, lost ≠ [] ∧ Holds t.2 (lost ++ blocks)
  | .undefined => True

theorem dummyHolds (m : ONNXModel) {h : Heap} (held : Holds h blocks) : DummyKeeps blocks (runDummyInference a l m h) := by
  have filled := dummyInputsHold (a := a) (l := l) (s := ⟨m,[],(malloc a h).2⟩) (mallocHolds a held) m.info.inputs.zipIdx
  unfold runDummyInference
  simp only
  split <;> rename_i ended <;> rw [ended] at filled
  · trivial
  · rename_i s _
    exact ⟨s.inputs ++ [(malloc a h).1],by simp,by simpa [Flow.Ends] using filled⟩
  · rename_i s
    have allocated := allocateHolds (a := a) l.runtime.createsTensor .dummyOutput filled
      s.model.info.outputs s.model.outputTensors
    split <;> rename_i ended <;> rw [ended] at allocated
    · trivial
    · rename_i t _
      exact ⟨t.ret.blocks ++ (s.inputs ++ [(malloc a h).1]),by simp,by simpa [Flow.Ends] using allocated⟩
    · rename_i t
      obtain ⟨heap,finished,rest⟩ := finishDummyProceeds allocated
      rw [finished]
      exact rest

theorem dummyMatches (m : ONNXModel) {h : Heap} : Flow.Matches (fun t m => t.1 = m)
    (runDummyInference a l m h) (ONNXModel.runDummyInference l m) := by
  have filled := dummyInputsHold (a := a) (l := l) (s := ⟨m,[],(malloc a h).2⟩) (mallocHolds a (List.Perm.refl h.live))
    m.info.inputs.zipIdx
  have alike := dummyInputsMatch (a := a) (l := l) ⟨m,[],(malloc a h).2⟩ m.info.inputs.zipIdx
  unfold runDummyInference ONNXModel.runDummyInference
  simp only at alike ⊢
  cases memory : Flow.loop (dummyInput a l) ⟨m,[],(malloc a h).2⟩ m.info.inputs.zipIdx <;>
    cases plain : Flow.loop (ONNXModel.dummyInput l) m m.info.inputs.zipIdx <;>
    rw [memory,plain] at alike
  case leave.leave => exact alike
  case undefined.undefined => trivial
  case proceed.proceed s m =>
    obtain rfl : s.model = m := alike
    rw [memory] at filled
    have alike := allocateMatches (a := a) l.runtime.createsTensor .dummyOutput
      s.model.info.outputs s.model.outputTensors s.heap
    have held := allocateHolds (a := a) l.runtime.createsTensor .dummyOutput filled
      s.model.info.outputs s.model.outputTensors
    simp only [Flow.andThen]
    cases memory : allocateOutputMemory a l.runtime.createsTensor .dummyOutput s.model.info.outputs
        s.model.outputTensors s.heap <;>
      cases plain : ONNXModel.allocateOutputMemory l.runtime.createsTensor .dummyOutput s.model.info.outputs
        s.model.outputTensors <;>
      rw [memory,plain] at alike
    case leave.leave t _ u _ => exact ⟨by rw [show t.outputTensors = u.1 from alike.1],rfl⟩
    case undefined.undefined => trivial
    case proceed.proceed t u =>
      rw [memory] at held
      obtain ⟨heap,finished,-⟩ := finishDummyProceeds held
      simp only [finished]
      exact congrArg (fun tensors => {s.model with outputTensors := tensors}) alike
    all_goals exact alike.elim
  all_goals exact alike.elim

def ConstructKeeps (l : Loading) (blocks : List Nat) (r : UserEventsManager V × Heap × Option (ONNXModel × Nat)) : Prop :=
  match r.2.2 with
  | some made => Holds r.2.1 (made.2 :: blocks)
  | none => if l.runtime.createsSession then ∃ lost, lost ≠ [] ∧ Holds r.2.1 (lost ++ blocks) else Holds r.2.1 blocks

theorem constructHolds {modelId version : String} {info : ONNXModelInfo} {manager : UserEventsManager V} {h : Heap}
    {r : UserEventsManager V × Heap × Option (ONNXModel × Nat)} (held : Holds h blocks)
    (ok : construct a l modelId version info manager h = some r) : ConstructKeeps l blocks r := by
  have session := mallocHolds a held
  unfold construct at ok
  split at ok <;> rename_i creates
  · cases ok
    rw [Bool.not_eq_true'] at creates
    simpa [ConstructKeeps,creates] using held
  rw [Bool.not_eq_true,Bool.not_eq_false'] at creates
  simp only at ok
  split at ok
  · contradiction
  · cases ok
    simp only [ConstructKeeps,creates,if_true]
    exact ⟨[(malloc a h).1],by simp,session⟩
  · rename_i s _
    have dummy := dummyHolds (a := a) (l := l) s.1 session
    split at ok <;> rename_i ended <;> rw [ended] at dummy
    · contradiction
    · cases ok
      obtain ⟨lost,some,rest⟩ := dummy
      simp only [ConstructKeeps,creates,if_true]
      exact ⟨lost ++ [(malloc a h).1],by simp,by simpa using rest⟩
    · cases ok
      exact dummy

theorem constructRefines (modelId version : String) (info : ONNXModelInfo) (manager : UserEventsManager V) (h : Heap) :
    (construct a l modelId version info manager h).map (fun r => (r.1,r.2.2.map Prod.fst)) =
      ONNXModel.construct l modelId version info manager := by
  unfold construct ONNXModel.construct
  split
  · rfl
  · simp only
    cases Flow.loop (constructInput l) (⟨modelId,version,info,[],[],∅⟩,manager) info.inputs.zipIdx with
    | undefined => rfl
    | leave s e => rfl
    | proceed s =>
        have alike := dummyMatches (a := a) (l := l) s.1 (h := (malloc a h).2)
        simp only
        cases memory : runDummyInference a l s.1 (malloc a h).2 <;> cases plain : ONNXModel.runDummyInference l s.1 <;>
          rw [memory,plain] at alike
        case leave.leave => rfl
        case undefined.undefined => rfl
        case proceed.proceed t m =>
          obtain rfl : t.1 = m := alike
          rfl
        all_goals exact alike.elim

end Constructor
end NimbleNet.OutputMemory
