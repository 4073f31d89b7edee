import NimbleNet.ONNXModel

/-! What the parts of get_inference leave alone, and the tensors that
allocate_output_memory pushes. -/
namespace NimbleNet.ONNXModel
open MachineNumbers

section Allocation
variable {createsTensor : OrtValue → Bool} {allocate : Nat → Buffer}

def ownTensors (allocate : Nat → Buffer) (outputs : List TensorInfo) : List OrtValue :=
  outputs.zipIdx.filterMap (fun item => createOrtTensor item.1 (allocate item.2))

theorem createOrtTensorData {input : TensorInfo} {data : Buffer} {tensor : OrtValue}
    (created : createOrtTensor input data = some tensor) : tensor.data = data := by
  simp only [createOrtTensor] at created
  split at created
  · contradiction
  · cases created
    rfl

theorem allocatesLoop {items : List (TensorInfo × Nat)} {s s' : List OrtValue × List Buffer}
    (ok : Flow.loop (allocateOutput createsTensor allocate) s items = .proceed s') :
    ∃ own, items.filterMap (fun item => createOrtTensor item.1 (allocate item.2)) = own ∧ own.length = items.length ∧
      s' = (s.1 ++ own,s.2 ++ own.map OrtValue.data) := by
  induction items generalizing s with
  | nil =>
      cases ok
      exact ⟨[],rfl,rfl,by simp⟩
  | cons item rest ih =>
      simp only [Flow.loop,allocateOutput] at ok
      cases created : createOrtTensor item.1 (allocate item.2) with
      | none => simp [created,Flow.andThen] at ok
      | some tensor =>
          simp only [created] at ok
          split at ok
          · obtain ⟨own,same,size,rfl⟩ := ih ok
            refine ⟨tensor :: own,by simp [created,same],by simp [size],by simp⟩
          · simp [Flow.andThen] at ok

theorem allocates {outputs : List TensorInfo} {before : List OrtValue} {s : List OrtValue × List Buffer}
    (ok : allocateOutputMemory createsTensor allocate outputs before = .proceed s) :
    (ownTensors allocate outputs).length = outputs.length ∧
      s = (before ++ ownTensors allocate outputs,(ownTensors allocate outputs).map OrtValue.data) := by
  obtain ⟨own,rfl,size,rfl⟩ := allocatesLoop ok
  exact ⟨size.trans List.length_zipIdx,by simp [ownTensors]⟩

theorem allocatesOwn (createsTensor : OrtValue → Bool) (allocate : Nat → Buffer) (outputs : List TensorInfo)
    (before : List OrtValue) : (allocateOutputMemory createsTensor allocate outputs before).Ends
      (fun s => ∀ tensor ∈ s.1, tensor ∈ before ∨ ∃ i, tensor.data = allocate i) := by
  refine Flow.loopEnds (fun s item good => ?_) (fun tensor member => .inl member) _
  unfold allocateOutput
  split
  · exact good
  · rename_i tensor created
    split
    · intro other member
      rcases List.mem_append.mp member with old | new
      · exact good other old
      · rw [List.mem_singleton.mp new]
        exact .inr ⟨item.2,createOrtTensorData created⟩
    · exact good

theorem ownTensorsData {outputs : List TensorInfo} {tensor : OrtValue} (member : tensor ∈ ownTensors allocate outputs) :
    ∃ i, tensor.data = allocate i := by
  obtain ⟨item,_,created⟩ := List.mem_filterMap.mp member
  exact ⟨item.2,createOrtTensorData created⟩

end Allocation

section Frames
variable {V : ElementType → Type} [∀ d, Scalar (V d)] {c : Call}

def InputsOnly (m : ONNXModel) (s : Frame V) : Prop :=
  s.model.modelId = m.modelId ∧ s.model.info = m.info ∧ s.model.inputNamesToIdMap = m.inputNamesToIdMap ∧
    s.model.outputTensors = m.outputTensors

omit [∀ d, Scalar (V d)] in
theorem setInputTensorEnds {P : Frame V → Prop} {s : Frame V} (index : Nat) (input : TensorInfo) (data : Buffer)
    (good : P s) (set : ∀ tensor : OrtValue, tensor.data = data →
      P {s with model.inputTensors := s.model.inputTensors.set index (some tensor)}) :
    (setInputTensor c s index input data).Ends P := by
  unfold setInputTensor
  split
  · exact good
  · rename_i tensor created
    split
    · exact set tensor (createOrtTensorData created)
    · exact good

/- A buffer that the request or the call itself supplied. -/
def FromCall (call : Nat) : Buffer → Prop
  | .client k _ => k = call
  | .feature k _ => k = call
  | .preprocessed k _ => k = call
  | _ => False

omit [∀ d, Scalar (V d)] in
theorem fillInputEnds {P : Frame V → Prop} {s : Frame V} (item : TensorInfo × Nat) (good : P s)
    (set : ∀ tensor : OrtValue, item.1.toPreprocess = false → FromCall c.number tensor.data →
      P {s with model.inputTensors := s.model.inputTensors.set item.2 (some tensor)}) :
    (fillInput c s item).Ends P := by
  obtain ⟨input,i⟩ := item
  simp only [fillInput]
  split
  · exact good
  · rename_i kind
    have set := fun tensor own => set tensor (eq_false_of_ne_true kind) own
    split
    · split
      · exact good
      · split
        · exact setInputTensorEnds _ _ _ good (fun tensor same => set tensor (by rw [same]; rfl))
        · exact good
    · split
      · exact good
      · split
        · exact setInputTensorEnds _ _ _ good (fun tensor same => set tensor (by rw [same]; rfl))
        · exact good

def Written (call index : Nat) (before after : List (Option OrtValue)) : Prop :=
  after = before ∨ ∃ tensor : OrtValue, FromCall call tensor.data ∧ after = before.set index (some tensor)

theorem preprocessInputEnds {P : Frame V → Prop} {s : Frame V} (rows : List (List (String × String)))
    (inputName : String) (good : P s)
    (rejected : ∀ manager (input : TensorInfo), s.manager.getModelInput (c.clock s.preprocessorInputsToFill.length)
      (s.model.modelId ++ input.name) rows = some (manager,none) → P {s with manager := manager})
    (set : ∀ manager (userInput : AnyModelInput V) index input tensors, s.model.inputNamesToIdMap[inputName]? = some index →
      s.model.info.inputs[index]? = some input →
      s.manager.getModelInput (c.clock s.preprocessorInputsToFill.length) (s.model.modelId ++ input.name) rows =
        some (manager,some userInput) →
      Written c.number index s.model.inputTensors tensors →
      P {s with
        manager := manager,
        preprocessorInputsToFill := s.preprocessorInputsToFill ++ [⟨userInput,⟨c.this,index⟩⟩],
        model.inputTensors := tensors}) :
    (preprocessInput c rows s inputName).Ends P := by
  unfold preprocessInput
  split
  · exact good
  · rename_i index known
    split
    · trivial
    · rename_i input there
      split
      · exact good
      · simp only
        split
        · trivial
        · rename_i manager answered
          exact rejected manager input answered
        · rename_i manager userInput answered
          have saved := fun tensors => set manager userInput index input tensors known there answered
          split
          · exact setInputTensorEnds _ _ _ (saved _ (.inl rfl))
              (fun tensor same => saved _ (.inr ⟨tensor,by rw [same]; rfl,rfl⟩))
          · exact saved _ (.inl rfl)

theorem fillPreprocessorInputEnds {P : Frame V → Prop} {s : Frame V} (info : PreProcessorInputInfo) (good : P s)
    (each : ∀ rows s, ∀ inputName ∈ info.inputNames, P s → (preprocessInput c rows s inputName).Ends P) :
    (fillPreprocessorInput c s info).Ends P := by
  unfold fillPreprocessorInput
  split
  · exact good
  · split
    · exact good
    · split
      · trivial
      · exact Flow.loopEndsMem (each _) good

omit [∀ d, Scalar (V d)] in
theorem setInputTensorProceeds {s s' : Frame V} {index : Nat} {input : TensorInfo} {data : Buffer}
    (ok : setInputTensor c s index input data = .proceed s') : ∃ tensor : OrtValue, tensor.data = data ∧
      s' = {s with model.inputTensors := s.model.inputTensors.set index (some tensor)} := by
  unfold setInputTensor at ok
  split at ok
  · contradiction
  · rename_i tensor created
    split at ok
    · cases ok
      exact ⟨tensor,createOrtTensorData created,rfl⟩
    · contradiction

omit [∀ d, Scalar (V d)] in
theorem fillInputProceeds {s s' : Frame V} {item : TensorInfo × Nat} (ok : fillInput c s item = .proceed s') :
    (item.1.toPreprocess = true ∧ s' = s) ∨ ∃ tensor : OrtValue, FromCall c.number tensor.data ∧
      s' = {s with model.inputTensors := s.model.inputTensors.set item.2 (some tensor)} := by
  obtain ⟨input,i⟩ := item
  simp only [fillInput] at ok
  split at ok
  · rename_i kind
    cases ok
    exact .inl ⟨kind,rfl⟩
  · refine .inr ?_
    split at ok
    · split at ok <;> try contradiction
      split at ok <;> try contradiction
      obtain ⟨tensor,same,set⟩ := setInputTensorProceeds ok
      exact ⟨tensor,by rw [same]; rfl,set⟩
    · split at ok <;> try contradiction
      split at ok <;> try contradiction
      obtain ⟨tensor,same,set⟩ := setInputTensorProceeds ok
      exact ⟨tensor,by rw [same]; rfl,set⟩

theorem preprocessInputProceeds {s s' : Frame V} {rows : List (List (String × String))} {inputName : String}
    (ok : preprocessInput c rows s inputName = .proceed s') : ∃ index input, ∃ tensor : OrtValue,
      s.model.inputNamesToIdMap[inputName]? = some index ∧ s.model.info.inputs[index]? = some input ∧
      FromCall c.number tensor.data ∧
      s'.model = {s.model with inputTensors := s.model.inputTensors.set index (some tensor)} := by
  unfold preprocessInput at ok
  split at ok <;> try contradiction
  rename_i index known
  split at ok <;> try contradiction
  rename_i input there
  split at ok <;> try contradiction
  simp only at ok
  split at ok <;> try contradiction
  split at ok <;> try contradiction
  obtain ⟨tensor,same,rfl⟩ := setInputTensorProceeds ok
  exact ⟨index,input,tensor,known,there,by rw [same]; rfl,rfl⟩

theorem fillPreprocessorInputProceeds {s s' : Frame V} {info : PreProcessorInputInfo}
    (ok : fillPreprocessorInput c s info = .proceed s') :
    ∃ rows, Flow.loop (preprocessInput c rows) s info.inputNames = .proceed s' := by
  unfold fillPreprocessorInput at ok
  split at ok <;> try contradiction
  split at ok <;> try contradiction
  split at ok <;> try contradiction
  exact ⟨_,ok⟩

theorem fillInputsKeeps (s : Frame V) : (fillInputs c s).Ends (InputsOnly s.model) := by
  refine Flow.endsAndThen (Flow.loopEnds (fun t item good => ?_) ⟨rfl,rfl,rfl,rfl⟩ _) (fun t good => ?_)
  · exact fillInputEnds item good (fun _ _ _ => good)
  · refine Flow.loopEnds (fun t info good => fillPreprocessorInputEnds info good ?_) good _
    intro rows t inputName _ good
    exact preprocessInputEnds rows inputName good (fun _ _ _ => good) (fun _ _ _ _ _ _ _ _ _ => good)

theorem prepareRunOwn (s : Frame V) : (prepareRun c s).Ends (fun s' => s'.model.info = s.model.info ∧
    ∀ tensor ∈ s'.model.outputTensors, tensor ∈ s.model.outputTensors ∨ ∃ i, tensor.data = .output c.number i) := by
  have kept := fillInputsKeeps (c := c) s
  unfold prepareRun
  cases filled : fillInputs c s with
  | undefined => trivial
  | leave t e =>
      rw [filled] at kept
      exact ⟨kept.2.1,fun tensor member => .inl (kept.2.2.2 ▸ member)⟩
  | proceed t =>
      rw [filled] at kept
      have own := allocatesOwn c.runtime.createsTensor (.output c.number) t.model.info.outputs t.model.outputTensors
      simp only [Flow.andThen,allocateReturn]
      rw [kept.2.2.2] at own ⊢
      split <;> rename_i ended <;> rw [ended] at own
      · exact ⟨kept.2.1,own⟩
      · exact ⟨kept.2.1,own⟩
      · exact ⟨kept.2.1,own⟩
      · trivial

theorem prepareRunFails (s : Frame V) : (prepareRun c s).Leaves (fun e => e ≠ .returned SUCCESS) := by
  have setFails : ∀ (s : Frame V) index input data,
      (setInputTensor c s index input data).Leaves (fun e => e ≠ .returned SUCCESS) := by
    intro s index input data
    unfold setInputTensor
    split
    · simp [Flow.Leaves,TERMINAL_ERROR,SUCCESS]
    · split <;> simp [Flow.Leaves]
  refine Flow.leavesAndThen (Flow.leavesAndThen (Flow.loopLeaves ?_ _ _) (fun s => Flow.loopLeaves ?_ _ _)) (fun s => ?_)
  · rintro s ⟨input,i⟩
    simp only [fillInput]
    repeat' split
    all_goals first | exact setFails _ _ _ _ | simp [Flow.Leaves,TERMINAL_ERROR,RETRYABLE_ERROR,SUCCESS]
  · intro s info
    unfold fillPreprocessorInput
    split
    · simp [Flow.Leaves,TERMINAL_ERROR,SUCCESS]
    · split
      · simp [Flow.Leaves,TERMINAL_ERROR,SUCCESS]
      · split
        · trivial
        · refine Flow.loopLeaves (fun s inputName => ?_) _ _
          simp only [preprocessInput]
          repeat' split
          all_goals first | exact setFails _ _ _ _ | simp [Flow.Leaves,TERMINAL_ERROR,SUCCESS]
  · simp only [allocateReturn]
    split <;> simp [Flow.Leaves,TERMINAL_ERROR,SUCCESS]

theorem prepareRunProceeds {s s' : Frame V} (ok : prepareRun c s = .proceed s') :
    s'.model.info = s.model.info ∧
      (ownTensors (.output c.number) s.model.info.outputs).length = s.model.info.outputs.length ∧
      s'.model.outputTensors = s.model.outputTensors ++ ownTensors (.output c.number) s.model.info.outputs ∧
      s'.outputs = (ownTensors (.output c.number) s.model.info.outputs).map OrtValue.data := by
  have kept := fillInputsKeeps (c := c) s
  unfold prepareRun at ok
  cases filled : fillInputs c s with
  | undefined => simp [filled,Flow.andThen] at ok
  | leave t e => simp [filled,Flow.andThen] at ok
  | proceed t =>
      rw [filled] at kept ok
      simp only [Flow.andThen,allocateReturn,kept.2.1,kept.2.2.2] at ok
      split at ok <;> try contradiction
      rename_i tensors allocated
      obtain ⟨size,rfl⟩ := allocates allocated
      cases ok
      exact ⟨rfl,size,rfl,rfl⟩

theorem bodyCases {s : Frame V} {r : InferenceResult V} (ok : inferenceBody c s = some r) :
    (prepareRun c s = .leave r.frame r.exit ∧ r.exit ≠ .returned SUCCESS ∧ r.runCall = none) ∨
      (∃ run, prepareRun c s = .proceed r.frame ∧ r.runCall = some run ∧ run.call = c.number ∧
        run.outputTensors = r.frame.model.outputTensors ∧ run.numOutputs = r.frame.model.info.outputs.length ∧
        run.outputs = r.frame.outputs ∧ r.exit = .returned (if run.isOk then SUCCESS else TERMINAL_ERROR)) := by
  unfold inferenceBody at ok
  split at ok
  · contradiction
  · rename_i s' exit ended
    have fails := prepareRunFails (c := c) s
    rw [ended] at fails
    cases ok
    exact .inl ⟨ended,fails,rfl⟩
  · rename_i s' ended
    cases ok
    exact .inr ⟨_,ended,rfl,rfl,rfl,rfl,rfl,rfl⟩

/- What filling the inputs establishes is there after the body, if new output tensors
and buffers do not matter to it. -/
theorem bodyEnds {P : Frame V → Prop} {s : Frame V} {r : InferenceResult V} (filled : (fillInputs c s).Ends P)
    (allocated : ∀ t tensors outputs, P t → P {t with model.outputTensors := tensors, outputs := outputs})
    (ok : inferenceBody c s = some r) : P r.frame := by
  have ends : (prepareRun c s).Ends P := by
    refine Flow.endsAndThen filled (fun t good => ?_)
    unfold allocateReturn
    simp only
    split
    · exact allocated _ _ _ good
    · exact allocated _ _ _ good
    · exact allocated _ _ _ good
    · trivial
  unfold inferenceBody at ok
  split at ok
  · contradiction
  · rename_i ended
    rw [ended] at ends
    cases ok
    exact ends
  · rename_i ended
    rw [ended] at ends
    cases ok
    exact ends

theorem runInputs {s : Frame V} {r : InferenceResult V} {run : RunCall} (ok : inferenceBody c s = some r)
    (reached : r.runCall = some run) :
    ∃ t, fillInputs c s = .proceed t ∧ run.call = c.number ∧ run.inputTensors = t.model.inputTensors := by
  unfold inferenceBody at ok
  split at ok
  · contradiction
  · cases ok
    contradiction
  · rename_i s' ended
    cases ok
    cases reached
    unfold prepareRun at ended
    cases filled : fillInputs c s with
    | undefined => simp [filled,Flow.andThen] at ended
    | leave t e => simp [filled,Flow.andThen] at ended
    | proceed t =>
        simp only [filled,Flow.andThen,allocateReturn] at ended
        split at ended <;> try contradiction
        cases ended
        exact ⟨t,rfl,rfl,rfl⟩

end Frames

section Constructor
variable {V : ElementType → Type} [∀ d, Scalar (V d)] {l : Loading}

theorem constructInputKeeps (s : ONNXModel × UserEventsManager V) (item : TensorInfo × Nat) :
    (constructInput l s item).Ends (fun s' => s'.1.modelId = s.1.modelId ∧ s'.1.info = s.1.info ∧
      s'.1.outputTensors = s.1.outputTensors) := by
  obtain ⟨input,i⟩ := item
  simp only [constructInput]
  split
  · split
    · exact ⟨rfl,rfl,rfl⟩
    · split <;> trivial
  · exact ⟨rfl,rfl,rfl⟩

def AfterDummy (m m' : ONNXModel) : Prop :=
  m'.modelId = m.modelId ∧ m'.info = m.info ∧
    ∀ tensor ∈ m'.outputTensors, tensor ∈ m.outputTensors ∨ ∃ i, tensor.data = .dummyOutput i

theorem runDummyInferenceKeeps (m : ONNXModel) : (runDummyInference l m).Ends (AfterDummy m) := by
  have start : AfterDummy m m := ⟨rfl,rfl,fun _ member => .inl member⟩
  refine Flow.endsAndThen (Flow.loopEnds (fun m' item good => ?_) start _) (fun m' kept => ?_)
  · unfold dummyInput
    split
    · exact good
    · split <;> exact good
  · have own := allocatesOwn l.runtime.createsTensor .dummyOutput m'.info.outputs m'.outputTensors
    split <;> rename_i ended <;> rw [ended] at own
    · exact ⟨kept.1,kept.2.1,fun tensor member => (own tensor member).elim (kept.2.2 tensor) .inr⟩
    · exact ⟨kept.1,kept.2.1,fun tensor member => (own tensor member).elim (kept.2.2 tensor) .inr⟩
    · trivial

theorem constructed {modelId version : String} {info : ONNXModelInfo} {before after : UserEventsManager V}
    {m : ONNXModel} (built : construct l modelId version info before = some (after,some m)) :
    m.modelId = modelId ∧ m.info = info ∧ ∀ tensor ∈ m.outputTensors, ∃ i, tensor.data = .dummyOutput i := by
  unfold construct at built
  split at built
  · cases built
  have registered : (Flow.loop (constructInput l) (⟨modelId,version,info,[],[],∅⟩,before) info.inputs.zipIdx).Ends
      (fun s => s.1.modelId = modelId ∧ s.1.info = info ∧ s.1.outputTensors = []) := by
    refine Flow.loopEnds (fun s item good => ?_) ⟨rfl,rfl,rfl⟩ _
    have kept := constructInputKeeps (l := l) s item
    rwa [good.1,good.2.1,good.2.2] at kept
  split at built
  · contradiction
  · cases built
  rename_i s ended
  rw [ended] at registered
  have dummy := runDummyInferenceKeeps (l := l) s.1
  split at built
  · contradiction
  · cases built
  rename_i m' ran
  rw [ran] at dummy
  cases built
  refine ⟨dummy.1.trans registered.1,dummy.2.1.trans registered.2.1,fun tensor member => ?_⟩
  rcases dummy.2.2 tensor member with old | new
  · rw [registered.2.2] at old
    contradiction
  · exact new

end Constructor
end NimbleNet.ONNXModel
