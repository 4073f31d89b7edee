import NimbleNet.ConcurrentInference
import NimbleNet.ModelOwnership

/-! Where the input tensors of a call of Run come from. The inputs of the request and
the features are set in every call; an input with a preprocessor is set only by
way of its name in inputsToProcessors, and keeps an older tensor otherwise. -/
namespace NimbleNet.FreshInputs
open ONNXModel ConcurrentInference StepRuns

section Constructor
variable {V : ElementType → Type} [∀ d, Scalar (V d)] {l : Loading}

def LastNamed (inputs : List TensorInfo) (name : String) (i : Nat) : Prop :=
  ∃ input, inputs[i]? = some input ∧ input.name = name ∧ ∀ j other, inputs[j]? = some other → other.name = name → j ≤ i

def lastIndex (items : List (TensorInfo × Nat)) (name : String) : Option Nat :=
  (items.reverse.find? (fun item => item.1.name == name)).map Prod.snd

theorem lastNamedAppend {inputs : List TensorInfo} {input : TensorInfo} {name : String} {i : Nat} :
    LastNamed (inputs ++ [input]) name i ↔
      if input.name = name then i = inputs.length else LastNamed inputs name i := by
  unfold LastNamed
  split
  · rename_i named
    constructor
    · rintro ⟨here,there,_,last⟩
      have le := last inputs.length input List.getElem?_concat_length named
      have lt := (List.getElem?_eq_some_iff.mp there).1
      rw [List.length_append,List.length_singleton] at lt
      omega
    · rintro rfl
      refine ⟨input,List.getElem?_concat_length,named,fun j other there _ => ?_⟩
      have lt := (List.getElem?_eq_some_iff.mp there).1
      rw [List.length_append,List.length_singleton] at lt
      omega
  · rename_i unlike
    have before {j : Nat} {other : TensorInfo} (named : other.name = name) :
        (inputs ++ [input])[j]? = some other ↔ inputs[j]? = some other := by
      rw [List.getElem?_append]
      split
      · rfl
      · rename_i outside
        rw [List.getElem?_eq_none (Nat.le_of_not_lt outside),List.getElem?_singleton]
        split
        · simp only [Option.some.injEq,reduceCtorEq,iff_false]
          rintro rfl
          exact unlike named
        · rfl
    constructor
    · rintro ⟨here,there,named,last⟩
      exact ⟨here,(before named).mp there,named,fun j other at_ same => last j other ((before same).mpr at_) same⟩
    · rintro ⟨here,there,named,last⟩
      exact ⟨here,(before named).mpr there,named,fun j other at_ same => last j other ((before same).mp at_) same⟩

theorem lastIndexIff {inputs : List TensorInfo} {name : String} {i : Nat} :
    lastIndex inputs.zipIdx name = some i ↔ LastNamed inputs name i := by
  induction inputs using List.reverseRecOn with
  | nil => simp [lastIndex,LastNamed]
  | append_singleton inputs input ih =>
      rw [lastNamedAppend,List.zipIdx_append]
      unfold lastIndex at ih ⊢
      rw [List.reverse_append]
      simp only [List.zipIdx_singleton,List.reverse_singleton,List.singleton_append,List.find?_cons]
      by_cases named : input.name = name
      · simp [named,eq_comm]
      · rw [beq_false_of_ne named,if_neg named]
        exact ih

theorem constructInputProceeds {s s' : ONNXModel × UserEventsManager V} {item : TensorInfo × Nat}
    (ok : constructInput l s item = .proceed s') : s'.1 = {s.1 with
      inputTensors := s.1.inputTensors ++ [none],
      inputNamesToIdMap := s.1.inputNamesToIdMap.insert item.1.name item.2} := by
  obtain ⟨input,i⟩ := item
  simp only [constructInput] at ok
  split at ok
  · split at ok <;> try contradiction
    split at ok <;> try contradiction
    cases ok
    rfl
  · cases ok
    rfl

theorem registeredInputs {items : List (TensorInfo × Nat)} {s s' : ONNXModel × UserEventsManager V}
    (empty : s.1.inputTensors = [] ∧ s.1.inputNamesToIdMap = ∅)
    (ok : Flow.loop (constructInput l) s items = .proceed s') :
    s'.1.info = s.1.info ∧ s'.1.inputTensors.length = items.length ∧
      ∀ name : String, s'.1.inputNamesToIdMap[name]? = lastIndex items name := by
  refine @Flow.loopDone _ _ _ (fun done t => t.1.info = s.1.info ∧ t.1.inputTensors.length = done.length ∧
    ∀ name : String, t.1.inputNamesToIdMap[name]? = lastIndex done name) _ ?_ items [] s s' ?_ ok
  · rintro done item t t' ⟨info,length,names⟩ pass
    rw [constructInputProceeds pass]
    refine ⟨info,by simp [length],fun name => ?_⟩
    unfold lastIndex at names ⊢
    rw [List.reverse_append,List.reverse_singleton,List.singleton_append,List.find?_cons]
    by_cases named : item.1.name = name
    · simp [named]
    · rw [beq_false_of_ne named,OrderedMap.insertOther (Ne.symm named)]
      exact names name
  · simp [empty.1,empty.2,lastIndex]

def DummyAt (tensors : List (Option OrtValue)) (i : Nat) : Prop :=
  ∃ tensor : OrtValue, tensors[i]? = some (some tensor) ∧ tensor.data = .dummyInput i

theorem dummyInputs {items : List (TensorInfo × Nat)} {m m' : ONNXModel}
    (ok : Flow.loop (dummyInput l) m items = .proceed m') : m'.inputNamesToIdMap = m.inputNamesToIdMap ∧
      m'.inputTensors.length = m.inputTensors.length ∧
      ∀ item ∈ items, item.2 < m.inputTensors.length → DummyAt m'.inputTensors item.2 := by
  refine @Flow.loopDone _ _ _ (fun done t => t.inputNamesToIdMap = m.inputNamesToIdMap ∧
    t.inputTensors.length = m.inputTensors.length ∧
    ∀ item ∈ done, item.2 < m.inputTensors.length → DummyAt t.inputTensors item.2) _ ?_ items [] m m' ⟨rfl,rfl,by simp⟩ ok
  rintro done item t t' ⟨names,length,there⟩ pass
  unfold dummyInput at pass
  split at pass <;> try contradiction
  rename_i tensor created
  split at pass <;> try contradiction
  cases pass
  refine ⟨names,by simp [length],fun other member inside => ?_⟩
  have data := createOrtTensorData created
  by_cases same : other.2 = item.2
  · rw [same] at inside ⊢
    exact ⟨tensor,by simp [length,inside],data⟩
  · rcases List.mem_append.mp member with old | new
    · obtain ⟨earlier,at_,data⟩ := there other old inside
      exact ⟨earlier,by simpa [List.getElem?_set_ne (Ne.symm same)] using at_,data⟩
    · rw [List.mem_singleton.mp new] at same
      contradiction

theorem constructedInputs {modelId version : String} {info : ONNXModelInfo} {before after : UserEventsManager V}
    {m : ONNXModel} (built : construct l modelId version info before = some (after,some m)) :
    m.inputTensors.length = info.inputs.length ∧ (∀ i < info.inputs.length, DummyAt m.inputTensors i) ∧
      ∀ (name : String) i, m.inputNamesToIdMap[name]? = some i ↔ LastNamed info.inputs name i := by
  unfold construct at built
  split at built
  · cases built
  split at built
  · contradiction
  · cases built
  rename_i s registered
  obtain ⟨described,length,names⟩ := registeredInputs ⟨rfl,rfl⟩ registered
  rw [List.length_zipIdx] at length
  split at built
  · contradiction
  · cases built
  rename_i m' ran
  cases built
  unfold runDummyInference at ran
  cases filled : Flow.loop (dummyInput l) s.1 s.1.info.inputs.zipIdx with
  | undefined => simp [filled,Flow.andThen] at ran
  | leave t e => simp [filled,Flow.andThen] at ran
  | proceed t =>
      obtain ⟨sameNames,sameLength,there⟩ := dummyInputs filled
      simp only [filled,Flow.andThen] at ran
      split at ran <;> try contradiction
      cases ran
      refine ⟨sameLength.trans length,fun i inside => ?_,fun name i => ?_⟩
      · have lt : i < s.1.info.inputs.length := described ▸ inside
        exact there (s.1.info.inputs[i],i) (List.mk_mem_zipIdx_iff_getElem?.mpr (by simp [lt])) (by rwa [length])
      · change t.inputNamesToIdMap[name]? = some i ↔ _
        rw [sameNames,names name,lastIndexIff]

end Constructor

section Body
variable {V : ElementType → Type} [∀ d, Scalar (V d)] {c : Call}

/- The condition on a description: an input with a preprocessor is the last one of its
name, and some entry of inputsToProcessors lists it. -/
def Covered (info : ONNXModelInfo) : Prop :=
  ∀ i input, info.inputs[i]? = some input → input.toPreprocess = true →
    (∃ p ∈ info.preprocessorInputs, input.name ∈ p.inputNames) ∧ LastNamed info.inputs input.name i

def Fresh (info : ONNXModelInfo) (r : RunCall) : Prop :=
  ∀ i < info.inputs.length, ∃ tensor : OrtValue, r.inputTensors[i]? = some (some tensor) ∧ FromCall r.call tensor.data

def OwnAt (call : Nat) (tensors : List (Option OrtValue)) (i : Nat) : Prop :=
  ∃ tensor : OrtValue, tensors[i]? = some (some tensor) ∧ FromCall call tensor.data

theorem ownSet {call i j : Nat} {tensors : List (Option OrtValue)} {tensor : OrtValue} (own : OwnAt call tensors i)
    (given : FromCall call tensor.data) : OwnAt call (tensors.set j (some tensor)) i := by
  obtain ⟨earlier,there,data⟩ := own
  by_cases same : j = i
  · subst same
    have inside := (List.getElem?_eq_some_iff.mp there).1
    exact ⟨tensor,List.getElem?_set_self inside,given⟩
  · exact ⟨earlier,by rwa [List.getElem?_set_ne same],data⟩

theorem ownSetSelf {call i : Nat} {tensors : List (Option OrtValue)} {tensor : OrtValue} (inside : i < tensors.length)
    (given : FromCall call tensor.data) : OwnAt call (tensors.set i (some tensor)) i :=
  ⟨tensor,List.getElem?_set_self inside,given⟩

structure Described (info : ONNXModelInfo) (m : ONNXModel) : Prop where
  description : m.info = info
  tensors : m.inputTensors.length = info.inputs.length
  names : ∀ (name : String) i, m.inputNamesToIdMap[name]? = some i ↔ LastNamed info.inputs name i

theorem describedSet {info : ONNXModelInfo} {m : ONNXModel} (h : Described info m) (i : Nat) (tensor : OrtValue) :
    Described info {m with inputTensors := m.inputTensors.set i (some tensor)} :=
  ⟨h.description,List.length_set.trans h.tensors,h.names⟩

variable {info : ONNXModelInfo}

def Keeps (call : Nat) (before after : ONNXModel) : Prop :=
  ∀ i, OwnAt call before.inputTensors i → OwnAt call after.inputTensors i

omit [∀ d, Scalar (V d)] in
theorem fillInputsSet {s t : Frame V} (h : Described info s.model)
    (ok : Flow.loop (fillInput c) s info.inputs.zipIdx = .proceed t) : Described info t.model ∧
      ∀ i input, info.inputs[i]? = some input → input.toPreprocess = false → OwnAt c.number t.model.inputTensors i := by
  have done := @Flow.loopDone _ _ _ (fun done t => Described info t.model ∧ ∀ item ∈ done,
    item.2 < info.inputs.length → item.1.toPreprocess = false → OwnAt c.number t.model.inputTensors item.2)
    (fillInput c) ?_ info.inputs.zipIdx [] s t ⟨h,by simp⟩ ok
  · refine ⟨done.1,fun i input there kind => ?_⟩
    have inside := (List.getElem?_eq_some_iff.mp there).1
    exact done.2 (input,i) (List.mk_mem_zipIdx_iff_getElem?.mpr there) inside kind
  · rintro done item s s' ⟨described,own⟩ pass
    rcases fillInputProceeds pass with ⟨kind,rfl⟩ | ⟨tensor,given,rfl⟩
    · refine ⟨described,fun other member inside raw => ?_⟩
      rcases List.mem_append.mp member with old | new
      · exact own other old inside raw
      · rw [List.mem_singleton.mp new,kind] at raw
        contradiction
    · refine ⟨describedSet described _ _,fun other member inside raw => ?_⟩
      rcases List.mem_append.mp member with old | new
      · exact ownSet (own other old inside raw) given
      · rw [List.mem_singleton.mp new] at inside ⊢
        exact ownSetSelf (described.tensors ▸ inside) given

theorem namesSet {rows : List (List (String × String))} {inputNames : List String} {s t : Frame V}
    (h : Described info s.model) (ok : Flow.loop (preprocessInput c rows) s inputNames = .proceed t) :
    Described info t.model ∧ Keeps c.number s.model t.model ∧
      ∀ name ∈ inputNames, ∀ i, LastNamed info.inputs name i → OwnAt c.number t.model.inputTensors i := by
  refine @Flow.loopDone _ _ _ (fun done t => Described info t.model ∧ Keeps c.number s.model t.model ∧
    ∀ name ∈ done, ∀ i, LastNamed info.inputs name i → OwnAt c.number t.model.inputTensors i)
    (preprocessInput c rows) ?_ inputNames [] s t ⟨h,fun _ own => own,by simp⟩ ok
  rintro done inputName s s' ⟨described,keeps,own⟩ pass
  obtain ⟨index,input,tensor,known,there,given,set⟩ := preprocessInputProceeds pass
  rw [set]
  refine ⟨describedSet described _ _,fun i before => ownSet (keeps i before) given,fun name member i last => ?_⟩
  rcases List.mem_append.mp member with old | new
  · exact ownSet (own name old i last) given
  · rw [List.mem_singleton.mp new] at last
    have same : index = i := by
      have found := (described.names inputName i).mpr last
      rw [known] at found
      exact Option.some.inj found
    subst same
    rw [described.description] at there
    have inside := (List.getElem?_eq_some_iff.mp there).1
    exact ownSetSelf (described.tensors ▸ inside) given

theorem processorsSet {s t : Frame V} {processors : List PreProcessorInputInfo} (h : Described info s.model)
    (ok : Flow.loop (fillPreprocessorInput c) s processors = .proceed t) :
    Keeps c.number s.model t.model ∧ ∀ p ∈ processors, ∀ name ∈ p.inputNames, ∀ i,
      LastNamed info.inputs name i → OwnAt c.number t.model.inputTensors i := by
  have done := @Flow.loopDone _ _ _ (fun done t => Described info t.model ∧ Keeps c.number s.model t.model ∧
    ∀ p ∈ done, ∀ name ∈ p.inputNames, ∀ i, LastNamed info.inputs name i → OwnAt c.number t.model.inputTensors i)
    (fillPreprocessorInput c) ?_ processors [] s t ⟨h,fun _ own => own,by simp⟩ ok
  · exact done.2
  · rintro done p s s' ⟨described,keeps,own⟩ pass
    obtain ⟨rows,pass⟩ := fillPreprocessorInputProceeds pass
    obtain ⟨described',keeps',own'⟩ := namesSet described pass
    refine ⟨described',fun i before => keeps' i (keeps i before),fun q member name listed i last => ?_⟩
    rcases List.mem_append.mp member with old | new
    · exact keeps' i (own q old name listed i last)
    · rw [List.mem_singleton.mp new] at listed
      exact own' name listed i last

theorem coveredFresh {s t : Frame V} (covered : Covered info) (h : Described info s.model)
    (ok : fillInputs c s = .proceed t) : ∀ i < info.inputs.length, OwnAt c.number t.model.inputTensors i := by
  unfold fillInputs at ok
  rw [h.description] at ok
  cases first : Flow.loop (fillInput c) s info.inputs.zipIdx with
  | undefined => simp [first,Flow.andThen] at ok
  | leave u e => simp [first,Flow.andThen] at ok
  | proceed u =>
      obtain ⟨described,own⟩ := fillInputsSet h first
      simp only [first,Flow.andThen,described.description] at ok
      obtain ⟨keeps,listed⟩ := processorsSet described ok
      intro i inside
      have there := List.getElem?_eq_getElem inside
      by_cases kind : info.inputs[i].toPreprocess = true
      · obtain ⟨⟨p,member,name⟩,last⟩ := covered i _ there kind
        exact listed p member _ name i last
      · exact keeps i (own i _ there (eq_false_of_ne_true kind))

/- An input that neither loop gets to. -/
def Unreached (info : ONNXModelInfo) (i : Nat) : Prop :=
  (∃ input, info.inputs[i]? = some input ∧ input.toPreprocess = true) ∧
    ∀ p ∈ info.preprocessorInputs, ∀ name ∈ p.inputNames, ¬ LastNamed info.inputs name i

theorem notCovered (h : ¬ Covered info) : ∃ i, Unreached info i := by
  simp only [Covered,not_forall] at h
  obtain ⟨i,input,there,kind,missing⟩ := h
  refine ⟨i,⟨input,there,kind⟩,fun p member name listed last => missing ?_⟩
  obtain ⟨input',there',named,_⟩ := id last
  rw [there] at there'
  cases there'
  exact ⟨⟨p,member,named ▸ listed⟩,named ▸ last⟩

structure Loaded (info : ONNXModelInfo) (m : ONNXModel) : Prop where
  described : Described info m
  stale : ∀ i, Unreached info i → DummyAt m.inputTensors i

theorem loadedSet {m : ONNXModel} (h : Loaded info m) {i : Nat} (reached : ¬ Unreached info i) (tensor : OrtValue) :
    Loaded info {m with inputTensors := m.inputTensors.set i (some tensor)} := by
  refine ⟨describedSet h.described _ _,fun j unreached => ?_⟩
  obtain ⟨dummy,there,data⟩ := h.stale j unreached
  have other : i ≠ j := by
    rintro rfl
    exact reached unreached
  exact ⟨dummy,by rwa [List.getElem?_set_ne other],data⟩

theorem fillInputsLoaded {s : Frame V} (h : Loaded info s.model) :
    (fillInputs c s).Ends (fun t => Loaded info t.model) := by
  unfold fillInputs
  rw [h.described.description]
  refine Flow.endsAndThen (Flow.loopEndsMem (fun s item member good => ?_) h) (fun t good => ?_)
  · refine fillInputEnds item good (fun tensor kind _ => loadedSet good ?_ tensor)
    rintro ⟨⟨input,there,processed⟩,_⟩
    obtain ⟨input',i⟩ := item
    rw [List.mk_mem_zipIdx_iff_getElem?.mp member] at there
    cases there
    exact Bool.noConfusion (processed.symm.trans kind)
  · rw [good.described.description]
    refine Flow.loopEndsMem (fun s p member good => fillPreprocessorInputEnds p good ?_) good
    intro rows t inputName listed good
    refine preprocessInputEnds rows inputName good (fun _ _ _ => good) (fun _ _ index _ _ known _ _ written => ?_)
    rcases written with same | ⟨tensor,_,same⟩ <;> rw [same]
    · exact good
    · refine loadedSet good (fun unreached => ?_) tensor
      exact unreached.2 p member inputName listed ((good.described.names _ _).mp known)

theorem ownNotDummy {call i : Nat} {tensors : List (Option OrtValue)} (own : OwnAt call tensors i) :
    ¬ DummyAt tensors i := by
  rintro ⟨dummy,there,data⟩
  obtain ⟨tensor,there',given⟩ := own
  rw [there] at there'
  cases there'
  rw [data] at given
  exact given

theorem bodyFresh {s : Frame V} {r : InferenceResult V} (h : Loaded info s.model) (ok : inferenceBody c s = some r) :
    Loaded info r.frame.model ∧ ∀ run, r.runCall = some run → (Fresh info run ↔ Covered info) := by
  refine ⟨bodyEnds (fillInputsLoaded h) (fun _ _ _ good => ⟨⟨good.described.description,good.described.tensors,
    good.described.names⟩,good.stale⟩) ok,fun run reached => ?_⟩
  obtain ⟨t,filled,call,tensors⟩ := runInputs ok reached
  constructor
  · intro fresh
    by_contra uncovered
    obtain ⟨i,unreached⟩ := notCovered uncovered
    have loaded := fillInputsLoaded (c := c) h
    rw [filled] at loaded
    have inside := (List.getElem?_eq_some_iff.mp unreached.1.choose_spec.1).1
    refine ownNotDummy (fresh i inside) ?_
    rw [tensors]
    exact loaded.stale i unreached
  · intro covered i inside
    rw [call,tensors]
    exact coveredFresh covered h.described filled i inside

end Body

section Runs
variable {V : ElementType → Type} [∀ d, Scalar (V d)] {info : ONNXModelInfo}

structure Running (info : ONNXModelInfo) (s : Calls V) : Prop where
  loaded : Loaded info s.model
  fresh : ∀ r ∈ s.runCalls, Fresh info r ↔ Covered info

theorem stepRunning {s next : Calls V} {a : Action V} (h : Running info s) (taken : step s a = some next) :
    Running info next := by
  cases a with
  | clear call =>
      simp only [step] at taken
      split at taken <;> try contradiction
      cases taken
      exact ⟨⟨⟨h.loaded.described.description,h.loaded.described.tensors,h.loaded.described.names⟩,h.loaded.stale⟩,
        h.fresh⟩
  | body c =>
      simp only [step] at taken
      split at taken <;> try contradiction
      obtain ⟨r,ended,rfl⟩ := Option.map_eq_some_iff.mp taken
      obtain ⟨loaded,fresh⟩ := bodyFresh (s := s.entry) h.loaded ended
      refine ⟨loaded,fun run member => ?_⟩
      rcases List.mem_append.mp member with old | new
      · exact h.fresh run old
      · exact fresh run (Option.mem_toList.mp new)
  | userEvents manager =>
      cases taken
      exact ⟨h.loaded,h.fresh⟩

theorem freshIff {l : Loading} {modelId version : String} {before manager : UserEventsManager V} {model : ONNXModel}
    {actions : List (Action V)} {final : Calls V}
    (built : construct l modelId version info before = some (manager,some model))
    (ran : run step (start model manager) actions = some final) :
    ∀ r ∈ final.runCalls, Fresh info r ↔ Covered info := by
  obtain ⟨tensors,dummies,names⟩ := constructedInputs built
  have loaded : Loaded info model := by
    refine ⟨⟨(constructed built).2.1,tensors,names⟩,fun i unreached => ?_⟩
    obtain ⟨input,there,_⟩ := unreached.1
    exact dummies i (List.getElem?_eq_some_iff.mp there).1
  exact (runInvariant step (fun _ _ _ => stepRunning) ⟨loaded,by simp [start]⟩ ran).fresh

end Runs

section Ranker

theorem coveredItems {info : ONNXModelInfo} : (∀ item ∈ info.inputs.zipIdx, item.1.toPreprocess = true →
    (∃ p ∈ info.preprocessorInputs, item.1.name ∈ p.inputNames) ∧ lastIndex info.inputs.zipIdx item.1.name = some item.2) ↔
      Covered info := by
  simp only [Prod.forall,List.mk_mem_zipIdx_iff_getElem?,lastIndexIff]
  exact ⟨fun all i input => all input i,fun all input i => all i input⟩

instance (info : ONNXModelInfo) : Decidable (Covered info) := decidable_of_iff _ coveredItems

def described (processors : List Json) : Json :=
  .object [("inputs",.array [.object [("name",.string "totals"),("dataType",.integer 6),
      ("processor",ModelOwnership.totalsJson),("shape",.array [.integer 1,.integer 1])]]),
    ("outputs",.array []),("inputsToProcessors",.array processors)]

def usersToTotals : Json := .object [("name",.string "users"),("inputNames",.array [.string "totals"])]

def oneCall (processors : List Json) : Option (ONNXModelInfo × Calls IntValues) := do
  let info ← ONNXModelInfo.fromJson (described processors)
  let (manager,some model) ← construct ModelOwnership.rankerLoading "ranker" "1.0.0" info ModelOwnership.ordersOnly | none
  let final ← run step (start model manager) [.clear 0,.body (ModelOwnership.rankerCall 0 ["ann"])]
  some (info,final)

def sources (s : Calls IntValues) : List (List (Option Buffer)) :=
  s.runCalls.map (fun r => r.inputTensors.map (Option.map OrtValue.data))

theorem oneCallParts {processors : List Json} {info : ONNXModelInfo} {final : Calls IntValues}
    (called : oneCall processors = some (info,final)) : ∃ manager model,
      ONNXModelInfo.fromJson (described processors) = some info ∧
      construct ModelOwnership.rankerLoading "ranker" "1.0.0" info ModelOwnership.ordersOnly = some (manager,some model) ∧
      run step (start model manager) [.clear 0,.body (ModelOwnership.rankerCall 0 ["ann"])] = some final := by
  simp only [oneCall,bind,Option.bind_eq_some_iff] at called
  obtain ⟨read,accepted,⟨manager,model⟩,built,called⟩ := called
  cases model with
  | none => contradiction
  | some model =>
      obtain ⟨last,ran,same⟩ := Option.bind_eq_some_iff.mp called
      cases same
      exact ⟨manager,model,accepted,built,ran⟩

theorem freshWhenListed : ∃ info final, oneCall [usersToTotals] = some (info,final) ∧ final.runCalls.length = 1 ∧
    ∀ r ∈ final.runCalls, Fresh info r := by
  have facts : (oneCall [usersToTotals]).map (fun r => (decide (Covered r.1),r.2.runCalls.length)) = some (true,1) := by
    decide +kernel
  obtain ⟨⟨info,final⟩,called,both⟩ := Option.map_eq_some_iff.mp facts
  simp only [Prod.mk.injEq,decide_eq_true_eq] at both
  obtain ⟨manager,model,_,built,ran⟩ := oneCallParts called
  exact ⟨info,final,called,both.2,fun r member => (freshIff built ran r member).mpr both.1⟩

theorem dummyInputServed : ¬ ∀ (j : Json) (info : ONNXModelInfo) (l : Loading) (modelId version : String)
    (before manager : UserEventsManager IntValues) (model : ONNXModel) (actions : List (Action IntValues))
    (final : Calls IntValues), ONNXModelInfo.fromJson j = some info →
    construct l modelId version info before = some (manager,some model) →
    run step (start model manager) actions = some final → ∀ r ∈ final.runCalls, Fresh info r := by
  intro claim
  have facts : (oneCall []).map (fun r => (r.1.inputs.length,sources r.2)) = some (1,[[some (.dummyInput 0)]]) := by
    decide +kernel
  obtain ⟨⟨info,final⟩,called,both⟩ := Option.map_eq_some_iff.mp facts
  simp only [Prod.mk.injEq,sources] at both
  obtain ⟨manager,model,accepted,built,ran⟩ := oneCallParts called
  have fresh := claim _ info _ _ _ _ manager model _ final accepted built ran
  obtain ⟨r,member,data⟩ := List.mem_map.mp (both.2 ▸ List.mem_singleton_self [some (Buffer.dummyInput 0)])
  obtain ⟨tensor,there,given⟩ := fresh r member 0 (by omega)
  have first := congrArg List.head? data
  rw [List.head?_map,List.head?_eq_getElem?,there] at first
  have dummy : tensor.data = .dummyInput 0 := Option.some.inj (Option.some.inj first)
  rw [dummy] at given
  exact given

end Ranker
end NimbleNet.FreshInputs
