import NimbleNet.FeatureLayout
import NimbleNet.InferenceBody
import NimbleNet.LastInferences
import NimbleNet.ModelOwnership
import NimbleNet.PartialMaps

/-! The lengths of the inputs that get_inference saves. An input is saved before its
length is checked, so what is kept fits its tensor only when the entities of the
request and the features of their preprocessor make up the tensor's size. The buffer then
holds what is read of it later. -/
namespace NimbleNet.SavedInputs
open MachineNumbers ModelOwnership ONNXModel PartialMaps StepRuns

section Length
variable {V : ElementType → Type}

def featureLength (m : UserEventsManager V) (identifier : String) : Option Nat := do
  let tableName ← m.modelInputToTableNameMap[identifier]?
  let tableStore ← m.tableStoreMap[tableName]?
  let index ← tableStore.modelInputPreprocessorIdMap[identifier]?
  let p ← tableStore.preprocessors[index]?
  some p.preprocessor.defaultFeature.length

variable [∀ d, Scalar (V d)]

theorem answerLength {m m' : UserEventsManager V} {clock : Nat → Nat → Int} {identifier : String}
    {rows : List (List (String × String))} {userInput : AnyModelInput V}
    (answered : m.getModelInput clock identifier rows = some (m',some userInput)) :
    ∃ n, featureLength m identifier = some n ∧ userInput.input.length = wrap32 (rows.length * n) := by
  unfold UserEventsManager.getModelInput at answered
  split at answered
  · cases answered
  rename_i tableName route
  split at answered
  · cases answered
  rename_i tableStore table
  simp only [bind,Option.bind_eq_some_iff] at answered
  obtain ⟨⟨tableStore',result⟩,answered,same⟩ := answered
  simp only [Option.some.injEq,Prod.mk.injEq] at same
  obtain ⟨_,rfl⟩ := same
  rcases TableStore.modelInputCases answered with
    ⟨_,_,none⟩ | ⟨_,_,p,known,there,⟨_,_,none⟩ | ⟨groups,_,made,keys,ran,_,same⟩⟩
  · cases none
  · cases none
  obtain ⟨input,rfl,rfl⟩ := Option.map_eq_some_iff.mp same.symm
  rcases PreProcessor.modelInputEnds ran with ⟨_,_,none⟩ | ⟨_,_,_,_,_,made⟩
  · cases none
  cases made
  exact ⟨p.defaultFeature.length,by simp [featureLength,route,table,known,there],by rw [(mapMEach keys).length_eq]⟩

end Length

section Body
variable {V : ElementType → Type} [∀ d, Scalar (V d)] (c : Call)

def Agrees (info : ONNXModelInfo) (this : Nat) (entry : ONNXPreProcessorInput V) : Prop :=
  entry.tensorInfoPtr.model = this ∧ ∃ t, info.inputs[entry.tensorInfoPtr.input]? = some t ∧
    entry.modelInput.input.length = t.size

def FitsPass (rows : List (List (String × String))) (s : Frame V) (inputName : String) : Prop :=
  ∀ index ∈ s.model.inputNamesToIdMap[inputName]?, ∀ input ∈ s.model.info.inputs[index]?, input.toPreprocess = true →
    ((s.manager.getModelInput (c.clock s.preprocessorInputsToFill.length) (s.model.modelId ++ input.name) rows).bind
      Prod.snd).isSome = true →
    ∀ n ∈ featureLength s.manager (s.model.modelId ++ input.name), wrap32 (rows.length * n) = input.size

def FitsInput (s : Frame V) (info : PreProcessorInputInfo) : Prop :=
  ∀ given ∈ c.findInput info.name, given.1.dataType = PREPROCESSOR_INPUT_TYPE → ∀ rows ∈ given.1.preprocessorInput,
    Flow.Reached (preprocessInput c rows) (FitsPass c rows) s info.inputNames

/- The condition on a call: it holds of every pass that the call reaches. -/
def EntitiesFit (s : Frame V) : Prop :=
  ∀ s', Flow.loop (fillInput c) s s.model.info.inputs.zipIdx = .proceed s' →
    Flow.Reached (fillPreprocessorInput c) (FitsInput c) s' s'.model.info.preprocessorInputs

instance (rows : List (List (String × String))) (s : Frame V) (inputName : String) :
    Decidable (FitsPass c rows s inputName) := by
  unfold FitsPass
  infer_instance

instance (s : Frame V) (info : PreProcessorInputInfo) : Decidable (FitsInput c s info) := by
  unfold FitsInput
  infer_instance

instance (s : Frame V) : Decidable (EntitiesFit c s) :=
  match filled : Flow.loop (fillInput c) s s.model.info.inputs.zipIdx with
  | .proceed s' => decidable_of_iff (Flow.Reached (fillPreprocessorInput c) (FitsInput c) s'
      s'.model.info.preprocessorInputs) (by simp [EntitiesFit,filled])
  | .leave _ _ => isTrue (by simp [EntitiesFit,filled])
  | .undefined => isTrue (by simp [EntitiesFit,filled])

variable {c}

omit [∀ d, Scalar (V d)] in
theorem setInputTensorKeeps (s : Frame V) (index : Nat) (input : TensorInfo) (data : Buffer) :
    setInputTensor c s index input data ≠ .undefined ∧ (setInputTensor c s index input data).Ends (fun s' =>
      s'.model.info = s.model.info ∧ s'.preprocessorInputsToFill = s.preprocessorInputsToFill) := by
  refine ⟨?_,setInputTensorEnds index input data ⟨rfl,rfl⟩ (fun _ _ => ⟨rfl,rfl⟩)⟩
  unfold setInputTensor
  split
  · simp
  · split <;> simp

theorem preprocessInputCases (rows : List (List (String × String))) (s : Frame V) (inputName : String)
    (defined : preprocessInput c rows s inputName ≠ .undefined) :
    (FitsPass c rows s inputName ∧ (preprocessInput c rows s inputName).Ends (fun s' =>
      s'.model.info = s.model.info ∧ s'.preprocessorInputsToFill = s.preprocessorInputsToFill)) ∨
    ∃ index input userInput, s.model.info.inputs[index]? = some input ∧
      (userInput.input.length = input.size ↔ FitsPass c rows s inputName) ∧
      (preprocessInput c rows s inputName).Ends (fun s' => s'.model.info = s.model.info ∧
        s'.preprocessorInputsToFill = s.preprocessorInputsToFill ++ [⟨userInput,⟨c.this,index⟩⟩]) := by
  cases known : s.model.inputNamesToIdMap[inputName]? with
  | none => exact .inl ⟨by simp [FitsPass,known],by simp [preprocessInput,known,Flow.Ends]⟩
  | some index =>
      cases there : s.model.info.inputs[index]? with
      | none => exact absurd (by simp [preprocessInput,known,there]) defined
      | some input =>
          by_cases processed : input.toPreprocess = true
          · cases answer : s.manager.getModelInput (c.clock s.preprocessorInputsToFill.length)
                (s.model.modelId ++ input.name) rows with
            | none => exact absurd (by simp [preprocessInput,known,there,processed,answer]) defined
            | some result =>
                obtain ⟨manager,userInput⟩ := result
                cases userInput with
                | none =>
                    exact .inl ⟨by simp [FitsPass,known,there,answer],
                      by simp [preprocessInput,known,there,processed,answer,Flow.Ends]⟩
                | some userInput =>
                    obtain ⟨n,feature,length⟩ := answerLength answer
                    refine .inr ⟨index,input,userInput,there,?_,?_⟩
                    · simp [FitsPass,known,there,processed,answer,feature,length]
                    · simp only [preprocessInput,known,there,processed,answer,Bool.not_true,Bool.false_eq_true,if_false]
                      split
                      · exact (setInputTensorKeeps _ index input _).2
                      · exact ⟨rfl,rfl⟩
          · exact .inl ⟨by simp [FitsPass,known,there,processed],
              by simp [preprocessInput,known,there,processed,Flow.Ends]⟩

def AllAgree (info : ONNXModelInfo) (this : Nat) (s : Frame V) : Prop :=
  s.model.info = info ∧ ∀ entry ∈ s.preprocessorInputsToFill, Agrees info this entry

omit [∀ d, Scalar (V d)] in
theorem agreesAppend {info : ONNXModelInfo} {s s' : Frame V} {entry : ONNXPreProcessorInput V}
    (ends : s'.model.info = s.model.info ∧ s'.preprocessorInputsToFill = s.preprocessorInputsToFill ++ [entry])
    (good : AllAgree info c.this s) : AllAgree info c.this s' ↔ Agrees info c.this entry := by
  unfold AllAgree
  rw [ends.1,ends.2]
  constructor
  · exact fun all => all.2 entry (by simp)
  · intro here
    refine ⟨good.1,fun other member => ?_⟩
    rcases List.mem_append.mp member with old | new
    · exact good.2 other old
    · rwa [List.mem_singleton.mp new]

theorem passAgrees {info : ONNXModelInfo} {rows : List (List (String × String))} {s : Frame V} {inputName : String}
    (good : AllAgree info c.this s) (defined : preprocessInput c rows s inputName ≠ .undefined) :
    (preprocessInput c rows s inputName).Ends (AllAgree info c.this) ↔ FitsPass c rows s inputName := by
  rcases preprocessInputCases rows s inputName defined with ⟨fits,ends⟩ | ⟨index,input,userInput,there,fits,ends⟩
  · refine Flow.endsIff defined ends (fun s' same => iff_of_true ?_ fits)
    unfold AllAgree
    rwa [same.1,same.2]
  · refine Flow.endsIff defined ends (fun s' pushed => (agreesAppend pushed good).trans ?_)
    rw [← fits,Agrees,← good.1,there]
    simp

def Extends (s s' : Frame V) : Prop :=
  s'.model.info = s.model.info ∧ s.preprocessorInputsToFill <+: s'.preprocessorInputsToFill

theorem passExtends {s t : Frame V} (rows : List (List (String × String))) (inputName : String) (before : Extends s t) :
    (preprocessInput c rows t inputName).Ends (Extends s) :=
  preprocessInputEnds rows inputName before (fun _ _ _ => before)
    (fun _ _ _ _ _ _ _ _ _ => ⟨before.1,before.2.trans (List.prefix_append _ _)⟩)

omit [∀ d, Scalar (V d)] in
theorem agreesBefore {info : ONNXModelInfo} {this : Nat} {s s' : Frame V} (later : Extends s s')
    (good : AllAgree info this s') : AllAgree info this s :=
  ⟨later.1 ▸ good.1,fun entry member => good.2 entry (later.2.subset member)⟩

theorem inputAgrees {info : ONNXModelInfo} {s : Frame V} {preprocessor : PreProcessorInputInfo}
    (good : AllAgree info c.this s) (defined : fillPreprocessorInput c s preprocessor ≠ .undefined) :
    (fillPreprocessorInput c s preprocessor).Ends (AllAgree info c.this) ↔ FitsInput c s preprocessor := by
  unfold fillPreprocessorInput at defined ⊢
  cases found : c.findInput preprocessor.name with
  | none => exact iff_of_true good (by simp [FitsInput,found])
  | some given =>
      obtain ⟨given,j⟩ := given
      simp only [found] at defined ⊢
      by_cases type : given.dataType = PREPROCESSOR_INPUT_TYPE
      · simp only [type,ne_eq,not_true_eq_false,if_false] at defined ⊢
        cases entities : given.preprocessorInput with
        | none =>
            rw [entities] at defined
            exact absurd rfl defined
        | some rows =>
            rw [entities] at defined
            simp only [FitsInput,found,Option.mem_some_iff,forall_eq',type,forall_const,entities]
            exact Flow.loopEndsIff (fun _ _ => passAgrees)
              (fun t inputName ok ends => Flow.endsBack ok (passExtends rows inputName ⟨rfl,List.prefix_rfl⟩) ends
                (fun _ => agreesBefore)) good defined
      · simp only [type,ne_eq,not_false_eq_true,if_true]
        exact iff_of_true good (by simp [FitsInput,found,type])

theorem bodyAgrees {s : Frame V} (fresh : s.preprocessorInputsToFill = []) (defined : fillInputs c s ≠ .undefined) :
    (fillInputs c s).Ends (AllAgree s.model.info c.this) ↔ EntitiesFit c s := by
  have start : AllAgree s.model.info c.this s := ⟨rfl,by simp [fresh]⟩
  have kept : (Flow.loop (fillInput c) s s.model.info.inputs.zipIdx).Ends (AllAgree s.model.info c.this) :=
    Flow.loopEnds (fun t item good => fillInputEnds item good (fun _ _ _ => good)) start _
  unfold fillInputs EntitiesFit at *
  cases filled : Flow.loop (fillInput c) s s.model.info.inputs.zipIdx with
  | undefined =>
      rw [filled] at defined
      exact absurd rfl defined
  | leave t e =>
      rw [filled] at kept
      exact iff_of_true kept (by simp)
  | proceed t =>
      rw [filled] at kept defined
      simp only [Flow.andThen,Flow.proceed.injEq,forall_eq'] at defined ⊢
      exact Flow.loopEndsIff (fun _ _ => inputAgrees)
        (fun t preprocessor ok ends => Flow.endsBack ok
          (fillPreprocessorInputEnds preprocessor ⟨rfl,List.prefix_rfl⟩ (fun rows _ inputName _ => passExtends rows inputName))
          ends (fun _ => agreesBefore)) kept defined

omit [∀ d, Scalar (V d)] in
theorem allocateKeeps (s : Frame V) : (allocateReturn c s).Ends (fun s' =>
    s'.model.info = s.model.info ∧ s'.preprocessorInputsToFill = s.preprocessorInputsToFill) := by
  unfold allocateReturn
  split <;> first | exact ⟨rfl,rfl⟩ | trivial

theorem collectedAgree {s : Frame V} {r : InferenceResult V} (fresh : s.preprocessorInputsToFill = [])
    (fits : EntitiesFit c s) (ran : inferenceBody c s = some r) :
    r.frame.model.info = s.model.info ∧ ∀ entry ∈ r.frame.preprocessorInputsToFill, Agrees s.model.info c.this entry := by
  have prepared : (prepareRun c s).Ends (AllAgree s.model.info c.this) := by
    have defined : fillInputs c s ≠ .undefined := by
      intro wrong
      simp [inferenceBody,prepareRun,wrong,Flow.andThen] at ran
    refine Flow.endsAndThen ((bodyAgrees fresh defined).mpr fits) (fun t good => ?_)
    have kept := allocateKeeps (c := c) t
    generalize allocateReturn c t = ended at kept
    cases ended <;> simp only [Flow.Ends] at kept ⊢ <;> (unfold AllAgree; rwa [kept.1,kept.2])
  rcases bodyCases ran with ⟨left,_⟩ | ⟨_,left,_⟩ <;> rw [left] at prepared <;> exact prepared

end Body

section Runs
variable {V : ElementType → Type} [∀ d, Scalar (V d)]

/- The steps of get_inference, of get_inputs_for_inferId and of the user events; no model
is loaded meanwhile. -/
def NoLoad : Action V → Prop
  | .buildModel _ _ _ => False
  | .replaceModel _ _ => False
  | _ => True

def Fits (s : Executing V) : Action V → Prop
  | .body c => ∀ r ∈ s.call c.number, ∀ m ∈ s.executor.instanceAt r.this,
      EntitiesFit {c with this := r.this} (⟨m,s.executor.manager,[],[]⟩ : Frame V)
  | _ => True

instance (s : Executing V) : (a : Action V) → Decidable (Fits s a)
  | .body c => inferInstanceAs (Decidable (∀ r ∈ s.call c.number, ∀ m ∈ s.executor.instanceAt r.this,
      EntitiesFit {c with this := r.this} (⟨m,s.executor.manager,[],[]⟩ : Frame V)))
  | .enter .. | .clear _ | .save _ | .buildModel .. | .replaceModel .. | .getInputsForInferId _ | .userEvents _ =>
      isTrue trivial

def SameInfos (s next : Executing V) : Prop :=
  ∀ ptr, next.executor.tensorInfo ptr = s.executor.tensorInfo ptr

omit [∀ d, Scalar (V d)] in
theorem setInfos {s next : Executing V} {address : Nat} {m m' : ONNXModel}
    (there : s.executor.instanceAt address = some m) (same : m'.info = m.info)
    (set : next.executor.instances = s.executor.instances.set address (some m')) : SameInfos s next := by
  intro ptr
  unfold ONNXExecutor.tensorInfo ONNXExecutor.instanceAt at *
  rw [set]
  by_cases here : address = ptr.model
  · rw [← here,there]
    have inside : address < s.executor.instances.length := by
      by_contra outside
      simp [List.getElem?_eq_none (Nat.le_of_not_lt outside)] at there
    simp [List.getElem?_set_self inside,same]
  · rw [List.getElem?_set_ne here]

def Matches (s : Executing V) (entry : ONNXPreProcessorInput V) : Prop :=
  ∃ t, s.executor.tensorInfo entry.tensorInfoPtr = some t ∧ entry.modelInput.input.length = t.size

omit [∀ d, Scalar (V d)] in
theorem matchesSame {s next : Executing V} (same : SameInfos s next) {entry : ONNXPreProcessorInput V}
    (h : Matches s entry) : Matches next entry := by
  obtain ⟨t,here,length⟩ := h
  exact ⟨t,(same _).trans here,length⟩

theorem stepInfos {parse : String → Option Json} {s next : Executing V} {a : Action V} (guard : NoLoad a ∧ Fits s a)
    (taken : step parse s a = some next) : SameInfos s next := by
  cases a with
  | enter number inferId modelId =>
      simp only [step] at taken
      split at taken <;> try contradiction
      split at taken <;> cases taken <;> exact fun _ => rfl
  | clear number =>
      simp only [step,bind,Option.bind_eq_some_iff] at taken
      obtain ⟨r,found,taken⟩ := taken
      split at taken <;> try contradiction
      obtain ⟨m,there,taken⟩ := Option.bind_eq_some_iff.mp taken
      have cleared : (clearOutputTensors m).info = m.info := rfl
      cases taken
      exact setInfos there cleared rfl
  | body c =>
      simp only [step,bind,Option.bind_eq_some_iff] at taken
      obtain ⟨r,found,taken⟩ := taken
      split at taken <;> try contradiction
      obtain ⟨m,there,taken⟩ := Option.bind_eq_some_iff.mp taken
      obtain ⟨result,ran,taken⟩ := Option.bind_eq_some_iff.mp taken
      have agree := collectedAgree rfl (guard.2 r found m there) ran
      split at taken <;> cases taken <;> exact setInfos there agree.1 rfl
  | save number =>
      simp only [step,bind,Option.bind_eq_some_iff] at taken
      obtain ⟨r,found,taken⟩ := taken
      split at taken <;> try contradiction
      cases taken
      exact fun _ => rfl
  | buildModel l modelId planData => exact guard.1.elim
  | replaceModel modelId address => exact guard.1.elim
  | getInputsForInferId inferId =>
      obtain ⟨_,_,rfl⟩ := Option.map_eq_some_iff.mp taken
      exact fun _ => rfl
  | userEvents manager =>
      cases taken
      exact fun _ => rfl

structure Gathered (managed : UserEventsManager V → Prop) (good : ONNXPreProcessorInput V → Prop) (s : Executing V) : Prop where
  manager : managed s.executor.manager
  kept : ∀ entry ∈ s.executor.inferenceDataBase.kept, good entry
  collected : ∀ r ∈ s.running, ∀ entry ∈ r.phase.inputs, good entry

/- Entries only come from a body, and from there to the database. -/
theorem stepGathered {parse : String → Option Json} {s next : Executing V} {a : Action V}
    {managed : UserEventsManager V → Prop} {good : ONNXPreProcessorInput V → Prop} (h : Gathered managed good s)
    (noLoad : NoLoad a) (events : ∀ manager, a = .userEvents manager → managed manager)
    (body : ∀ c r m result, a = .body c → s.call c.number = some r → s.executor.instanceAt r.this = some m →
      inferenceBody {c with this := r.this} (⟨m,s.executor.manager,[],[]⟩ : Frame V) = some result →
      managed result.frame.manager ∧ ∀ entry ∈ result.frame.preprocessorInputsToFill, good entry)
    (taken : step parse s a = some next) : Gathered managed good next := by
  cases a with
  | enter number inferId modelId =>
      simp only [step] at taken
      split at taken <;> try contradiction
      split at taken
      · cases taken
        exact h
      · cases taken
        refine ⟨h.manager,h.kept,fun r member => ?_⟩
        rcases List.mem_cons.mp member with rfl | old
        · simp [Phase.inputs]
        · exact h.collected r old
  | clear number =>
      simp only [step,bind,Option.bind_eq_some_iff] at taken
      obtain ⟨r,found,taken⟩ := taken
      split at taken <;> try contradiction
      obtain ⟨m,there,taken⟩ := Option.bind_eq_some_iff.mp taken
      cases taken
      refine ⟨h.manager,h.kept,fun r' member => ?_⟩
      rcases List.mem_cons.mp member with rfl | other
      · simp [Phase.inputs]
      · exact h.collected r' (otherMember other)
  | body c =>
      simp only [step,bind,Option.bind_eq_some_iff] at taken
      obtain ⟨r,found,taken⟩ := taken
      split at taken <;> try contradiction
      obtain ⟨m,there,taken⟩ := Option.bind_eq_some_iff.mp taken
      obtain ⟨result,ran,taken⟩ := Option.bind_eq_some_iff.mp taken
      obtain ⟨manager,entries⟩ := body c r m result rfl found there ran
      split at taken
      · cases taken
        exact ⟨manager,h.kept,fun r' other => h.collected r' (otherMember other)⟩
      · cases taken
        refine ⟨manager,h.kept,fun r' member => ?_⟩
        rcases List.mem_cons.mp member with rfl | other
        · exact entries
        · exact h.collected r' (otherMember other)
  | save number =>
      simp only [step,bind,Option.bind_eq_some_iff] at taken
      obtain ⟨r,found,taken⟩ := taken
      split at taken <;> try contradiction
      rename_i inputs phase
      cases taken
      refine ⟨h.manager,fun entry member => ?_,fun r' other => h.collected r' (otherMember other)⟩
      rcases InferenceInputsDatabase.keptAfterAdd member with old | ⟨_,new⟩
      · exact h.kept entry old
      · exact h.collected r (callMember found) entry (by rwa [phase])
  | buildModel l modelId planData => exact noLoad.elim
  | replaceModel modelId address => exact noLoad.elim
  | getInputsForInferId inferId =>
      obtain ⟨_,_,rfl⟩ := Option.map_eq_some_iff.mp taken
      exact h
  | userEvents manager =>
      cases taken
      exact ⟨events manager rfl,h.kept,h.collected⟩

def Matching (s : Executing V) : Prop := Gathered (fun _ => True) (Matches s) s

theorem stepMatching {parse : String → Option Json} {s next : Executing V} {a : Action V} (h : Matching s)
    (guard : NoLoad a ∧ Fits s a) (taken : step parse s a = some next) : Matching next := by
  have gathered : Gathered (fun _ => True) (Matches s) next := by
    refine stepGathered h guard.1 (fun _ _ => trivial) (fun c r m result same found there ran => ⟨trivial,?_⟩) taken
    subst same
    have agree := collectedAgree rfl (guard.2 r found m there) ran
    intro entry inside
    obtain ⟨this,t,tensor,length⟩ := agree.2 entry inside
    exact ⟨t,by simp [ONNXExecutor.tensorInfo,this,there,tensor],length⟩
  have same := stepInfos guard taken
  exact ⟨trivial,fun entry member => matchesSame same (gathered.kept entry member),
    fun r member entry inside => matchesSame same (gathered.collected r member entry inside)⟩

end Runs

section Ranker

end Ranker

section Reads
variable {V : ElementType → Type} [∀ d, Scalar (V d)]

def AllLaid (m : UserEventsManager V) : Prop :=
  ∀ (name : String) tableStore, m.tableStoreMap[name]? = some tableStore → FeatureLayout.StoreLaid tableStore

def Counted (userInput : AnyModelInput V) : Prop := userInput.input.length = wrap32 userInput.input.data.length

theorem flatMapLength {α β : Type} {f : α → List β} {items : List α} {n : Nat} (each : ∀ item ∈ items, (f item).length = n) :
    (items.flatMap f).length = items.length * n := by
  rw [List.length_flatMap,List.map_congr_left each,List.map_const',List.sum_replicate,smul_eq_mul]

theorem answerCounted {T : Type} [Scalar T] {p p' : PreProcessor T} {clock : Nat → Nat → Int} {groups : List String}
    {allEvents : List TableEvent} {made : ModelInput T} (laid : FeatureLayout.Laid p)
    (ran : p.getModelInput clock groups allEvents = some (p',some made)) : made.length = wrap32 made.data.length := by
  have laid' := FeatureLayout.modelInputLaid laid ran
  rcases PreProcessor.modelInputEnds ran with ⟨_,_,none⟩ | ⟨_,windows,features,_,rfl,same⟩
  · cases none
  cases same
  have each : ∀ group ∈ groups, (features.getD group p.defaultFeature).length = p.defaultFeature.length := by
    intro group _
    rw [Std.ExtTreeMap.getD_eq_getD_getElem?]
    cases found : features[group]? with
    | none => rfl
    | some cells => exact laid'.sizes group cells found
  simp only [flatMapLength each,Nat.cast_mul]

theorem answerLaid {m m' : UserEventsManager V} {clock : Nat → Nat → Int} {identifier : String}
    {rows : List (List (String × String))} {result : Option (AnyModelInput V)} (laid : AllLaid m)
    (answered : m.getModelInput clock identifier rows = some (m',result)) :
    AllLaid m' ∧ ∀ userInput ∈ result, Counted userInput := by
  unfold UserEventsManager.getModelInput at answered
  split at answered
  · cases answered
    exact ⟨laid,by simp⟩
  rename_i tableName route
  split at answered
  · cases answered
    exact ⟨laid,by simp⟩
  rename_i tableStore table
  simp only [bind,Option.bind_eq_some_iff] at answered
  obtain ⟨⟨tableStore',result'⟩,answered,same⟩ := answered
  cases same
  have old := laid tableName tableStore table
  refine ⟨fun name store found => ?_,fun userInput given => ?_⟩
  · rcases OrderedMap.insertFound found with ⟨_,rfl⟩ | ⟨_,other⟩
    · exact FeatureLayout.modelInputStoreLaid old answered
    · exact laid name store other
  · rcases TableStore.modelInputCases answered with ⟨_,_,rfl⟩ | ⟨_,d,p,_,here,⟨_,_,rfl⟩ | ⟨_,_,made,_,ran,_,rfl⟩⟩
    · cases given
    · cases given
    obtain ⟨input,rfl,rfl⟩ := Option.map_eq_some_iff.mp given
    exact answerCounted (old _ (List.mem_of_getElem? here)).laid ran

def Whole (s : Frame V) : Prop := AllLaid s.manager ∧ ∀ entry ∈ s.preprocessorInputsToFill, Counted entry.modelInput

theorem prepareWhole {c : Call} {s : Frame V} (whole : Whole s) : (prepareRun c s).Ends Whole := by
  refine Flow.endsAndThen (Flow.endsAndThen (Flow.loopEnds (fun t item good => ?_) whole _) (fun t good => ?_))
    (fun t good => ?_)
  · exact fillInputEnds item good (fun _ _ _ => good)
  · refine Flow.loopEnds (fun t info good => fillPreprocessorInputEnds info good ?_) good _
    intro rows t inputName _ good
    refine preprocessInputEnds rows inputName good (fun manager input answered => ?_)
      (fun manager userInput index input tensors _ _ answered _ => ?_)
    · exact ⟨(answerLaid good.1 answered).1,good.2⟩
    · obtain ⟨laid,counted⟩ := answerLaid good.1 answered
      refine ⟨laid,fun entry member => ?_⟩
      rcases List.mem_append.mp member with old | new
      · exact good.2 entry old
      · rw [List.mem_singleton.mp new]
        exact counted userInput rfl
  · unfold allocateReturn
    split <;> first | exact good | trivial

theorem bodyWhole {c : Call} {s : Frame V} {r : InferenceResult V} (whole : Whole s) (ran : inferenceBody c s = some r) :
    Whole r.frame := by
  have prepared := prepareWhole (c := c) whole
  rcases bodyCases ran with ⟨left,_⟩ | ⟨_,left,_⟩ <;> rw [left] at prepared <;> exact prepared

def ManagerLaid : Action V → Prop
  | .userEvents manager => AllLaid manager
  | _ => True

def Counting (s : Executing V) : Prop := Gathered AllLaid (fun entry => Counted entry.modelInput) s

theorem stepCounting {parse : String → Option Json} {s next : Executing V} {a : Action V} (h : Counting s)
    (guard : NoLoad a ∧ ManagerLaid a) (taken : step parse s a = some next) : Counting next := by
  refine stepGathered h guard.1 (fun manager same => ?_) (fun c r m result _ _ _ ran => ?_) taken
  · subst same
    exact guard.2
  · exact bodyWhole ⟨h.manager,by simp⟩ ran

/- The elements of an input are as wide as those of its tensor, whose bytes an int can count. -/
def SameWidth (s : ONNXExecutor V) (entry : ONNXPreProcessorInput V) : Prop :=
  ∀ t ∈ s.tensorInfo entry.tensorInfoPtr,
    getFieldSizeFromDataType t.dataType = ONNXExecutor.sizeOfElement entry.modelInput.elementType ∧
      0 ≤ t.size * getFieldSizeFromDataType t.dataType ∧ t.size * getFieldSizeFromDataType t.dataType < 2 ^ 31

omit [∀ d, Scalar (V d)] in
theorem copyInside {s : Executing V} {entry : ONNXPreProcessorInput V} (length : Matches s entry)
    (counted : Counted entry.modelInput) (width : SameWidth s.executor entry) :
    (LastInferences.copyOf s.executor entry).isSome = true := by
  obtain ⟨t,there,length⟩ := length
  obtain ⟨same,low,high⟩ := width t there
  have positive : 0 < getFieldSizeFromDataType t.dataType := by
    rw [same]
    cases entry.modelInput.elementType <;> decide
  have size : 0 ≤ t.size := nonneg_of_mul_nonneg_left low positive
  have enough : t.size ≤ entry.modelInput.input.data.length := by
    rw [← length,counted] at size ⊢
    exact wrap32AtMost (Int.natCast_nonneg _) 
  have bytes : wrap32 (t.size * getFieldSizeFromDataType t.dataType) = t.size * getFieldSizeFromDataType t.dataType :=
    wrap32Exact (by omega) high
  have inside : t.size * getFieldSizeFromDataType t.dataType ≤
      entry.modelInput.input.data.length * ONNXExecutor.sizeOfElement entry.modelInput.elementType := by
    rw [← same]
    exact mul_le_mul_of_nonneg_right enough positive.le
  simp [LastInferences.copyOf,there,bytes,positive.ne',low,inside]

omit [∀ d, Scalar (V d)] in
theorem returnsInside {s : ONNXExecutor V}
    (readable : ∀ entry ∈ s.inferenceDataBase.kept, (LastInferences.copyOf s entry).isSome = true) (inferId : String) :
    (s.getInputsForInferId inferId).isSome = true := by
  unfold ONNXExecutor.getInputsForInferId
  split
  · rfl
  · rename_i slot _
    have each : ∀ entry ∈ s.inferenceDataBase.preprocessorInputsForInferIds.getD slot [],
        (LastInferences.copyOf s entry).isSome = true := by
      intro entry member
      rw [List.getD_eq_getElem?_getD] at member
      cases there : s.inferenceDataBase.preprocessorInputsForInferIds[slot]? with
      | none => simp [there] at member
      | some entries =>
          rw [there] at member
          exact readable entry (List.mem_flatten.mpr ⟨entries,List.mem_of_getElem? there,member⟩)
    obtain ⟨copies,all⟩ := Option.isSome_iff_exists.mp (mapMSome.mpr each)
    rw [LastInferences.populateReturns.mpr all]
    rfl

theorem savedInside {parse : String → Option Json} {s : Executing V} {actions : List (Action V)}
    (idle : s.running = []) (fresh : s.executor.inferenceDataBase.kept = []) (laid : AllLaid s.executor.manager)
    (scope : ∀ a ∈ actions, NoLoad a ∧ ManagerLaid a) (fits : Guarded (step parse) Fits s actions) :
    Always (step parse) (fun s => (∀ entry ∈ s.executor.inferenceDataBase.kept, SameWidth s.executor entry) →
      ∀ inferId, (s.executor.getInputsForInferId inferId).isSome = true) s actions := by
  have start : Matching s ∧ Counting s :=
    ⟨⟨trivial,by simp [fresh],by simp [idle]⟩,⟨laid,by simp [fresh],by simp [idle]⟩⟩
  have preserved : ∀ (s : Executing V) (a : Action V) (next : Executing V), Matching s ∧ Counting s →
      (NoLoad a ∧ ManagerLaid a) ∧ Fits s a → step parse s a = some next → Matching next ∧ Counting next :=
    fun _ _ _ both guard taken =>
      ⟨stepMatching both.1 ⟨guard.1.1,guard.2⟩ taken,stepCounting both.2 guard.1 taken⟩
  refine guardedAlways (fun s both width => returnsInside (fun entry member => ?_)) preserved start (guardedAnd scope fits)
  exact copyInside (both.1.kept entry member) (both.2.kept entry member) (width entry member)

end Reads
end NimbleNet.SavedInputs
