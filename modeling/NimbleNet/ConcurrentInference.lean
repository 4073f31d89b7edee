import NimbleNet.InferenceBody
import NimbleNet.StepRuns

/-! Any number of calls of get_inference on one instance. A call takes two steps:
it clears `_outputTensors`, and later runs the rest under the lock. -/
namespace NimbleNet.ConcurrentInference
open ONNXModel StepRuns

structure Returned where
  call : Nat
  exit : Exit
  outputs : List Buffer

/- `waiting`: the calls between their two steps. The calls of Run and the returns
are recorded in order. -/
structure Calls (V : ElementType → Type) where
  model : ONNXModel
  manager : UserEventsManager V
  started : List Nat
  waiting : List Nat
  runCalls : List RunCall
  returned : List Returned

inductive Action (V : ElementType → Type) where
  | clear (call : Nat)
  | body (c : Call)
  | userEvents (manager : UserEventsManager V)

variable {V : ElementType → Type} [∀ d, Scalar (V d)]

def start (model : ONNXModel) (manager : UserEventsManager V) : Calls V := ⟨model,manager,[],[],[],[]⟩

abbrev Calls.entry (s : Calls V) : Frame V := ⟨s.model,s.manager,[],[]⟩

def step (s : Calls V) : Action V → Option (Calls V)
  | .clear call =>
      if call ∈ s.started then none
      else some {s with
        model := clearOutputTensors s.model,
        started := call :: s.started,
        waiting := call :: s.waiting}
  | .body c =>
      if c.number ∈ s.waiting then
        (inferenceBody c s.entry).map (fun r => {s with
          model := r.frame.model,
          manager := r.frame.manager,
          waiting := s.waiting.erase c.number,
          runCalls := s.runCalls ++ r.runCall.toList,
          returned := s.returned ++ [⟨c.number,r.exit,r.frame.outputs⟩]})
      else none
  | .userEvents manager => some {s with manager := manager}

def writtenBy (r : RunCall) : List Buffer := (r.outputTensors.take r.numOutputs).map OrtValue.data

structure OwnBuffers (s : Calls V) : Prop where
  own : ∀ r ∈ s.runCalls, r.outputTensors.take r.numOutputs = ownTensors (.output r.call) s.model.info.outputs ∧
    writtenBy r = r.outputs
  apart : ∀ r ∈ s.runCalls, ∀ buffer ∈ writtenBy r, ∃ i, buffer = .output r.call i
  filled : ∀ ret ∈ s.returned, ret.exit = .returned SUCCESS → ∀ buffer ∈ ret.outputs,
    ∃ r ∈ s.runCalls, r.isOk = true ∧ r.call = ret.call ∧ buffer ∈ writtenBy r

/- A body that gets to Run with outputs finds `_outputTensors` empty. -/
def EmptyAtRun (s : Calls V) : Action V → Prop
  | .body c => (prepareRun c s.entry).isProceed = true → 0 < s.model.info.outputs.length → s.model.outputTensors = []
  | _ => True

instance (s : Calls V) (a : Action V) : Decidable (EmptyAtRun s a) := by
  cases a <;> simp only [EmptyAtRun] <;> infer_instance

structure Stale (s : Calls V) : Prop where
  once : s.waiting.Nodup
  known : ∀ call ∈ s.waiting, call ∈ s.started
  passed : ∀ tensor ∈ s.model.outputTensors, ∀ call i, tensor.data = .output call i → call ∉ s.waiting

theorem stepStale {s next : Calls V} {a : Action V} (h : Stale s) (taken : step s a = some next) : Stale next := by
  cases a with
  | clear call =>
      simp only [step] at taken
      split at taken <;> try contradiction
      rename_i fresh
      cases taken
      refine ⟨List.nodup_cons.mpr ⟨fun waits => fresh (h.known call waits),h.once⟩,?_,?_⟩
      · intro k member
        rcases List.mem_cons.mp member with rfl | old
        · exact List.mem_cons_self
        · exact List.mem_cons_of_mem _ (h.known k old)
      · simp [clearOutputTensors]
  | body c =>
      simp only [step] at taken
      split at taken <;> try contradiction
      obtain ⟨r,ended,rfl⟩ := Option.map_eq_some_iff.mp taken
      have own := prepareRunOwn (c := c) s.entry
      have tensors : ∀ tensor ∈ r.frame.model.outputTensors,
          tensor ∈ s.model.outputTensors ∨ ∃ i, tensor.data = .output c.number i := by
        rcases bodyCases ended with ⟨left,_⟩ | ⟨_,left,_⟩ <;> rw [left] at own <;> exact own.2
      refine ⟨h.once.erase _,fun k member => h.known k (List.mem_of_mem_erase member),?_⟩
      intro tensor member call i same waits
      rcases tensors tensor member with old | ⟨j,mine⟩
      · exact h.passed tensor old call i same (List.mem_of_mem_erase waits)
      · rw [mine] at same
        cases same
        exact (List.Nodup.mem_erase_iff h.once).mp waits |>.1 rfl
  | userEvents manager =>
      cases taken
      exact ⟨h.once,h.known,h.passed⟩

theorem firstTensors {c : Call} {outputs : List TensorInfo} {before : List OrtValue}
    (size : (ownTensors (.output c.number) outputs).length = outputs.length)
    (other : ∀ tensor ∈ before, ∀ i, tensor.data ≠ .output c.number i) :
    (before ++ ownTensors (.output c.number) outputs).take outputs.length = ownTensors (.output c.number) outputs ↔
      (0 < outputs.length → before = []) := by
  constructor
  · intro same some
    cases before with
    | nil => rfl
    | cons tensor rest =>
        exfalso
        obtain ⟨n,size'⟩ := Nat.exists_eq_add_of_lt some
        rw [size',Nat.zero_add,List.cons_append,List.take_succ_cons] at same
        have member : tensor ∈ ownTensors (.output c.number) outputs := same ▸ List.mem_cons_self
        obtain ⟨i,mine⟩ := ownTensorsData member
        exact other tensor List.mem_cons_self i mine
  · intro empty
    by_cases some : 0 < outputs.length
    · rw [empty some,List.nil_append,← size,List.take_length]
    · have zero : outputs.length = 0 := by omega
      rw [zero,List.take_zero]
      exact (List.eq_nil_of_length_eq_zero (size.trans zero)).symm

theorem stepOwn {s next : Calls V} {a : Action V} (h : Stale s) (good : OwnBuffers s) (taken : step s a = some next) :
    OwnBuffers next ↔ EmptyAtRun s a := by
  cases a with
  | clear call =>
      simp only [step] at taken
      split at taken <;> try contradiction
      cases taken
      exact iff_of_true ⟨good.own,good.apart,good.filled⟩ trivial
  | userEvents manager =>
      cases taken
      exact iff_of_true ⟨good.own,good.apart,good.filled⟩ trivial
  | body c =>
      simp only [step] at taken
      split at taken <;> try contradiction
      rename_i waits
      obtain ⟨r,ended,rfl⟩ := Option.map_eq_some_iff.mp taken
      have info := prepareRunOwn (c := c) s.entry
      rcases bodyCases ended with ⟨left,fails,none⟩ | ⟨run,reached,some,call,tensors,size,outputs,exit⟩
      · rw [left] at info
        refine iff_of_true ⟨?_,?_,?_⟩ ?_
        · simpa [none,info.1] using good.own
        · simpa [none] using good.apart
        · intro ret member success
          rcases List.mem_append.mp member with old | new
          · simpa [none] using good.filled ret old success
          · rw [List.mem_singleton.mp new] at success
            exact absurd success fails
        · simp [EmptyAtRun,left,Flow.isProceed]
      · obtain ⟨same,count,pushed,allocated⟩ := prepareRunProceeds reached
        have guard : EmptyAtRun s (.body c) ↔ (0 < s.model.info.outputs.length → s.model.outputTensors = []) := by
          simp [EmptyAtRun,reached,Flow.isProceed]
        have other : ∀ tensor ∈ s.model.outputTensors, ∀ i, tensor.data ≠ .output c.number i :=
          fun tensor member i mine => h.passed tensor member c.number i mine waits
        have first := firstTensors count other
        rw [guard,← first,← pushed]
        rw [same] at size
        constructor
        · intro after
          have mine := (after.own run (by simp [some])).1
          rwa [tensors,size,call,same] at mine
        · intro mine
          have written : writtenBy run = run.outputs := by rw [writtenBy,tensors,size,mine,outputs,allocated]
          refine ⟨?_,?_,?_⟩
          · intro r' member
            rw [some] at member
            rcases List.mem_append.mp member with old | new
            · rw [same]
              exact good.own r' old
            · rw [List.mem_singleton.mp new,tensors,size,call,same]
              exact ⟨mine,written⟩
          · intro r' member buffer there
            rw [some] at member
            rcases List.mem_append.mp member with old | new
            · exact good.apart r' old buffer there
            · rw [List.mem_singleton.mp new] at there ⊢
              rw [written,outputs,allocated] at there
              obtain ⟨tensor,own,rfl⟩ := List.mem_map.mp there
              rw [call]
              exact ownTensorsData own
          · intro ret member success buffer there
            rw [some]
            rcases List.mem_append.mp member with old | new
            · obtain ⟨r',before,facts⟩ := good.filled ret old success buffer there
              exact ⟨r',List.mem_append_left _ before,facts⟩
            · rw [List.mem_singleton.mp new] at success there ⊢
              refine ⟨run,by simp,?_,call,by rwa [written,outputs]⟩
              simp only [exit] at success
              cases ok : run.isOk with
              | true => rfl
              | false => simp [ok,SUCCESS,TERMINAL_ERROR] at success

omit [∀ d, Scalar (V d)] in
theorem startStale {model : ONNXModel} (dummy : ∀ tensor ∈ model.outputTensors, ∃ i, tensor.data = .dummyOutput i)
    (manager : UserEventsManager V) : Stale (start model manager) := by
  refine ⟨List.nodup_nil,fun call member => absurd member List.not_mem_nil,fun tensor member call i same => ?_⟩
  obtain ⟨j,other⟩ := dummy tensor member
  rw [other] at same
  contradiction

omit [∀ d, Scalar (V d)] in
theorem startOwn (model : ONNXModel) (manager : UserEventsManager V) : OwnBuffers (start model manager) := by
  constructor <;> simp [start]

theorem ownBuffersIff {l : Loading} {modelId version : String} {info : ONNXModelInfo} {before manager : UserEventsManager V}
    {model : ONNXModel} (built : construct l modelId version info before = some (manager,some model))
    {actions : List (Action V)} {final : Calls V} (ok : run step (start model manager) actions = some final) :
    Always step OwnBuffers (start model manager) actions ↔ Guarded step EmptyAtRun (start model manager) actions :=
  alwaysIffGuarded (fun _ _ _ h good taken => ⟨stepStale h taken,stepOwn h good taken⟩) (startStale (constructed built).2.2 manager)
    (startOwn model manager) ok

section Scores

def scoreOutput : TensorInfo := ⟨"score",1,"",false,[1],1,.null,false⟩

def scoreInfo : ONNXModelInfo := ⟨[],[scoreOutput],[]⟩

def ready : Runtime := ⟨true,fun _ => true,fun _ _ => true⟩

def loading : Loading := ⟨ready,fun _ => ⟨fun _ _ _ => 0,fun _ _ => 0⟩,fun _ _ => ⟨[],true⟩⟩

def noTables : UserEventsManager IntValues := ⟨∅,∅⟩

def scoreModel : ONNXModel := ⟨"scores","1.0.0",scoreInfo,[],[⟨.dummyOutput 0,4,[1],1⟩],∅⟩

theorem scoreModelBuilt : construct loading "scores" "1.0.0" scoreInfo noTables = some (noTables,some scoreModel) := rfl

def scoreCall (number : Nat) : Call := ⟨number,0,[],fun _ => none,fun _ _ _ => 0,ready⟩

def oneByOne : List (Action IntValues) := [.clear 0,.body (scoreCall 0),.clear 1,.body (scoreCall 1)]

def overlapping : List (Action IntValues) := [.clear 0,.clear 1,.body (scoreCall 0),.body (scoreCall 1)]

theorem ownBuffersOneByOne : ∃ final, run step (start scoreModel noTables) oneByOne = some final ∧
    Always step OwnBuffers (start scoreModel noTables) oneByOne := by
  have guarded : Guarded step EmptyAtRun (start scoreModel noTables) oneByOne := by decide
  obtain ⟨final,ran⟩ : ∃ final, run step (start scoreModel noTables) oneByOne = some final := ⟨_,rfl⟩
  exact ⟨final,ran,(ownBuffersIff scoreModelBuilt ran).mpr guarded⟩

theorem overlappingCallsShareABuffer : ¬ ∀ (l : Loading) (modelId version : String) (info : ONNXModelInfo)
    (before manager : UserEventsManager IntValues) (model : ONNXModel) (actions : List (Action IntValues))
    (final : Calls IntValues), construct l modelId version info before = some (manager,some model) →
    run step (start model manager) actions = some final → Always step OwnBuffers (start model manager) actions := by
  intro claim
  obtain ⟨final,ran⟩ : ∃ final, run step (start scoreModel noTables) overlapping = some final := ⟨_,rfl⟩
  have always := claim loading "scores" "1.0.0" scoreInfo noTables noTables scoreModel overlapping final scoreModelBuilt ran
  have good : OwnBuffers final := alwaysEnd always ran
  have calls : (run step (start scoreModel noTables) overlapping).map
      (fun s => s.runCalls.map (fun r => (writtenBy r,r.outputs))) =
        some [([.output 0 0],[.output 0 0]),([.output 0 0],[.output 1 0])] := rfl
  simp only [ran,Option.map_some,Option.some.injEq] at calls
  obtain ⟨r,member,facts⟩ : ∃ r ∈ final.runCalls, (writtenBy r,r.outputs) = ([.output 0 0],[.output 1 0]) := by
    rw [← List.mem_map,calls]
    simp
  have own := (good.own r member).2
  simp only [Prod.mk.injEq] at facts
  rw [facts.1,facts.2] at own
  contradiction

end Scores
end NimbleNet.ConcurrentInference
