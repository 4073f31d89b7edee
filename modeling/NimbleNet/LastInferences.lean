import NimbleNet.ONNXExecutor
import NimbleNet.RingBuffer

/-! What get_inputs_for_inferId answers after any calls of add_input_for_inferId. The
scan goes by storage order and takes the first slot with the id, so of two saved
inferences with one id the older may be returned, and the empty id also finds a
slot that was never written. -/
namespace NimbleNet.LastInferences
open MachineNumbers ONNXExecutor RingBuffer

variable {V : ElementType → Type}

def maxInputsToSave (config : Json) : Option Int :=
  match config.find? "maxInputsToSave" with
  | none => some 0
  | some value => value.getInt32

/- The constructor of the database: a negative size is a length_error. -/
def openDatabase (config : Json) : Option (InferenceInputsDatabase V) := do
  let maxInferencesSaved ← maxInputsToSave config
  if 0 ≤ maxInferencesSaved then some (.new maxInferencesSaved.toNat) else none

abbrev Saved (V : ElementType → Type) := String × List (ONNXPreProcessorInput V)

def addAll (db : InferenceInputsDatabase V) (adds : List (Saved V)) : InferenceInputsDatabase V :=
  adds.foldl (fun db add => db.addInputForInferId add.1 add.2) db

def withRing (r : Slots (Saved V)) : InferenceInputsDatabase V :=
  ⟨r.slots.map Prod.snd,r.slots.map Prod.fst,r.next,r.slots.length⟩

section Ring
variable {size : Nat}

theorem newBlank : InferenceInputsDatabase.new size = withRing (V := V) (.blank size ("",[])) := by
  simp [InferenceInputsDatabase.new,withRing,Slots.blank]

theorem addWrites {r : Slots (Saved V)} (some : 0 < r.slots.length) (add : Saved V) :
    (withRing r).addInputForInferId add.1 add.2 = withRing (r.write add) := by
  simp [InferenceInputsDatabase.addInputForInferId,withRing,Slots.write,some.ne',List.map_set]

theorem addAllWrites (adds : List (Saved V)) {r : Slots (Saved V)} (some : 0 < r.slots.length) :
    addAll (withRing r) adds = withRing (adds.foldl Slots.write r) := by
  induction adds generalizing r with
  | nil => rfl
  | cons add rest ih =>
      rw [addAll,List.foldl_cons,addWrites some]
      exact ih (by simpa [Slots.write] using some)

theorem addAllOff (adds : List (Saved V)) : addAll (.new 0) adds = (.new 0 : InferenceInputsDatabase V) := by
  induction adds with
  | nil => rfl
  | cons add rest ih => exact ih

theorem addAllSlots (some : 0 < size) (adds : List (Saved V)) : addAll (.new size) adds =
    withRing ⟨stored size adds ++ List.replicate (size - adds.length) ("",[]),adds.length % size⟩ := by
  rw [newBlank,addAllWrites adds (by simpa [Slots.blank] using some),ringSlots some]

end Ring

section Lookup
variable (s : ONNXExecutor V)

def copyOf (entry : ONNXPreProcessorInput V) : Option (SavedInput V) :=
  match s.tensorInfo entry.tensorInfoPtr with
  | none => none
  | some t =>
      let fieldSize := ONNXModel.getFieldSizeFromDataType t.dataType
      let bytes := wrap32 (t.size * fieldSize)
      if fieldSize ≠ 0 ∧ 0 ≤ bytes ∧ bytes ≤ entry.modelInput.input.data.length * sizeOfElement entry.modelInput.elementType then
        some ⟨t.name,t.dataType,t.shape.map wrap32,t.size,entry.modelInput,bytes⟩
      else none

variable {s}

theorem populateInputCopies {saved next : List (SavedInput V)} {entry : ONNXPreProcessorInput V} :
    s.populateInput saved entry = .proceed next ↔ ∃ copy, copyOf s entry = some copy ∧ next = saved ++ [copy] := by
  unfold populateInput copyOf
  cases s.tensorInfo entry.tensorInfoPtr with
  | none => simp
  | some t =>
      simp only
      split
      · rename_i unsupported
        simp [unsupported]
      · rename_i supported
        split
        · rename_i readable
          simp [supported,readable,eq_comm]
        · rename_i unreadable
          simp [supported,unreadable]

theorem loopCopies {entries : List (ONNXPreProcessorInput V)} {saved all : List (SavedInput V)} :
    Flow.loop s.populateInput saved entries = .proceed all ↔
      ∃ copies, entries.mapM (copyOf s) = some copies ∧ all = saved ++ copies := by
  induction entries generalizing saved with
  | nil => simp [Flow.loop,eq_comm]
  | cons entry rest ih =>
      have each : Flow.loop s.populateInput saved (entry :: rest) = .proceed all ↔
          ∃ next, s.populateInput saved entry = .proceed next ∧ Flow.loop s.populateInput next rest = .proceed all := by
        rw [Flow.loop]
        cases s.populateInput saved entry <;> simp [Flow.andThen]
      rw [each]
      simp only [populateInputCopies,ih,List.mapM_cons,bind,Option.bind_eq_some_iff]
      constructor
      · rintro ⟨_,⟨copy,here,rfl⟩,copies,others,rfl⟩
        exact ⟨copy :: copies,⟨copy,here,copies,others,rfl⟩,by simp⟩
      · rintro ⟨_,⟨copy,here,copies,others,last⟩,rfl⟩
        cases last
        exact ⟨_,⟨copy,here,rfl⟩,copies,others,by simp⟩

theorem populateReturns {entries : List (ONNXPreProcessorInput V)} {copies : List (SavedInput V)} :
    s.populateReturn entries = some (copies,true) ↔ entries.mapM (copyOf s) = some copies := by
  have looped : s.populateReturn entries = some (copies,true) ↔
      Flow.loop s.populateInput [] entries = .proceed copies := by
    unfold populateReturn
    cases Flow.loop s.populateInput [] entries <;> simp
  rw [looped,loopCopies]
  simp

theorem scanSlots {r : Slots (Saved V)} (ring : s.inferenceDataBase = withRing r) (inferId : String) :
    s.getInputsForInferId inferId =
      match r.slots.find? (fun add => add.1 == inferId) with
      | none => some ([],false)
      | some add => s.populateReturn add.2 := by
  rw [getInputsForInferId,ring,withRing]
  simp only
  induction r.slots with
  | nil => rfl
  | cons add rest ih =>
      simp only [List.map_cons,List.idxOf?_cons,List.find?_cons]
      cases add.1 == inferId with
      | true => simp
      | false =>
          simp only
          rw [← ih]
          cases (rest.map Prod.fst).idxOf? inferId <;> simp

variable (s)

def mostRecent (latest : List (Saved V)) (inferId : String) : Option (List (ONNXPreProcessorInput V)) :=
  (latest.reverse.find? (fun add => add.1 == inferId)).map Prod.snd

def lowest (stored : List (Saved V)) (inferId : String) : Option (List (ONNXPreProcessorInput V)) :=
  (stored.find? (fun add => add.1 == inferId)).map Prod.snd

def Answers (size : Nat) (adds : List (Saved V)) (inferId : String) : Prop :=
  match mostRecent (latest size adds) inferId with
  | none => s.getInputsForInferId inferId = some ([],false)
  | some inputs => ∃ copies, inputs.mapM (copyOf s) = some copies ∧ s.getInputsForInferId inferId = some (copies,true)

/- The condition: an id among the last adds has inputs that can be read, and the add in
the lowest slot has the same ones; an id that is not among them is not the one of the
slots that were never written. -/
def Unambiguous (size : Nat) (adds : List (Saved V)) (inferId : String) : Prop :=
  match mostRecent (latest size adds) inferId with
  | none => inferId = "" → size ≤ adds.length
  | some inputs => (inputs.mapM (copyOf s)).isSome = true ∧
      ∀ first ∈ lowest (stored size adds) inferId, first.mapM (copyOf s) = inputs.mapM (copyOf s)

variable {s} {size : Nat} {adds : List (Saved V)} {inferId : String}

theorem scanAll (some : 0 < size) (ring : s.inferenceDataBase = addAll (.new size) adds) :
    s.getInputsForInferId inferId = match lowest (stored size adds) inferId with
      | none => .some ([],decide (inferId = "" ∧ adds.length < size))
      | .some inputs => s.populateReturn inputs := by
  rw [scanSlots (ring.trans (addAllSlots some adds)),lowest,List.find?_append]
  cases (stored size adds).find? (fun add => add.1 == inferId) with
  | some add => rfl
  | none =>
      simp only [Option.none_or,Option.map_none]
      cases free : size - adds.length with
      | zero => simp [show ¬ adds.length < size by omega]
      | succ n =>
          rw [List.replicate_succ,List.find?_cons]
          by_cases empty : "" = inferId
          · subst empty
            simp [populateReturn,Flow.loop,show adds.length < size by omega]
          · have unlike : ("" == inferId) = false := beq_false_of_ne empty
            simp only [unlike]
            simp [show inferId ≠ "" from fun h => empty h.symm]

theorem sameIds (some : 0 < size) :
    (mostRecent (latest size adds) inferId).isSome = (lowest (stored size adds) inferId).isSome := by
  rw [mostRecent,lowest,Option.isSome_map,Option.isSome_map,Bool.eq_iff_iff,List.find?_isSome,List.find?_isSome]
  simp only [List.mem_reverse,memStored some]

theorem answersRing (some : 0 < size) (ring : s.inferenceDataBase = addAll (.new size) adds) :
    Answers s size adds inferId ↔ Unambiguous s size adds inferId := by
  have same : (mostRecent (latest size adds) inferId).isSome = (lowest (stored size adds) inferId).isSome :=
    sameIds some
  rw [Answers,Unambiguous,scanAll some ring]
  cases recent : mostRecent (latest size adds) inferId with
  | none =>
      rw [recent,Option.isSome_none,eq_comm,Option.isSome_eq_false_iff,Option.isNone_iff_eq_none] at same
      simp [same]
  | some inputs =>
      rw [recent,Option.isSome_some,eq_comm,Option.isSome_iff_exists] at same
      obtain ⟨first,found⟩ := same
      simp only [found,populateReturns,Option.mem_some_iff,forall_eq',Option.isSome_iff_exists]
      constructor
      · rintro ⟨copies,mine,others⟩
        exact ⟨⟨copies,mine⟩,others.trans mine.symm⟩
      · rintro ⟨⟨copies,mine⟩,others⟩
        exact ⟨copies,mine,others.trans mine⟩

theorem answersOff (ring : s.inferenceDataBase = addAll (.new 0) adds) : Answers s 0 adds inferId := by
  have none : latest 0 adds = [] := by simp [latest]
  rw [Answers,none]
  have off : s.getInputsForInferId inferId = some ([],false) := by
    rw [getInputsForInferId,ring,addAllOff]
    rfl
  simp [mostRecent,off]

theorem answersIff {config : Json} {db : InferenceInputsDatabase V} (opened : openDatabase config = some db)
    (ring : s.inferenceDataBase = addAll db adds) :
    Answers s db.maxInferencesSaved adds inferId ↔ Unambiguous s db.maxInferencesSaved adds inferId := by
  simp only [openDatabase,bind,Option.bind_eq_some_iff] at opened
  obtain ⟨n,_,opened⟩ := opened
  split at opened <;> try contradiction
  cases opened
  rcases Nat.eq_zero_or_pos n.toNat with zero | some
  · rw [zero] at ring ⊢
    refine iff_of_true (answersOff ring) ?_
    simp [Unambiguous,InferenceInputsDatabase.new,latest,mostRecent]
  · exact answersRing some ring

end Lookup

section Ranker

def twoSaved : Json := .object [("maxInputsToSave",.integer 2)]

def ranker : ONNXModel :=
  ⟨"ranker","1.0.0",⟨[⟨"totals",6,"",false,[1,1],1,.null,true⟩],[],[]⟩,[],[],∅⟩

def totalSaved (inference : String × Int) : Saved IntValues :=
  (inference.1,[⟨⟨.int32,⟨[inference.2],1⟩⟩,⟨0,0⟩⟩])

def rankerAfter (db : InferenceInputsDatabase IntValues) (inferences : List (String × Int)) : ONNXExecutor IntValues :=
  ⟨.ofList [("ranker",0)],[some ranker],addAll db (inferences.map totalSaved),⟨∅,∅⟩⟩

def totals (saved : List (SavedInput IntValues)) : List Int :=
  saved.flatMap (fun s => match s.modelInput with
    | ⟨.int32,input⟩ => input.data
    | _ => [])

theorem twoOpened : openDatabase twoSaved = some (.new 2 : InferenceInputsDatabase IntValues) := rfl

def threeUsers : List (String × Int) := [("ann",3),("bob",5),("eve",8)]

theorem answersBob : Answers (rankerAfter (.new 2) threeUsers) 2 (threeUsers.map totalSaved) "bob" := by
  refine (answersIff twoOpened rfl).mpr ⟨?_,?_⟩
  · decide +kernel
  · intro first found
    cases found
    rfl

/- Two inferences with one id: the inputs of the older one are returned. -/
theorem olderInputsReturned : ¬ ∀ (config : Json) (db : InferenceInputsDatabase IntValues) (s : ONNXExecutor IntValues)
    (adds : List (Saved IntValues)) (inferId : String), openDatabase config = some db →
      s.inferenceDataBase = addAll db adds → Answers s db.maxInferencesSaved adds inferId := by
  intro claim
  have answers := claim twoSaved (.new 2) (rankerAfter (.new 2) [("ann",3),("ann",5)])
    ([("ann",3),("ann",5)].map totalSaved) "ann" twoOpened rfl
  obtain ⟨copies,newest,returned⟩ := answers
  have five : totals copies = [5] := by
    have read : ((totalSaved ("ann",5)).2.mapM (copyOf (rankerAfter (.new 2) [("ann",3),("ann",5)]))).map totals =
        some [5] := by decide +kernel
    exact Option.some.inj ((congrArg (Option.map totals) newest).symm.trans read)
  have three : ((rankerAfter (.new 2) [("ann",3),("ann",5)]).getInputsForInferId "ann").map (fun r => totals r.1) =
      some [3] := by decide +kernel
  rw [returned,Option.map_some,five] at three
  contradiction

example : ((rankerAfter (.new 2) [("ann",3)]).getInputsForInferId "").map Prod.snd = some true := by decide +kernel

end Ranker
end NimbleNet.LastInferences
