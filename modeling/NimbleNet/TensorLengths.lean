import NimbleNet.ONNXModel

/-! What check_input knows of a buffer: its type and a number of bytes, both as 32-bit
ints. The buffer itself has as many elements as its supplier says. -/
namespace NimbleNet.TensorLengths
open MachineNumbers ONNXModel

theorem wrap32Mul (x y : Int) : wrap32 (wrap32 x * y) = wrap32 (x * y) := Int.bmod_mul_bmod

theorem wrap32Same {x y : Int} : wrap32 x = wrap32 y ↔ (2 ^ 32 : Int) ∣ x - y := by
  unfold wrap32
  rw [Int.bmod_eq_bmod_iff_bmod_sub_eq_zero]
  constructor
  · intro zero
    have rest := @Int.dvd_self_sub_bmod (x - y) (2 ^ 32)
    rw [zero,sub_zero] at rest
    exact_mod_cast rest
  · intro divides
    exact Int.bmod_eq_zero_of_dvd (by exact_mod_cast divides)

theorem sizeOfShapeWraps (shape : List Int) : TensorInfo.sizeOfShape shape = wrap32 shape.prod := by
  have each : ∀ (rest : List Int) (n : Int),
      rest.foldl (fun size val => wrap32 (size * val)) (wrap32 n) = wrap32 (n * rest.prod) := by
    intro rest
    induction rest with
    | nil => simp
    | cons val rest ih =>
        intro n
        rw [List.foldl_cons,wrap32Mul,ih,List.prod_cons,mul_assoc]
  have all := each shape 1
  rwa [wrap32Exact (by norm_num) (by norm_num),one_mul] at all

theorem sizeRead {j : Json} {t : TensorInfo} (read : TensorInfo.fromJson j = some t) :
    t.size = TensorInfo.sizeOfShape t.shape := by
  simp only [TensorInfo.fromJson,bind,Option.bind_eq_some_iff] at read
  obtain ⟨_,_,name,_,_,_,dataType,_,rest⟩ := read
  split at rest
  · simp only [Option.bind_some,Option.bind_eq_some_iff] at rest
    obtain ⟨_,_,shape,_,last⟩ := rest
    cases last
    rfl
  · simp only [Option.bind_eq_some_iff] at rest
    obtain ⟨_,_,_,_,shape,_,last⟩ := rest
    cases last
    rfl

/- A buffer that get_inference wants to make the tensor of an input: an input of the request,
a feature, or the vector of a preprocessor. -/
inductive Supply where
  | client (given : UserInput)
  | feature (found : Feature)
  | preprocessed (elements : Int)

namespace Supply

def dataType (t : TensorInfo) : Supply → Int
  | client given => given.dataType
  | feature found => found.dataType
  | preprocessed _ => t.dataType

def bytes (t : TensorInfo) : Supply → Int
  | client given => given.length * getFieldSizeFromDataType given.dataType
  | feature found => found.byteLength
  | preprocessed elements => elements * getFieldSizeFromDataType t.dataType

def inputSizeBytes (t : TensorInfo) : Supply → Int
  | client given => wrap32 (given.length * getFieldSizeFromDataType given.dataType)
  | feature found => found.byteLength
  | preprocessed elements => wrap32 (elements * getFieldSizeFromDataType t.dataType)

def Fits : Supply → Prop
  | feature found => -2 ^ 31 ≤ found.byteLength ∧ found.byteLength < 2 ^ 31
  | _ => True

def accepted (g : Supply) (t : TensorInfo) : Bool := checkInput t (g.dataType t) (g.inputSizeBytes t)

def Holds (n : Int) : Supply → Prop
  | client given => given.length = n
  | feature found => found.byteLength = n * getFieldSizeFromDataType found.dataType
  | preprocessed elements => elements = n

structure Is (g : Supply) (t : TensorInfo) : Prop where
  dims : ∀ d ∈ t.shape, 0 ≤ d
  type : g.dataType t = t.dataType
  elements : g.Holds t.shape.prod

/- By how many bytes the tensor is larger than the buffer. -/
def gap (g : Supply) (t : TensorInfo) : Int := t.shape.prod * getFieldSizeFromDataType (g.dataType t) - g.bytes t

theorem inputSizeWraps {g : Supply} (fits : g.Fits) (t : TensorInfo) : g.inputSizeBytes t = wrap32 (g.bytes t) := by
  cases g with
  | client given => rfl
  | feature found => exact (wrap32Exact fits.1 fits.2).symm
  | preprocessed elements => rfl

theorem acceptedIff {g : Supply} {t : TensorInfo} (fits : g.Fits) (size : t.size = TensorInfo.sizeOfShape t.shape) :
    g.accepted t = true ↔ getFieldSizeFromDataType (g.dataType t) ≠ 0 ∧ g.dataType t = t.dataType ∧
      (2 ^ 32 : Int) ∣ g.gap t := by
  simp only [accepted,checkInput,Bool.and_eq_true,decide_eq_true_eq]
  rw [size,sizeOfShapeWraps,wrap32Mul,inputSizeWraps fits,wrap32Same,eq_comm (a := t.dataType)]
  exact ⟨fun ⟨⟨supported,close⟩,same⟩ => ⟨supported,same,close⟩,fun ⟨supported,same,close⟩ => ⟨⟨supported,close⟩,same⟩⟩

theorem holdsIffNoGap {g : Supply} {t : TensorInfo} (supported : getFieldSizeFromDataType (g.dataType t) ≠ 0) :
    g.Holds t.shape.prod ↔ g.gap t = 0 := by
  cases g with
  | client given =>
      simp only [dataType] at supported
      simp only [Holds,gap,bytes,dataType,← sub_mul,mul_eq_zero,supported,or_false,sub_eq_zero]
      exact eq_comm
  | feature found =>
      simp only [Holds,gap,bytes,dataType,sub_eq_zero]
      exact eq_comm
  | preprocessed elements =>
      simp only [dataType] at supported
      simp only [Holds,gap,bytes,dataType,← sub_mul,mul_eq_zero,supported,or_false,sub_eq_zero]
      exact eq_comm

end Supply

section GetInference
variable {V : ElementType → Type} (c : Call)

def supplied (t : TensorInfo) : Option (Supply × Buffer) :=
  if t.isFeature then
    (c.readFeature t.featureName).map (fun feature => (.feature feature,.feature c.number t.featureName))
  else (c.findInput t.name).map (fun found => (.client found.1,.client c.number found.2))

theorem fillInputSets (s : Frame V) (t : TensorInfo) (i : Nat) (mine : t.toPreprocess = false) :
    fillInput c s (t,i) =
      match supplied c t with
      | none => .leave s (.returned (if t.isFeature then RETRYABLE_ERROR else TERMINAL_ERROR))
      | some (g,data) => if g.accepted t then setInputTensor c s i t data else .leave s (.returned TERMINAL_ERROR) := by
  simp only [fillInput,supplied,mine,Bool.false_eq_true,if_false]
  cases feature : t.isFeature with
  | true =>
      simp only [if_true]
      cases c.readFeature t.featureName <;> rfl
  | false =>
      simp only [Bool.false_eq_true,if_false]
      cases c.findInput t.name <;> rfl

theorem preprocessInputSets [∀ d, Scalar (V d)] {rows : List (List (String × String))} {s s' : Frame V} {inputName : String}
    (ok : preprocessInput c rows s inputName = .proceed s') :
    ∃ (index : Nat) (t : TensorInfo) (manager : UserEventsManager V) (userInput : AnyModelInput V),
      s.model.info.inputs[index]? = some t ∧
      s.manager.getModelInput (c.clock s.preprocessorInputsToFill.length) (s.model.modelId ++ t.name) rows =
        some (manager,some userInput) ∧
      (Supply.preprocessed userInput.input.length).accepted t = true := by
  simp only [preprocessInput] at ok
  cases found : s.model.inputNamesToIdMap[inputName]? with
  | none => simp [found] at ok
  | some index =>
      simp only [found] at ok
      cases described : s.model.info.inputs[index]? with
      | none => simp [described] at ok
      | some t =>
          simp only [described] at ok
          split at ok
          · contradiction
          split at ok
          · contradiction
          · contradiction
          · rename_i manager userInput made
            split at ok
            · rename_i accepted
              exact ⟨index,t,manager,userInput,described,made,accepted⟩
            · contradiction

end GetInference

theorem acceptedIsIff (j : Json) (t : TensorInfo) (read : TensorInfo.fromJson j = some t) (g : Supply) (fits : g.Fits) :
    (g.accepted t = true → g.Is t) ↔
      getFieldSizeFromDataType (g.dataType t) = 0 ∨ g.dataType t ≠ t.dataType ∨ ¬ (2 ^ 32 : Int) ∣ g.gap t ∨
        (g.gap t = 0 ∧ ∀ d ∈ t.shape, 0 ≤ d) := by
  rw [Supply.acceptedIff fits (sizeRead read)]
  constructor
  · intro held
    by_cases supported : getFieldSizeFromDataType (g.dataType t) = 0
    · exact .inl supported
    by_cases same : g.dataType t = t.dataType
    · by_cases close : (2 ^ 32 : Int) ∣ g.gap t
      · have is := held ⟨supported,same,close⟩
        exact .inr (.inr (.inr ⟨(Supply.holdsIffNoGap supported).mp is.elements,is.dims⟩))
      · exact .inr (.inr (.inl close))
    · exact .inr (.inl same)
  · rintro condition ⟨supported,same,close⟩
    rcases condition with unsupported | apart | far | ⟨none,dims⟩
    · exact absurd unsupported supported
    · exact absurd same apart
    · exact absurd close far
    · exact ⟨dims,same,(Supply.holdsIffNoGap supported).mpr none⟩

def imageJson (shape : List Int) : Json :=
  .object [("name",.string "image"),("dataType",.integer 1),("shape",.array (shape.map .integer))]

def image (shape : List Int) : TensorInfo :=
  ⟨"image",1,"",false,shape,TensorInfo.sizeOfShape shape,.null,false⟩

def floats (length : Int) : Supply := .client ⟨"image",1,length,[]⟩

theorem acceptedSquare : (floats 9).accepted (image [3,3]) = true ∧ (floats 9).Is (image [3,3]) := by
  have read : TensorInfo.fromJson (imageJson [3,3]) = some (image [3,3]) := by rfl
  have accepted : (floats 9).accepted (image [3,3]) = true := by decide
  exact ⟨accepted,(acceptedIsIff (imageJson [3,3]) (image [3,3]) read (floats 9) trivial).mpr
    (.inr (.inr (.inr ⟨by decide,by decide⟩))) accepted⟩

theorem nothingAccepted : ¬ ∀ (j : Json) (t : TensorInfo) (g : Supply), TensorInfo.fromJson j = some t → g.Fits →
    g.accepted t = true → g.Is t := by
  intro claim
  have read : TensorInfo.fromJson (imageJson [65536,65536]) = some (image [65536,65536]) := by rfl
  have elements : (0 : Int) = [65536,65536].prod := (claim _ _ (floats 0) read trivial (by decide)).elements
  exact absurd elements (by decide)

end NimbleNet.TensorLengths
