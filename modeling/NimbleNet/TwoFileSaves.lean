import NimbleNet.OrderedMap
import NimbleNet.ResourceManager

/-! Saves that write two files, cut off by a crash. What is read back afterwards may
mix the two saves: a plan is checked by its length alone, and a feature vector by
nothing. -/
namespace NimbleNet.TwoFileSaves
open Device MachineNumbers OrderedMap

/- What a crash leaves of a list of writes: the first `k` in full, and of the next one
nothing or the bytes before the cut. -/
def crashed (device : Device) (writes : List (String × Bytes)) (k : Nat) (cut : Option Nat) : Device :=
  let written := (writes.take k).foldl (fun device w => device.saveFileOnDevice w.2 w.1) device
  match cut,writes[k]? with
  | some n,some w => written.saveFileOnDevice (w.2.take n) w.1
  | _,_ => written

section Two
variable {device : Device} {a b : String} {x y : Bytes}

theorem savedElsewhere (apart : b ≠ a) : (device.saveFileOnDevice x a)[b]? = device[b]? := insertOther apart

theorem savedHere : (device.saveFileOnDevice x a)[a]? = some x := Std.ExtTreeMap.getElem?_insert_self

theorem crashedTwo (apart : a ≠ b) {k : Nat} {cut : Option Nat} {left : Device}
    (crash : left = crashed device [(a,x),(b,y)] k cut) :
    (left[a]? = device[a]? ∧ left[b]? = device[b]?) ∨
    (∃ n, left[a]? = some (x.take n) ∧ left[b]? = device[b]?) ∨
    ∃ n, left[a]? = some x ∧ left[b]? = some (y.take n) := by
  subst crash
  match k,cut with
  | 0,none => exact .inl ⟨rfl,rfl⟩
  | 0,some n => exact .inr (.inl ⟨n,savedHere,savedElsewhere apart.symm⟩)
  | 1,none => exact .inr (.inl ⟨x.length,by rw [List.take_length]; exact savedHere,savedElsewhere apart.symm⟩)
  | 1,some n => exact .inr (.inr ⟨n,(savedElsewhere apart).trans savedHere,savedHere⟩)
  | k + 2,cut =>
      have done : crashed device [(a,x),(b,y)] (k + 2) cut =
          (device.saveFileOnDevice x a).saveFileOnDevice y b := by
        cases cut <;> simp [crashed]
      refine .inr (.inr ⟨y.length,?_,?_⟩)
      · rw [done,savedElsewhere apart,savedHere]
      · rw [done,savedHere,List.take_length]

end Two

/- What the JSON library does with a record: the text reads back as a document with the
same members, and no shorter piece of it is a document. -/
structure Prints (text : JsonText) (j : Json) : Prop where
  reads : ∃ j', text.parse (text.dump j) = some j' ∧ ∀ key, j'.find? key = j.find? key
  cut : ∀ n < (text.dump j).length, text.parse ((text.dump j).take n) = none
  something : text.dump j ≠ []

variable (text : JsonText)

section Plan

def planOf (version extras : String) (plan : Bytes) : PlanData := ⟨false,version,plan,extras,wrap32 plan.length⟩

def planWrites (modelId : String) (planData : PlanData) : List (String × Bytes) :=
  [(modelId ++ INFERENCEMETADATAFILENAME,text.dump planData.toJson),(modelId ++ INFERENCEFILENAME,planData.plan)]

def acceptedPlan (device : Device) (modelId : String) : Option PlanData :=
  let planData := device.getInferencePlanDataFromDevice text modelId
  if planData.valid then some planData else none

def PlanAllOrNothing (device : Device) (modelId : String) (new : PlanData) : Prop :=
  (∀ k cut p, acceptedPlan text (crashed device (planWrites text modelId new) k cut) modelId = some p →
    acceptedPlan text device modelId = some p ∨ p = {new with valid := true}) ∧
  acceptedPlan text (device.saveInferencePlanDataOnDevice text modelId new) modelId = some {new with valid := true}

/- The length of the plan fits an int, there is no empty plan file, and a plan file of
the same length has the same bytes or belongs to the same version and extras. -/
structure PlanSafe (device : Device) (modelId version extras : String) (plan : Bytes) : Prop where
  fits : toSizeT (wrap32 plan.length) = plan.length
  filled : device[modelId ++ INFERENCEFILENAME]? = some [] →
    acceptedPlan text device modelId = some ⟨true,"",[],"",0⟩ ∨ (version = "" ∧ extras = "" ∧ plan = [])
  apart : ∀ old ∈ device[modelId ++ INFERENCEFILENAME]?, old.length = plan.length →
    old = plan ∨ acceptedPlan text device modelId = some ⟨true,version,old,extras,wrap32 plan.length⟩

def acceptFiles (metadata plan : Bytes) : Option PlanData :=
  let planData := ((text.parse metadata).bind PlanData.fromJson).getD .empty
  if toSizeT planData.planLength = plan.length then some {planData with plan := plan, valid := true} else none

variable {text} {device : Device} {modelId version extras : String} {plan old : Bytes}

theorem readPlanValid (metadata : Bytes) : (((text.parse metadata).bind PlanData.fromJson).getD .empty).valid = false := by
  cases read : (text.parse metadata).bind PlanData.fromJson with
  | none => rfl
  | some planData =>
      obtain ⟨j,_,made⟩ := Option.bind_eq_some_iff.mp read
      simp only [PlanData.fromJson,bind,Option.bind_eq_some_iff] at made
      obtain ⟨_,_,_,_,_,_,_,_,_,_,_,_,made⟩ := made
      cases made
      rfl

theorem acceptedOfFiles (device : Device) (modelId : String) : acceptedPlan text device modelId =
    device[modelId ++ INFERENCEMETADATAFILENAME]?.bind (fun metadata =>
      device[modelId ++ INFERENCEFILENAME]?.bind (fun plan => acceptFiles text metadata plan)) := by
  unfold acceptedPlan getInferencePlanDataFromDevice getFileFromDevice
  cases device[modelId ++ INFERENCEMETADATAFILENAME]? with
  | none => rfl
  | some metadata =>
      cases device[modelId ++ INFERENCEFILENAME]? with
      | none => simp [readPlanValid]
      | some plan =>
          simp only [Option.bind_some,acceptFiles,decide_eq_true_eq]
          split
          · rename_i fits
            simp only [fits,decide_true]
          · rfl

theorem acceptNew (prints : Prints text (planOf version extras plan).toJson) (old : Bytes) :
    acceptFiles text (text.dump (planOf version extras plan).toJson) old =
      if toSizeT (wrap32 plan.length) = old.length then some ⟨true,version,old,extras,wrap32 plan.length⟩ else none := by
  obtain ⟨j,parsed,same⟩ := prints.reads
  have range := wrap32Range plan.length
  have twice : wrap32 (wrap32 plan.length) = wrap32 plan.length := wrap32Exact range.1 range.2
  have read : PlanData.fromJson j = some ⟨false,version,[],extras,wrap32 plan.length⟩ := by
    simp only [PlanData.fromJson,same]
    simp [planOf,PlanData.toJson,Json.find?,List.lookup,Json.getString,Json.getInt32,Json.getNumber,twice]
  simp only [acceptFiles,parsed,Option.bind_some,read,Option.getD_some]

theorem acceptCut (prints : Prints text (planOf version extras plan).toJson) {n : Nat}
    (short : n < (text.dump (planOf version extras plan).toJson).length) (old : Bytes) :
    acceptFiles text ((text.dump (planOf version extras plan).toJson).take n) old =
      if old = [] then some ⟨true,"",[],"",0⟩ else none := by
  simp only [acceptFiles,prints.cut n short,Option.bind_none,Option.getD_none,PlanData.empty]
  by_cases empty : old = []
  · simp [empty,toSizeT]
  · have : toSizeT 0 ≠ old.length := by
      simpa [toSizeT,eq_comm] using empty
    rw [if_neg this,if_neg empty]

theorem planFilesApart : modelId ++ INFERENCEMETADATAFILENAME ≠ modelId ++ INFERENCEFILENAME := by
  simp [INFERENCEMETADATAFILENAME,INFERENCEFILENAME]

theorem acceptedAfter {device' : Device} {metadata : Bytes}
    (first : device'[modelId ++ INFERENCEMETADATAFILENAME]? = some metadata)
    (second : device'[modelId ++ INFERENCEFILENAME]? = some old) :
    acceptedPlan text device' modelId = acceptFiles text metadata old := by
  rw [acceptedOfFiles,first,second]
  rfl

theorem planSaved (device : Device) : device.saveInferencePlanDataOnDevice text modelId (planOf version extras plan) =
    crashed device (planWrites text modelId (planOf version extras plan)) 2 none := rfl

theorem savedPlan (device : Device) :
    acceptedPlan text (device.saveInferencePlanDataOnDevice text modelId (planOf version extras plan)) modelId =
      acceptFiles text (text.dump (planOf version extras plan).toJson) plan :=
  acceptedAfter ((savedElsewhere planFilesApart).trans savedHere) savedHere

theorem cutPlan {old : Bytes} (file : device[modelId ++ INFERENCEFILENAME]? = some old) (n : Nat) :
    acceptedPlan text (crashed device (planWrites text modelId (planOf version extras plan)) 0 (some n)) modelId =
      acceptFiles text ((text.dump (planOf version extras plan).toJson).take n) old :=
  acceptedAfter savedHere ((savedElsewhere planFilesApart.symm).trans file)

theorem crashedPlan {k : Nat} {cut : Option Nat} {p : PlanData}
    (accepted : acceptedPlan text (crashed device (planWrites text modelId (planOf version extras plan)) k cut) modelId =
      some p) :
    acceptedPlan text device modelId = some p ∨
    (∃ n old, device[modelId ++ INFERENCEFILENAME]? = some old ∧
      acceptFiles text ((text.dump (planOf version extras plan).toJson).take n) old = some p) ∨
    ∃ n, acceptFiles text (text.dump (planOf version extras plan).toJson) (plan.take n) = some p := by
  generalize crash : crashed device (planWrites text modelId (planOf version extras plan)) k cut = left at accepted
  rcases crashedTwo planFilesApart crash.symm with ⟨first,second⟩ | ⟨n,first,second⟩ | ⟨n,first,second⟩
  · refine .inl ?_
    rw [acceptedOfFiles] at accepted ⊢
    rw [← first,← second]
    exact accepted
  · cases file : device[modelId ++ INFERENCEFILENAME]? with
    | none =>
        rw [acceptedOfFiles,first,second,file] at accepted
        contradiction
    | some old => exact .inr (.inl ⟨n,old,rfl,(acceptedAfter first (second.trans file)).symm.trans accepted⟩)
  · exact .inr (.inr ⟨n,(acceptedAfter first second).symm.trans accepted⟩)

theorem acceptedNew (prints : Prints text (planOf version extras plan).toJson) {p : PlanData}
    (read : acceptFiles text (text.dump (planOf version extras plan).toJson) old = some p) :
    toSizeT (wrap32 plan.length) = old.length ∧ p = ⟨true,version,old,extras,wrap32 plan.length⟩ := by
  rw [acceptNew prints] at read
  split at read
  · rename_i fits
    cases read
    exact ⟨fits,rfl⟩
  · cases read

theorem planIff (prints : Prints text (planOf version extras plan).toJson) :
    PlanAllOrNothing text device modelId (planOf version extras plan) ↔
      PlanSafe text device modelId version extras plan := by
  constructor
  · rintro ⟨whole,complete⟩
    rw [savedPlan] at complete
    have fits := (acceptedNew prints complete).1
    refine ⟨fits,fun empty => ?_,fun old member sizes => ?_⟩
    · have read := @cutPlan text device modelId version extras plan [] empty 0
      rw [acceptCut prints (List.length_pos_iff.mpr prints.something),if_pos rfl] at read
      rcases whole 0 (some 0) _ read with before | new
      · exact .inl before
      · simp only [planOf,PlanData.mk.injEq] at new
        exact .inr ⟨new.2.1.symm,new.2.2.2.1.symm,new.2.2.1.symm⟩
    · have read := @cutPlan text device modelId version extras plan old member
        (text.dump (planOf version extras plan).toJson).length
      rw [List.take_length,acceptNew prints,if_pos (by rw [sizes,fits])] at read
      rcases whole 0 (some _) _ read with before | new
      · exact .inr before
      · simp only [planOf,PlanData.mk.injEq] at new
        exact .inl new.2.2.1
  · intro safe
    refine ⟨fun k cut p accepted => ?_,?_⟩
    · rcases crashedPlan accepted with before | ⟨n,old,file,read⟩ | ⟨n,read⟩
      · exact .inl before
      · by_cases short : n < (text.dump (planOf version extras plan).toJson).length
        · rw [acceptCut prints short] at read
          split at read
          · rename_i empty
            subst empty
            cases read
            rcases safe.filled file with before | ⟨rfl,rfl,rfl⟩
            · exact .inl before
            · exact .inr rfl
          · cases read
        · rw [List.take_of_length_le (not_lt.mp short)] at read
          obtain ⟨announced,rfl⟩ := acceptedNew prints read
          have sizes : old.length = plan.length := Int.ofNat.inj (announced.symm.trans safe.fits)
          rcases safe.apart old file sizes with rfl | before
          · exact .inr (by simp only [planOf])
          · exact .inl before
      · obtain ⟨announced,rfl⟩ := acceptedNew prints read
        have sizes : (plan.take n).length = plan.length := Int.ofNat.inj (announced.symm.trans safe.fits)
        have all : plan.take n = plan := List.IsPrefix.eq_of_length (List.take_prefix n plan) sizes
        exact .inr (by simp only [all,planOf])
    · rw [savedPlan,acceptNew prints,if_pos safe.fits]
      simp only [planOf]

end Plan

section Feature

structure FeatureFields where
  version : String
  dataType : Int
  expiry : Int
  dataTypeFits : -2 ^ 31 ≤ dataType ∧ dataType < 2 ^ 31
  expiryFits : 0 ≤ expiry ∧ expiry < 2 ^ 64

def FeatureFields.with (fields : FeatureFields) (feature : Bytes) : FeatureData :=
  ⟨true,feature,wrap32 feature.length,fields.version,fields.dataType,fields.expiry⟩

def FeatureFields.areOf (fields : FeatureFields) (f : FeatureData) : Prop :=
  f.version = fields.version ∧ f.dataType = fields.dataType ∧ f.expiry = fields.expiry

def featureWrites (featureName : String) (f : FeatureData) : List (String × Bytes) :=
  [(featureName ++ FEATURESTOREFILENAME,f.feature),(featureName ++ FEATURESTOREMETADATAFILENAME,text.dump f.toJson)]

variable (now : Int)

def acceptedFeature (device : Device) (featureName : String) : Option FeatureData :=
  let f := device.getFeatureDataFromDevice text now featureName
  if f.valid then some f else none

def FeatureAllOrNothing (device : Device) (featureName : String) (new : FeatureData) : Prop :=
  (∀ k cut f, acceptedFeature text now (crashed device (featureWrites text featureName new) k cut) featureName = some f →
    acceptedFeature text now device featureName = some f ∨ f = new) ∧
  (now ≤ new.expiry →
    acceptedFeature text now (device.saveFeatureDataOnDevice text featureName new) featureName = some new)

def readFeature (metadata : Bytes) : Option FeatureData :=
  ((text.parse metadata).bind FeatureData.fromJson).bind (fun f => if f.expiry < now then none else some f)

/- No metadata is good any more; or the vector has no byte, or one where the old has
none, and the metadata or the old vector stays what it was. -/
def FeatureSafe (device : Device) (featureName : String) (fields : FeatureFields) (feature : Bytes) : Prop :=
  ∀ metadata ∈ device[featureName ++ FEATURESTOREMETADATAFILENAME]?, ∀ f ∈ readFeature text now metadata,
    (feature = [] ∧ (device[featureName ++ FEATURESTOREFILENAME]? = some [] ∨ fields.areOf f)) ∨
    (feature.length = 1 ∧ device[featureName ++ FEATURESTOREFILENAME]? = some [] ∧ fields.areOf f)

def withVector (f : FeatureData) (vector : Bytes) : FeatureData :=
  {f with feature := vector, featureLength := wrap32 vector.length}

variable {text now} {device : Device} {featureName : String} {fields : FeatureFields} {feature : Bytes}

theorem fromJsonValid {j : Json} {f : FeatureData} (made : FeatureData.fromJson j = some f) : f.valid = true := by
  simp only [FeatureData.fromJson,bind,Option.bind_eq_some_iff] at made
  obtain ⟨_,_,_,_,_,_,_,_,_,_,_,_,_,_,_,_,made⟩ := made
  cases made
  rfl

theorem acceptedFeatureFiles (device : Device) (featureName : String) : acceptedFeature text now device featureName =
    device[featureName ++ FEATURESTOREMETADATAFILENAME]?.bind (fun metadata =>
      (readFeature text now metadata).bind (fun f =>
        device[featureName ++ FEATURESTOREFILENAME]?.map (withVector f))) := by
  unfold acceptedFeature getFeatureDataFromDevice getFileFromDevice readFeature
  cases device[featureName ++ FEATURESTOREMETADATAFILENAME]? with
  | none => rfl
  | some metadata =>
      simp only [Option.bind_some]
      cases read : (text.parse metadata).bind FeatureData.fromJson with
      | none => rfl
      | some f =>
          obtain ⟨j,_,made⟩ := Option.bind_eq_some_iff.mp read
          have valid := fromJsonValid made
          simp only [Option.getD_some,valid,Bool.not_true,Bool.false_eq_true,if_false,Option.bind_some]
          by_cases late : f.expiry < now
          · simp [late,FeatureData.empty]
          · simp only [late,if_false,Option.bind_some]
            cases device[featureName ++ FEATURESTOREFILENAME]? with
            | none => rfl
            | some vector => simp [withVector,valid]

theorem featureFilesApart : featureName ++ FEATURESTOREFILENAME ≠ featureName ++ FEATURESTOREMETADATAFILENAME := by
  simp [FEATURESTOREFILENAME,FEATURESTOREMETADATAFILENAME]

theorem readValid {metadata : Bytes} {f : FeatureData} (read : readFeature text now metadata = some f) : f.valid = true := by
  obtain ⟨f',made,kept⟩ := Option.bind_eq_some_iff.mp read
  obtain ⟨j,_,made⟩ := Option.bind_eq_some_iff.mp made
  split at kept
  · cases kept
  · cases kept
    exact fromJsonValid made

theorem withVectorOf {f : FeatureData} (valid : f.valid = true) (same : fields.areOf f) (vector : Bytes) :
    withVector f vector = fields.with vector := by
  obtain ⟨version,dataType,expiry⟩ := same
  simp only [withVector,FeatureFields.with,valid,version,dataType,expiry]

theorem withVectorNew {f : FeatureData} {vector : Bytes} (new : withVector f vector = fields.with feature) :
    vector = feature ∧ fields.areOf f := by
  simp only [withVector,FeatureFields.with,FeatureData.mk.injEq] at new
  exact ⟨new.2.1,new.2.2.2⟩

theorem readNew (prints : Prints text (fields.with feature).toJson) : ∃ f, f.valid = true ∧ fields.areOf f ∧
    readFeature text now (text.dump (fields.with feature).toJson) = if fields.expiry < now then none else some f := by
  obtain ⟨j,parsed,same⟩ := prints.reads
  have range := wrap32Range feature.length
  have length : wrap32 (wrap32 feature.length) = wrap32 feature.length := wrap32Exact range.1 range.2
  have dataType : wrap32 fields.dataType = fields.dataType := wrap32Exact fields.dataTypeFits.1 fields.dataTypeFits.2
  have expiry : (Json.integer fields.expiry).getUInt64 = some fields.expiry := by
    simp only [Json.getUInt64,Json.getNumber,Option.map_some]
    rw [Int.emod_eq_of_lt fields.expiryFits.1 fields.expiryFits.2]
  have read : FeatureData.fromJson j =
      some ⟨true,[],wrap32 feature.length,fields.version,fields.dataType,fields.expiry⟩ := by
    simp only [FeatureData.fromJson,same]
    simp [FeatureFields.with,FeatureData.toJson,Json.find?,List.lookup,Json.getString,Json.getInt32,Json.getNumber,
      length,dataType,expiry]
  exact ⟨⟨true,[],wrap32 feature.length,fields.version,fields.dataType,fields.expiry⟩,rfl,⟨rfl,rfl,rfl⟩,
    by simp only [readFeature,parsed,Option.bind_some,read]⟩

theorem readCut (prints : Prints text (fields.with feature).toJson) {n : Nat}
    (short : n < (text.dump (fields.with feature).toJson).length) :
    readFeature text now ((text.dump (fields.with feature).toJson).take n) = none := by
  rw [readFeature,prints.cut n short]
  rfl

theorem acceptedFeatureAfter {device' : Device} {metadata vector : Bytes} {f : FeatureData}
    (first : device'[featureName ++ FEATURESTOREMETADATAFILENAME]? = some metadata)
    (second : device'[featureName ++ FEATURESTOREFILENAME]? = some vector) (read : readFeature text now metadata = some f) :
    acceptedFeature text now device' featureName = some (withVector f vector) := by
  simp only [acceptedFeatureFiles,first,second,Option.bind_some,read,Option.map_some]

theorem crashedFeature {k : Nat} {cut : Option Nat} {f : FeatureData}
    (accepted : acceptedFeature text now (crashed device (featureWrites text featureName (fields.with feature)) k cut)
      featureName = some f) :
    acceptedFeature text now device featureName = some f ∨
    (∃ n metadata f', device[featureName ++ FEATURESTOREMETADATAFILENAME]? = some metadata ∧
      readFeature text now metadata = some f' ∧ f = withVector f' (feature.take n)) ∨
    ∃ n f', readFeature text now ((text.dump (fields.with feature).toJson).take n) = some f' ∧
      f = withVector f' feature := by
  generalize crash : crashed device (featureWrites text featureName (fields.with feature)) k cut = left at accepted
  rw [acceptedFeatureFiles] at accepted
  rcases crashedTwo featureFilesApart crash.symm with ⟨first,second⟩ | ⟨n,first,second⟩ | ⟨n,first,second⟩
  · refine .inl ?_
    rw [acceptedFeatureFiles,← first,← second]
    exact accepted
  · obtain ⟨metadata,there,accepted⟩ := Option.bind_eq_some_iff.mp accepted
    obtain ⟨f',read,accepted⟩ := Option.bind_eq_some_iff.mp accepted
    rw [first] at accepted
    exact .inr (.inl ⟨n,metadata,f',second.symm.trans there,read,(Option.some.inj accepted).symm⟩)
  · rw [first,second,Option.bind_some] at accepted
    obtain ⟨f',read,accepted⟩ := Option.bind_eq_some_iff.mp accepted
    exact .inr (.inr ⟨n,f',read,(Option.some.inj accepted).symm⟩)

theorem acceptedBefore {metadata vector : Bytes} {f : FeatureData}
    (there : device[featureName ++ FEATURESTOREMETADATAFILENAME]? = some metadata)
    (read : readFeature text now metadata = some f) :
    acceptedFeature text now device featureName = some (withVector f vector) ↔
      device[featureName ++ FEATURESTOREFILENAME]? = some vector := by
  simp only [acceptedFeatureFiles,there,Option.bind_some,read,Option.map_eq_some_iff]
  constructor
  · rintro ⟨old,file,same⟩
    rw [file]
    exact congrArg some (FeatureData.mk.inj same).2.1
  · intro file
    exact ⟨vector,file,rfl⟩

theorem featureIff (prints : Prints text (fields.with feature).toJson) :
    FeatureAllOrNothing text now device featureName (fields.with feature) ↔
      FeatureSafe text now device featureName fields feature := by
  constructor
  · rintro ⟨whole,_⟩ metadata there f read
    have each : ∀ n, device[featureName ++ FEATURESTOREFILENAME]? = some (feature.take n) ∨
        (feature.take n = feature ∧ fields.areOf f) := by
      intro n
      rcases whole 0 (some n) _ (acceptedFeatureAfter ((savedElsewhere featureFilesApart.symm).trans there) savedHere read)
        with before | new
      · exact .inl ((acceptedBefore there read).mp before)
      · exact .inr (withVectorNew new)
    by_cases empty : feature = []
    · refine .inl ⟨empty,?_⟩
      rcases each 0 with old | new
      · exact .inl old
      · exact .inr new.2
    · have old : device[featureName ++ FEATURESTOREFILENAME]? = some [] := by
        rcases each 0 with old | new
        · exact old
        · exact absurd new.1.symm empty
      have pieces : ∀ n, 0 < n → feature.take n = feature ∧ fields.areOf f := by
        intro n some
        rcases each n with other | new
        · have none : feature.take n = [] := Option.some.inj (other.symm.trans old)
          rcases List.take_eq_nil_iff.mp none with zero | nil
          · omega
          · exact absurd nil empty
        · exact new
      obtain ⟨one,same⟩ := pieces 1 one_pos
      refine .inr ⟨?_,old,same⟩
      have most := congrArg List.length one
      have least := List.length_pos_iff.mpr empty
      rw [List.length_take] at most
      omega
  · intro safe
    refine ⟨fun k cut f accepted => ?_,fun fresh => ?_⟩
    · rcases crashedFeature accepted with before | ⟨n,metadata,f',there,read,rfl⟩ | ⟨n,f',read,rfl⟩
      · exact .inl before
      · have valid := readValid read
        rcases safe metadata there f' read with ⟨rfl,old | same⟩ | ⟨one,old,same⟩
        · rw [List.take_nil]
          exact .inl ((acceptedBefore there read).mpr old)
        · rw [List.take_nil]
          exact .inr (withVectorOf valid same [])
        · by_cases zero : n = 0
          · rw [zero]
            exact .inl ((acceptedBefore there read).mpr old)
          · rw [List.take_of_length_le (by omega)]
            exact .inr (withVectorOf valid same feature)
      · by_cases short : n < (text.dump (fields.with feature).toJson).length
        · rw [readCut prints short] at read
          contradiction
        · rw [List.take_of_length_le (not_lt.mp short)] at read
          obtain ⟨f,valid,same,reads⟩ := @readNew text now fields feature prints
          rw [reads] at read
          split at read
          · contradiction
          · cases read
            exact .inr (withVectorOf valid same feature)
    · obtain ⟨f,valid,same,reads⟩ := @readNew text now fields feature prints
      have fresh : now ≤ fields.expiry := fresh
      rw [if_neg (not_lt.mpr fresh)] at reads
      have accepted : acceptedFeature text now (device.saveFeatureDataOnDevice text featureName (fields.with feature))
          featureName = some (withVector f feature) :=
        acceptedFeatureAfter savedHere ((savedElsewhere featureFilesApart).trans savedHere) reads
      rw [accepted,withVectorOf valid same feature]

end Feature

theorem savesIff {text : JsonText} {device : Device} {modelId version extras featureName : String} {plan feature : Bytes}
    {fields : FeatureFields} {now : Int} (printsPlan : Prints text (planOf version extras plan).toJson)
    (printsFeature : Prints text (fields.with feature).toJson) :
    (PlanAllOrNothing text device modelId (planOf version extras plan) ↔
      PlanSafe text device modelId version extras plan) ∧
    (FeatureAllOrNothing text now device featureName (fields.with feature) ↔
      FeatureSafe text now device featureName fields feature) :=
  ⟨planIff printsPlan,featureIff printsFeature⟩

section Ranker

def planText (version : String) (planLength : Nat) : Bytes :=
  ResourceManager.utf8 ("\x7b\"extras\":\"\",\"planLength\":" ++ toString planLength ++ ",\"version\":\"" ++ version ++ "\"\x7d")

def vectorText : Bytes :=
  ResourceManager.utf8 "\x7b\"dataType\":6,\"expiry\":500,\"featureLength\":1,\"version\":\"1\"\x7d"

def cityFields : FeatureFields := ⟨"1",6,500,by decide,by decide⟩

def rankerText : JsonText where
  dump j :=
    if (j.find? "planLength").isNone then vectorText
    else if (j.find? "version").bind Json.getString = some "0" then planText "0" 2
    else if (j.find? "version").bind Json.getString = some "1" then planText "1" 1
    else planText "2" 1
  parse bytes :=
    if bytes = vectorText then some (cityFields.with [7]).toJson
    else if bytes = planText "0" 2 then some (planOf "0" "" [3,4]).toJson
    else if bytes = planText "1" 1 then some (planOf "1" "" [1]).toJson
    else if bytes = planText "2" 1 then some (planOf "2" "" [2]).toJson
    else none

theorem rankerPrintsPlan : Prints rankerText (planOf "2" "" [2]).toJson where
  reads := by
    have text : rankerText.dump (planOf "2" "" [2]).toJson = planText "2" 1 := by decide +kernel
    refine ⟨(planOf "2" "" [2]).toJson,?_,fun _ => rfl⟩
    rw [text]
    simp only [rankerText]
    rw [if_neg (by decide +kernel),if_neg (by decide +kernel),if_neg (by decide +kernel),if_pos trivial]
  cut := by decide +kernel
  something := by decide +kernel

theorem rankerPrintsFeature : Prints rankerText (cityFields.with [7]).toJson where
  reads := by
    have text : rankerText.dump (cityFields.with [7]).toJson = vectorText := by decide +kernel
    refine ⟨(cityFields.with [7]).toJson,?_,fun _ => rfl⟩
    rw [text]
    simp only [rankerText]
    rw [if_pos trivial]
  cut := by decide +kernel
  something := by decide +kernel

def rankerDevice : Device :=
  .ofList [("rankerinferencePlanData.txt",planText "1" 1),("rankerinferencePlan.txt",[1])]

def safeDevice : Device :=
  .ofList [("rankerinferencePlanData.txt",planText "0" 2),("rankerinferencePlan.txt",[3,4]),
    ("cities" ++ FEATURESTOREMETADATAFILENAME,vectorText),("cities" ++ FEATURESTOREFILENAME,[])]

theorem safeDevicePlan : PlanSafe rankerText safeDevice "ranker" "2" "" [2] := by
  have plan : safeDevice["ranker" ++ INFERENCEFILENAME]? = some [3,4] := by decide +kernel
  constructor
  · decide
  · intro empty
    exact absurd (plan.symm.trans empty) (by decide)
  · intro old member sizes
    rw [Option.mem_def,plan,Option.some.injEq] at member
    rw [← member] at sizes
    exact absurd sizes (by decide)

theorem safeDeviceFeature : FeatureSafe rankerText 100 safeDevice "cities" cityFields [7] := by
  have there : safeDevice["cities" ++ FEATURESTOREMETADATAFILENAME]? = some vectorText := by decide +kernel
  have vector : safeDevice["cities" ++ FEATURESTOREFILENAME]? = some [] := by decide +kernel
  have fields : (readFeature rankerText 100 vectorText).map (fun f => (f.version,f.dataType,f.expiry)) = some ("1",6,500) := by
    decide +kernel
  intro metadata member f read
  rw [Option.mem_def,there,Option.some.injEq] at member
  rw [← member] at read
  rw [Option.mem_def.mp read,Option.map_some,Option.some.injEq,Prod.mk.injEq,Prod.mk.injEq] at fields
  exact .inr ⟨rfl,vector,fields⟩

theorem firstSaves : acceptedPlan rankerText safeDevice "ranker" = some ⟨true,"0",[3,4],"",2⟩ ∧
    PlanAllOrNothing rankerText safeDevice "ranker" (planOf "2" "" [2]) ∧
    FeatureAllOrNothing rankerText 100 safeDevice "cities" (cityFields.with [7]) := by
  have accepted : acceptedPlan rankerText safeDevice "ranker" = some ⟨true,"0",[3,4],"",2⟩ := by decide +kernel
  have saves := @savesIff rankerText safeDevice "ranker" "2" "" "cities" [2] [7] cityFields 100 rankerPrintsPlan
    rankerPrintsFeature
  exact ⟨accepted,saves.1.mpr safeDevicePlan,saves.2.mpr safeDeviceFeature⟩

theorem mixedPlanAccepted : ¬ ∀ (text : JsonText) (device : Device) (modelId version extras featureName : String)
    (plan feature : Bytes) (fields : FeatureFields) (now : Int), Prints text (planOf version extras plan).toJson →
    Prints text (fields.with feature).toJson →
    PlanAllOrNothing text device modelId (planOf version extras plan) ∧
      FeatureAllOrNothing text now device featureName (fields.with feature) := by
  intro claim
  obtain ⟨⟨whole,_⟩,_⟩ := claim rankerText rankerDevice "ranker" "2" "" "cities" [2] [7] cityFields 100 rankerPrintsPlan
    rankerPrintsFeature
  have mixed : acceptedPlan rankerText (crashed rankerDevice (planWrites rankerText "ranker" (planOf "2" "" [2])) 1 none)
      "ranker" = some ⟨true,"2",[1],"",1⟩ := by decide +kernel
  rcases whole 1 none _ mixed with before | new
  · have old : acceptedPlan rankerText rankerDevice "ranker" = some ⟨true,"1",[1],"",1⟩ := by decide +kernel
    rw [old] at before
    exact absurd before (by decide)
  · exact absurd new (by decide)

end Ranker
end NimbleNet.TwoFileSaves
