import NimbleNet.LastInferences

/-! The configuration that the application hands over, and the loop that takes the slashes
off the end of its host. Whether the loop ends is part of what is proved, so it is run for a
number of passes. -/
namespace NimbleNet

structure Config where
  valid : Bool
  deviceId : String
  clientId : String
  host : String
  clientSecret : String
  modelIds : List String
  featureStores : List String
  tableInfos : List Json
  debug : Bool
  maxInputsToSave : Int

namespace HostNormalisation
open LastInferences

/- Where `from_json` is after a number of passes of its loop. -/
inductive Parsing (α : Type) where
  | running
  | undefined
  | threw
  | read (result : α)

def getBool : Json → Option Bool
  | .boolean b => some b
  | _ => none

def readMembers (j : Json) : Option Config := do
  let host ← (← j.find? "host").getString
  let deviceId ← (← j.find? "deviceID").getString
  let clientId ← (← j.find? "clientID").getString
  let modelIds ← (← j.find? "modelIDs").getList Json.getString
  let clientSecret ← (← j.find? "clientSecret").getString
  let featureStores ← match j.find? "featureStores" with
    | some stores => stores.getList Json.getString
    | none => some []
  let tableInfos ← match j.find? "databaseConfig" with
    | some tables => tables.getArray
    | none => some []
  let maxInputs ← maxInputsToSave j
  some ⟨false,deviceId,clientId,host,clientSecret,modelIds,featureStores,tableInfos,false,maxInputs⟩

/- `while (host.back() == '/') host = host.substr(0,host.size() - 1)`; an empty string has
no last character. -/
def normalise : Nat → String → Parsing String
  | 0,_ => .running
  | passes + 1,host =>
      match host.toList.getLast? with
      | none => .undefined
      | some last =>
          if last = '/' then normalise passes (String.ofList host.toList.dropLast) else .read host

def readDebug (j : Json) : Option Bool :=
  match j.find? "debug" with
  | some debug => getBool debug
  | none => some false

def fromJson (passes : Nat) (j : Json) : Parsing Config :=
  match readMembers j with
  | none => .threw
  | some config =>
      match normalise passes config.host with
      | .running => .running
      | .undefined => .undefined
      | .threw => .threw
      | .read host =>
          match readDebug j with
          | none => .threw
          | some debug => .read {config with host := host, debug := debug, valid := true}

def withoutTrailingSlashes (host : String) : String := String.ofList (host.toList.rdropWhile (· = '/'))

def Normalises (j : Json) : Prop := ∀ config ∈ readMembers j, ∃ passes, fromJson passes j =
  match readDebug j with
  | none => .threw
  | some debug => .read {config with host := withoutTrailingSlashes config.host, debug := debug, valid := true}

section Loop

theorem normaliseEnds (host : String) : normalise (host.toList.length + 1) host =
    if ∃ c ∈ host.toList, c ≠ '/' then .read (withoutTrailingSlashes host) else .undefined := by
  obtain ⟨text,rfl⟩ : ∃ text : List Char, host = String.ofList text := ⟨host.toList,String.ofList_toList.symm⟩
  simp only [withoutTrailingSlashes,String.toList_ofList]
  induction text using List.reverseRecOn with
  | nil => simp [normalise]
  | append_singleton text last ih =>
      rw [List.length_append,List.length_singleton,normalise,String.toList_ofList,List.getLast?_concat]
      simp only [List.dropLast_concat]
      by_cases slash : last = '/'
      · have same : (∃ c ∈ text ++ [last], c ≠ '/') ↔ ∃ c ∈ text, c ≠ '/' := by simp [slash,or_and_right]
        rw [if_pos slash,ih,List.rdropWhile_concat,if_pos (decide_eq_true slash)]
        simp only [same]
      · have more : ∃ c ∈ text ++ [last], c ≠ '/' := ⟨last,by simp,slash⟩
        rw [if_neg slash,if_pos more,List.rdropWhile_concat,if_neg (by simpa using slash)]

theorem normaliseMore {n k : Nat} {host : String} {ended : Parsing String} (ends : normalise n host = ended)
    (done : ended ≠ .running) : normalise (n + k) host = ended := by
  induction n generalizing host with
  | zero => exact absurd ends.symm done
  | succ n ih =>
      rw [Nat.add_right_comm,normalise]
      rw [normalise] at ends
      split at ends
      · exact ends
      · split at ends
        · rename_i slash
          rw [if_pos slash]
          exact ih ends
        · rename_i other
          rw [if_neg other]
          exact ends

theorem normaliseOutcome {n : Nat} {host : String} (ended : normalise n host ≠ .running) :
    normalise n host = normalise (host.toList.length + 1) host := by
  have final : normalise (host.toList.length + 1) host ≠ .running := by
    rw [normaliseEnds]
    split <;> exact fun same => nomatch same
  rw [← normaliseMore rfl final (k := n),← normaliseMore rfl ended (k := host.toList.length + 1),Nat.add_comm]

end Loop

section Parse
variable {j : Json} {config : Config}

theorem fromJsonMembers (members : readMembers j = some config) : fromJson (config.host.toList.length + 1) j =
    if ∃ c ∈ config.host.toList, c ≠ '/' then
      match readDebug j with
      | none => .threw
      | some debug => .read {config with host := withoutTrailingSlashes config.host, debug := debug, valid := true}
    else .undefined := by
  simp only [fromJson,members,normaliseEnds]
  by_cases more : ∃ c ∈ config.host.toList, c ≠ '/'
  · rw [if_pos more,if_pos more]
  · rw [if_neg more,if_neg more]

theorem fromJsonOutcome {n : Nat} (members : readMembers j = some config) (ended : fromJson n j ≠ .running) :
    fromJson n j = fromJson (config.host.toList.length + 1) j := by
  have loop : normalise n config.host ≠ .running := fun running => ended (by simp only [fromJson,members,running])
  simp only [fromJson,members,normaliseOutcome loop]

theorem fromJsonEnds (j : Json) : ∃ passes, fromJson passes j ≠ .running := by
  cases members : readMembers j with
  | none =>
      refine ⟨0,?_⟩
      simp only [fromJson,members]
      exact fun same => nomatch same
  | some config =>
      refine ⟨config.host.toList.length + 1,?_⟩
      rw [fromJsonMembers members]
      split
      · split <;> exact fun same => nomatch same
      · exact fun same => nomatch same

theorem normalisesIff (j : Json) : Normalises j ↔ ∀ config ∈ readMembers j, ∃ c ∈ config.host.toList, c ≠ '/' := by
  refine forall₂_congr (fun config members => ⟨?_,fun more => ?_⟩)
  · rintro ⟨n,result⟩
    have ended : fromJson n j ≠ .running := by
      rw [result]
      split <;> exact fun same => nomatch same
    rw [fromJsonOutcome members ended,fromJsonMembers members] at result
    by_contra only
    rw [if_neg only] at result
    split at result <;> contradiction
  · refine ⟨config.host.toList.length + 1,?_⟩
    rw [fromJsonMembers members,if_pos more]

def onHost (host : String) : Json :=
  .object [("host",.string host),("deviceID",.string "phone"),("clientID",.string "shop"),("modelIDs",.array []),
    ("clientSecret",.string "secret")]

theorem slashHost : ¬ ∀ j : Json, Normalises j := by
  intro claim
  obtain ⟨passes,result⟩ := claim (onHost "/") ⟨false,"phone","shop","/","secret",[],[],[],false,0⟩ rfl
  have members : readMembers (onHost "/") = some ⟨false,"phone","shop","/","secret",[],[],[],false,0⟩ := rfl
  have ended : fromJson passes (onHost "/") ≠ .running := by
    rw [result]
    exact fun same => nomatch same
  rw [fromJsonOutcome members ended,fromJsonMembers members,if_neg (by simp)] at result
  contradiction

end Parse

end HostNormalisation
end NimbleNet
