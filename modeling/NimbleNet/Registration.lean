import NimbleNet.CloudSettings
import NimbleNet.HostNormalisation
import NimbleNet.StepRuns

/-! The registration of the device and the header that the calls of the server carry. The
answers of the server are an argument, numbered in the order of the requests of all processes,
as are the text form of JSON and its parser. The parsing of what a call returns is modelled
elsewhere. -/
namespace NimbleNet

def DEFAULT_REGISTER_RETRIES : Nat := 3

structure Request where
  body : String
  header : String
  url : String
  method : String
  deriving DecidableEq

structure RegisterResponse where
  status : Int
  token : String

namespace RegisterResponse

def new : RegisterResponse := ⟨JSON_PARSE_ERR,""⟩

def fromJson (j : Json) : Option RegisterResponse := do
  let status ← (← j.find? "status").getInt32
  if status ≠ SUCCESS then do
    let _ ← (← (← j.find? "error").find? "description").getString
    some ⟨status,""⟩
  else do
    let token ← (← j.find? "token").getString
    some ⟨status,token⟩

end RegisterResponse

structure Registration where
  header : String
  host : String
  config : Config
  registerRetries : Nat
  registerDone : Bool
  device : Device
  requests : List Request

namespace Registration
open StepRuns

structure Surroundings where
  answers : Nat → NetworkResponse
  dump : Json → String
  parse : Bytes → Option Json

def process (device : Device) (requests : List Request) : Registration :=
  ⟨"","",⟨false,"","","","",[],[],[],false,0⟩,DEFAULT_REGISTER_RETRIES,false,device,requests⟩

variable (env : Surroundings)

def sendRequest (s : Registration) (r : Request) : NetworkResponse × Registration :=
  (env.answers s.requests.length,{s with requests := s.requests ++ [r]})

def registeredHeader (netResponse : NetworkResponse) : Option String :=
  let response := ((env.parse netResponse.body).bind RegisterResponse.fromJson).getD .new
  if response.status ≠ SUCCESS then none
  else some (env.dump (.object [("AuthorizationId",.string ("Bearer " ++ response.token))]))

def authInfo (header : String) : Json := .object [("apiHeader",.string header)]

def readAuthInfo (authInfoString : Bytes) : Option String := do
  (← (← env.parse authInfoString).find? "apiHeader").getString

def registerRequest (s : Registration) : Request where
  body := env.dump (.object [("clientId",.string s.config.clientId),("deviceId",.string s.config.deviceId),
    ("modelNames",.array (s.config.modelIds.map Json.string))])
  header := env.dump (.object [("ClientSecret",.string s.config.clientSecret)])
  url := s.host ++ "/mds" ++ "/api/v1" ++ "/clients/" ++ s.config.clientId ++ "/register"
  method := "POST"

def deviceRegister (s : Registration) : Bool × Registration :=
  let (netResponse,s) := s.sendRequest env (registerRequest env s)
  match registeredHeader env netResponse with
  | none => (false,s)
  | some header =>
      (true,{s with
        header := header,
        device := s.device.saveFileOnDevice (ResourceManager.utf8 (env.dump (authInfo header))) "AuthInfo.txt"})

def init (s : Registration) (config : Config) : Bool × Registration :=
  if s.registerDone then (true,s)
  else if s.registerRetries = 0 then (false,s)
  else
    let s := {s with registerRetries := s.registerRetries - 1, host := config.host, config := config}
    match (s.device.getFileFromDevice "AuthInfo.txt").bind (readAuthInfo env) with
    | some apiHeader => (true,{s with header := apiHeader, registerDone := true})
    | none =>
        match deviceRegister env s with
        | (true,s) => (true,{s with registerDone := true})
        | (false,s) => (false,s)

def resetRegisterRetries (s : Registration) : Registration := {s with registerRetries := DEFAULT_REGISTER_RETRIES}

def authorised (url : String) : Nat → Registration → NetworkResponse × Registration
  | 0,s => s.sendRequest env ⟨"",s.header,url,"GET"⟩
  | retries + 1,s =>
      match s.sendRequest env ⟨"",s.header,url,"GET"⟩ with
      | (response,s) =>
          if response.statusCode = AUTH_ERR then
            match deviceRegister env s with
            | (true,s) => authorised url retries s
            | (false,s) => (response,s)
          else (response,s)

def getPlan (s : Registration) (clientId modelId version : String) (partNum : Nat) : NetworkResponse × Registration :=
  authorised env (s.host ++ "/mds" ++ "/api/v1" ++ "/clients/" ++ clientId ++ "/models/" ++ modelId ++ "/versions/" ++
    version ++ "/parts/" ++ toString partNum ++ "?planType=inference") DEFAULT_AUTH_ERROR_RETRIES s

def versionCheck (s : Registration) (clientId modelId : String) : NetworkResponse × Registration :=
  authorised env (s.host ++ "/mds" ++ "/api/v1" ++ "/clients/" ++ clientId ++ "/models/" ++ modelId ++ "/version")
    DEFAULT_AUTH_ERROR_RETRIES s

def getCloudConfig (s : Registration) : NetworkResponse × Registration :=
  authorised env (s.host ++ "/mds" ++ "/api/v1" ++ "/clients/" ++ s.config.clientId ++ "/events/config")
    DEFAULT_AUTH_ERROR_RETRIES s

def getFeature (s : Registration) (featureName featureVersion : String) : NetworkResponse × Registration :=
  authorised env (s.host ++ "/nimblesync" ++ "/api/v1" ++ "/clients/" ++ s.config.clientId ++ "/features/" ++ featureName ++
    "/versions/" ++ featureVersion) DEFAULT_AUTH_ERROR_RETRIES s

def getFeatureVersion (s : Registration) (featureName : String) : NetworkResponse × Registration :=
  authorised env (s.host ++ "/nimblesync" ++ "/api/v1" ++ "/clients/" ++ s.config.clientId ++ "/features/" ++ featureName ++
    "/version") DEFAULT_AUTH_ERROR_RETRIES s

inductive Action where
  | init (config : Config)
  | getPlan (clientId modelId version : String) (partNum : Nat)
  | versionCheck (clientId modelId : String)
  | getCloudConfig
  | getFeature (featureName featureVersion : String)
  | getFeatureVersion (featureName : String)
  | resetRegisterRetries
  | restart (config : Config)

/- A new process, of which init is the first call. -/
def launch (device : Device) (requests : List Request) (config : Config) : Registration :=
  ((process device requests).init env config).2

def step (s : Registration) : Action → Option Registration
  | .init config => some (s.init env config).2
  | .getPlan clientId modelId version partNum => some (s.getPlan env clientId modelId version partNum).2
  | .versionCheck clientId modelId => some (s.versionCheck env clientId modelId).2
  | .getCloudConfig => some (s.getCloudConfig env).2
  | .getFeature featureName featureVersion => some (s.getFeature env featureName featureVersion).2
  | .getFeatureVersion featureName => some (s.getFeatureVersion env featureName).2
  | .resetRegisterRetries => some s.resetRegisterRetries
  | .restart config => some (launch env s.device s.requests config)

def newest (requests : List Request) : Option String :=
  (requests.zipIdx.filterMap (fun item =>
    if item.1.method = "POST" then registeredHeader env (env.answers item.2) else none)).getLast?

def savedHeader (device : Device) : Option String := (device.getFileFromDevice "AuthInfo.txt").bind (readAuthInfo env)

def Readable : Prop := ∀ n header, registeredHeader env (env.answers n) = some header →
  readAuthInfo env (ResourceManager.utf8 (env.dump (authInfo header))) = some header

def Refused (before : List Request) : Prop :=
  ∃ r ∈ before.getLast?, r.method = "GET" ∧ (env.answers (before.length - 1)).statusCode = AUTH_ERR

/- What holds of a request: a call carries the newest header, that of the file at the start if
no registration succeeded yet, and the device registers only without one or after a refusal. -/
structure Lawful (first : Option String) (before : List Request) (r : Request) : Prop where
  sent : r.method = "GET" → r.header = ((newest env before).or first).getD ""
  asked : r.method = "POST" → (newest env before).or first = none ∨ Refused env before

structure Kept (first : Option String) (s : Registration) : Prop where
  saved : savedHeader env s.device = (newest env s.requests).or first
  here : s.header = (savedHeader env s.device).getD ""
  lawful : ∀ before r after, s.requests = before ++ r :: after → Lawful env first before r

section Sent
variable {env} {first : Option String} {s : Registration} {requests : List Request} {r : Request}

theorem newestAppend : newest env (requests ++ [r]) =
    ((if r.method = "POST" then registeredHeader env (env.answers requests.length) else none).or (newest env requests)) := by
  simp only [newest,List.zipIdx_append,List.filterMap_append,List.zipIdx_singleton,List.getLast?_append,
    List.filterMap_cons,List.filterMap_nil,Nat.zero_add]
  congr 1
  split <;> simp_all

theorem lawfulAppend (kept : ∀ before r after, requests = before ++ r :: after → Lawful env first before r)
    (here : Lawful env first requests r) (before : List Request) (r' : Request) (after : List Request)
    (same : requests ++ [r] = before ++ r' :: after) : Lawful env first before r' := by
  rcases List.eq_nil_or_concat after with rfl | ⟨after',last,rfl⟩
  · obtain ⟨rfl,only⟩ := List.append_inj' same rfl
    cases only
    exact here
  · rw [List.concat_eq_append,← List.cons_append,← List.append_assoc] at same
    exact kept before r' after' (List.append_inj' same rfl).1

theorem sendKept {url : String} (h : Kept env first s) : Kept env first (s.sendRequest env ⟨"",s.header,url,"GET"⟩).2 where
  saved := by simpa [sendRequest,newestAppend] using h.saved
  here := h.here
  lawful := lawfulAppend h.lawful ⟨fun _ => h.here.trans (by rw [h.saved]),fun post => absurd post (by simp)⟩

theorem sendRefuses {url : String} (refused : (s.sendRequest env ⟨"",s.header,url,"GET"⟩).1.statusCode = AUTH_ERR) :
    Refused env (s.sendRequest env ⟨"",s.header,url,"GET"⟩).2.requests :=
  ⟨⟨"",s.header,url,"GET"⟩,by simp [sendRequest],rfl,by simpa [sendRequest] using refused⟩

theorem authorisedSucc {url : String} {retries : Nat} : authorised env url (retries + 1) s =
    if (s.sendRequest env ⟨"",s.header,url,"GET"⟩).1.statusCode = AUTH_ERR then
      if (deviceRegister env (s.sendRequest env ⟨"",s.header,url,"GET"⟩).2).1 then
        authorised env url retries (deviceRegister env (s.sendRequest env ⟨"",s.header,url,"GET"⟩).2).2
      else ((s.sendRequest env ⟨"",s.header,url,"GET"⟩).1,(deviceRegister env (s.sendRequest env ⟨"",s.header,url,"GET"⟩).2).2)
    else s.sendRequest env ⟨"",s.header,url,"GET"⟩ := by
  rw [authorised]
  generalize s.sendRequest env ⟨"",s.header,url,"GET"⟩ = sent
  refine if_congr Iff.rfl ?_ rfl
  generalize deviceRegister env sent.2 = outcome
  obtain ⟨registered,after⟩ := outcome
  cases registered <;> rfl

end Sent

section Kept
variable {env} (readable : Readable env) {first : Option String} {s : Registration}
include readable

theorem registerKept (h : Kept env first s) (needed : (newest env s.requests).or first = none ∨ Refused env s.requests) :
    Kept env first (deviceRegister env s).2 := by
  have lawful : Lawful env first s.requests (registerRequest env s) :=
    ⟨fun get => absurd get (by simp [registerRequest]),fun _ => needed⟩
  unfold deviceRegister
  simp only [sendRequest]
  split
  · rename_i failed
    refine ⟨?_,h.here,lawfulAppend h.lawful lawful⟩
    simpa [newestAppend,registerRequest,failed] using h.saved
  · rename_i header registered
    have saved : savedHeader env (s.device.saveFileOnDevice
        (ResourceManager.utf8 (env.dump (authInfo header))) "AuthInfo.txt") = some header := by
      simp [savedHeader,Device.saveFileOnDevice,Device.getFileFromDevice,readable _ header registered]
    refine ⟨?_,?_,lawfulAppend h.lawful lawful⟩
    · simp [newestAppend,registerRequest,registered,saved]
    · simp [saved]

theorem authorisedKept {url : String} (retries : Nat) (h : Kept env first s) :
    Kept env first (authorised env url retries s).2 := by
  induction retries generalizing s with
  | zero => exact sendKept h
  | succ retries ih =>
      have sent : Kept env first (s.sendRequest env ⟨"",s.header,url,"GET"⟩).2 := sendKept h
      rw [authorisedSucc]
      split
      · rename_i refused
        have registered := registerKept readable sent (.inr (sendRefuses refused))
        split
        · exact ih registered
        · exact registered
      · exact sent

theorem initKept {config : Config} (saved : savedHeader env s.device = (newest env s.requests).or first)
    (lawful : ∀ before r after, s.requests = before ++ r :: after → Lawful env first before r)
    (here : s.header = (savedHeader env s.device).getD "" ∨
      (s.registerDone = false ∧ s.registerRetries ≠ 0 ∧ s.header = "")) :
    Kept env first (s.init env config).2 := by
  unfold init
  split
  · rename_i done
    exact ⟨saved,here.resolve_right (fun fresh => by simp [fresh.1] at done),lawful⟩
  split
  · rename_i spent
    exact ⟨saved,here.resolve_right (fun fresh => fresh.2.1 spent),lawful⟩
  dsimp only
  split
  · rename_i apiHeader read
    refine ⟨saved,?_,lawful⟩
    simp only [savedHeader,read,Option.getD_some]
  · rename_i unread
    have kept : Kept env first {s with registerRetries := s.registerRetries - 1, host := config.host, config := config} := by
      refine ⟨saved,?_,lawful⟩
      rcases here with here | fresh
      · exact here
      · simpa only [savedHeader,unread,Option.getD_none] using fresh.2.2
    have registered := registerKept readable kept (.inl (saved.symm.trans unread))
    split
    · rename_i same
      rw [same] at registered
      exact ⟨registered.saved,registered.here,registered.lawful⟩
    · rename_i same
      rw [same] at registered
      exact registered

theorem launchKept {config : Config} {device : Device} {requests : List Request}
    (saved : savedHeader env device = (newest env requests).or first)
    (lawful : ∀ before r after, requests = before ++ r :: after → Lawful env first before r) :
    Kept env first (launch env device requests config) :=
  initKept readable saved lawful (.inr ⟨rfl,Nat.succ_ne_zero _,rfl⟩)

theorem stepKept (s : Registration) (a : Action) (next : Registration) (h : Kept env first s) (taken : step env s a = some next) :
    Kept env first next := by
  cases a with
  | init config =>
      cases taken
      exact initKept readable h.saved h.lawful (.inl h.here)
  | getPlan clientId modelId version partNum =>
      cases taken
      exact authorisedKept readable _ h
  | versionCheck clientId modelId =>
      cases taken
      exact authorisedKept readable _ h
  | getCloudConfig =>
      cases taken
      exact authorisedKept readable _ h
  | getFeature featureName featureVersion =>
      cases taken
      exact authorisedKept readable _ h
  | getFeatureVersion featureName =>
      cases taken
      exact authorisedKept readable _ h
  | resetRegisterRetries =>
      cases taken
      exact ⟨h.saved,h.here,h.lawful⟩
  | restart config =>
      cases taken
      exact launchKept readable h.saved h.lawful

theorem runKept {device : Device} {config : Config} {actions : List Action} {s : Registration}
    (ran : run (step env) (launch env device [] config) actions = some s) : Kept env (savedHeader env device) s :=
  runInvariant (step env) (stepKept readable)
    (launchKept readable rfl (fun before r after same => by simp at same)) ran

end Kept

section Calls
variable {env} {s : Registration}

def seen (env : Surroundings) (sent n : Nat) : CloudAnswer :=
  ⟨env.answers (sent + 2 * n),(registeredHeader env (env.answers (sent + 2 * n + 1))).isSome⟩

theorem registerGives : (deviceRegister env s).1 = (registeredHeader env (env.answers s.requests.length)).isSome ∧
    (deviceRegister env s).2.requests.length = s.requests.length + 1 ∧
    (deviceRegister env s).2.registerRetries = s.registerRetries := by
  unfold deviceRegister
  simp only [sendRequest]
  split
  · rename_i failed
    simp [failed]
  · rename_i registered
    simp [registered]

theorem authorisedAnswers {url : String} (retries : Nat) :
    (authorised env url retries s).1 = ServerAPI.lastAnswer retries (seen env s.requests.length) := by
  induction retries generalizing s with
  | zero => rfl
  | succ retries ih =>
      have sent : (s.sendRequest env ⟨"",s.header,url,"GET"⟩).2.requests.length = s.requests.length + 1 := by
        simp [sendRequest]
      obtain ⟨registers,asked,_⟩ := @registerGives env (s.sendRequest env ⟨"",s.header,url,"GET"⟩).2
      have shift : (fun n => seen env s.requests.length (n + 1)) =
          seen env (deviceRegister env (s.sendRequest env ⟨"",s.header,url,"GET"⟩).2).2.requests.length := by
        funext n
        have place : s.requests.length + 1 + 1 + 2 * n = s.requests.length + 2 * (n + 1) := by omega
        rw [asked,sent]
        simp only [seen,place]
      rw [authorisedSucc,ServerAPI.lastAnswer,shift,← ih]
      rw [sent] at registers
      have here : (s.sendRequest env ⟨"",s.header,url,"GET"⟩).1 = (seen env s.requests.length 0).response := rfl
      have there : (deviceRegister env (s.sendRequest env ⟨"",s.header,url,"GET"⟩).2).1 =
          (seen env s.requests.length 0).registers := registers
      rw [here,there]
      by_cases refused : (seen env s.requests.length 0).response.statusCode = AUTH_ERR
      · cases (seen env s.requests.length 0).registers <;> simp [refused]
      · simp [refused,here]

theorem authorisedSends {url : String} (retries : Nat) :
    (authorised env url retries s).2.requests.length ≤ s.requests.length + 2 * retries + 1 ∧
    (authorised env url retries s).2.registerRetries = s.registerRetries := by
  induction retries generalizing s with
  | zero => simp [authorised,sendRequest]
  | succ retries ih =>
      have sent : (s.sendRequest env ⟨"",s.header,url,"GET"⟩).2.requests.length = s.requests.length + 1 ∧
          (s.sendRequest env ⟨"",s.header,url,"GET"⟩).2.registerRetries = s.registerRetries := by
        simp [sendRequest]
      obtain ⟨_,asked,left⟩ := @registerGives env (s.sendRequest env ⟨"",s.header,url,"GET"⟩).2
      rw [authorisedSucc]
      split
      · split
        · obtain ⟨later,same⟩ := @ih (deviceRegister env (s.sendRequest env ⟨"",s.header,url,"GET"⟩).2).2
          exact ⟨by omega,same.trans (left.trans sent.2)⟩
        · exact ⟨by dsimp only; omega,left.trans sent.2⟩
      · exact ⟨by omega,sent.2⟩

theorem initSends {config : Config} :
    (s.init env config).2.requests.length + (s.init env config).2.registerRetries ≤ s.requests.length + s.registerRetries := by
  unfold init
  split
  · exact Nat.le_refl _
  split
  · exact Nat.le_refl _
  rename_i left
  dsimp only
  split
  · dsimp only
    omega
  · obtain ⟨_,asked,same⟩ := @registerGives env
      {s with registerRetries := s.registerRetries - 1, host := config.host, config := config}
    split
    all_goals
      rename_i outcome
      rw [outcome] at asked same
      dsimp only at asked same ⊢
      omega

/- The requests that an action adds at most, those that it makes possible later included. -/
def allowance : Action → Nat
  | .init _ => 0
  | .getPlan _ _ _ _ | .versionCheck _ _ | .getCloudConfig | .getFeature _ _ | .getFeatureVersion _ =>
      2 * DEFAULT_AUTH_ERROR_RETRIES + 1
  | .resetRegisterRetries | .restart _ => DEFAULT_REGISTER_RETRIES

theorem stepSends {s next : Registration} {a : Action} (taken : step env s a = some next) :
    next.requests.length + next.registerRetries ≤ s.requests.length + s.registerRetries + allowance a := by
  have call : ∀ url, (authorised env url DEFAULT_AUTH_ERROR_RETRIES s).2.requests.length +
      (authorised env url DEFAULT_AUTH_ERROR_RETRIES s).2.registerRetries ≤
        s.requests.length + s.registerRetries + (2 * DEFAULT_AUTH_ERROR_RETRIES + 1) := by
    intro url
    obtain ⟨few,same⟩ := @authorisedSends env s url DEFAULT_AUTH_ERROR_RETRIES
    omega
  cases a with
  | init config =>
      cases taken
      exact initSends
  | getPlan clientId modelId version partNum =>
      cases taken
      exact call _
  | versionCheck clientId modelId =>
      cases taken
      exact call _
  | getCloudConfig =>
      cases taken
      exact call _
  | getFeature featureName featureVersion =>
      cases taken
      exact call _
  | getFeatureVersion featureName =>
      cases taken
      exact call _
  | resetRegisterRetries =>
      cases taken
      simp only [resetRegisterRetries,allowance]
      omega
  | restart config =>
      cases taken
      have launched := @initSends env (process s.device s.requests) config
      simp only [process] at launched
      simp only [launch,process,allowance]
      omega

theorem runSends {actions : List Action} {s final : Registration} (ran : run (step env) s actions = some final) :
    final.requests.length + final.registerRetries ≤ s.requests.length + s.registerRetries + (actions.map allowance).sum := by
  induction actions generalizing s with
  | nil =>
      cases ran
      simp
  | cons a rest ih =>
      obtain ⟨next,taken,later⟩ := (runCons (step env)).mp ran
      have here := stepSends taken
      have there := ih later
      simp only [List.map_cons,List.sum_cons]
      omega

end Calls

section Renewal

def quoted (text : String) : String :=
  "\"" ++ String.ofList (text.toList.flatMap (fun c => if c = '"' ∨ c = '\\' then ['\\',c] else [c])) ++ "\""

def member : String × Json → String
  | (key,.string value) => quoted key ++ ":" ++ quoted value
  | (key,_) => quoted key ++ ":[]"

def plainText : Json → String
  | .object fields => "\x7b" ++ ",".intercalate (fields.map member) ++ "\x7d"
  | _ => "[]"

def bearer (token : String) : String := plainText (.object [("AuthorizationId",.string ("Bearer " ++ token))])

def granted (token : String) : Bytes :=
  ResourceManager.utf8 ("\x7b\"status\":200,\"token\":" ++ quoted token ++ "\x7d")

def renewal : Surroundings where
  answers := fun
    | 0 => ⟨200,granted "a1"⟩
    | 1 => ⟨401,[]⟩
    | 2 => ⟨200,granted "a2"⟩
    | _ => ⟨200,[]⟩
  dump := plainText
  parse := fun bytes => List.lookup bytes (["a1","a2"].flatMap (fun token =>
    [(granted token,.object [("status",.integer 200),("token",.string token)]),
      (ResourceManager.utf8 (plainText (authInfo (bearer token))),authInfo (bearer token))]))

def phone : Config := ⟨true,"phone","app","https://host","secret",[],[],[],false,0⟩

def registration : Request := registerRequest renewal {process ∅ [] with config := phone, host := phone.host}

def configRequest (token : String) : Request := ⟨"",bearer token,"https://host/mds/api/v1/clients/app/events/config","GET"⟩

def renewed : List Request := [registration,configRequest "a1",registration,configRequest "a2"]

theorem renewalReadable : Readable renewal
  | 0,header,registered => by
      have same : registeredHeader renewal (renewal.answers 0) = some (bearer "a1") := by decide +kernel
      cases same.symm.trans registered
      decide +kernel
  | 1,header,registered => by
      have same : registeredHeader renewal (renewal.answers 1) = none := by decide +kernel
      cases same.symm.trans registered
  | 2,header,registered => by
      have same : registeredHeader renewal (renewal.answers 2) = some (bearer "a2") := by decide +kernel
      cases same.symm.trans registered
      decide +kernel
  | n + 3,header,registered => by
      have same : registeredHeader renewal (renewal.answers (n + 3)) = none := by
        have other : renewal.answers (n + 3) = renewal.answers 3 := rfl
        rw [other]
        decide +kernel
      cases same.symm.trans registered

end Renewal

section Results
variable {env : Surroundings} {device : Device} {config : Config} {actions : List Action} {s : Registration}

theorem newestHeaderSent (readable : Readable env) (ran : run (step env) (launch env device [] config) actions = some s)
    {before after : List Request} {r : Request} (sent : s.requests = before ++ r :: after) (get : r.method = "GET") :
    r.header = ((newest env before).or (savedHeader env device)).getD "" :=
  ((runKept readable ran).lawful before r after sent).sent get

theorem newTokenSent : (run (step renewal) (launch renewal ∅ [] phone) [.getCloudConfig]).map requests = some renewed ∧
    bearer "a2" = ((newest renewal (renewed.take 3)).or (savedHeader renewal ∅)).getD "" :=
  ⟨by decide +kernel,@newestHeaderSent renewal ∅ phone [.getCloudConfig] _ renewalReadable rfl
    (renewed.take 3) [] (configRequest "a2") (by decide +kernel) rfl⟩

theorem registersWhenNeeded (readable : Readable env) (ran : run (step env) (launch env device [] config) actions = some s)
    {before after : List Request} {r : Request} (sent : s.requests = before ++ r :: after) (post : r.method = "POST") :
    (newest env before).or (savedHeader env device) = none ∨ Refused env before :=
  ((runKept readable ran).lawful before r after sent).asked post

theorem refusedRenews : (newest renewal (renewed.take 2)).or (savedHeader renewal ∅) = none ∨ Refused renewal (renewed.take 2) :=
  @registersWhenNeeded renewal ∅ phone [.getCloudConfig] _ renewalReadable rfl (renewed.take 2) [configRequest "a2"] registration
    (by decide +kernel) rfl

theorem trafficBounded (ran : run (step env) (launch env device [] config) actions = some s) :
    s.requests.length + s.registerRetries ≤ DEFAULT_REGISTER_RETRIES + (actions.map allowance).sum := by
  have start := @initSends env (process device []) config
  have later := runSends ran
  simp only [process,List.length_nil,Nat.zero_add] at start
  simp only [launch,process] at later
  omega

theorem renewalBounded : renewed.length + 2 ≤ DEFAULT_REGISTER_RETRIES + ([Action.getCloudConfig].map allowance).sum :=
  @trafficBounded renewal ∅ phone [.getCloudConfig] _ rfl

theorem configAnswers (text : JsonText) (env : Surroundings) (s : Registration) :
    ServerAPI.readCloudConfig text (s.getCloudConfig env).1 =
      ServerAPI.getCloudConfig text DEFAULT_AUTH_ERROR_RETRIES (seen env s.requests.length) := by
  rw [CloudSettings.getCloudConfigReads,getCloudConfig,authorisedAnswers]

end Results

end Registration
end NimbleNet
