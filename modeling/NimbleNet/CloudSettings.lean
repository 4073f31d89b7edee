import NimbleNet.ResourceManager
import NimbleNet.StepRuns

/-! The cloud configuration on its way from the server to the command center and its two
loggers. The answers of the server and the text form of JSON are arguments; the time of the
request, which is only logged, is left out. -/
namespace NimbleNet

def AUTH_ERR : Int := 401
def JSON_PARSE_ERR : Int := 5000
def DEFAULT_AUTH_ERROR_RETRIES : Nat := 3
def DEFAULT_FETCH_CLOUD_CONFIG_RETRIES : Int := 3
def LOG_TIMER_INTERVAL_IN_SECONDS : Int := 5
def METRICS_TIMER_INTERVAL_IN_SECONDS : Int := 5
def METRICS_COLLECTION_TIME_INTERVAL_IN_SECONDS : Int := 20
def DEFAULT_UPLOAD_LOGS_URL : String := "https://logs.nimbleedgehq.ai"

structure CloudConfigResponse where
  status : Int
  description : String
  logKey : String
  logUrl : String
  logTimeInterval : Int
  metricsKey : String
  metricsTimeInterval : Int
  metricsCollectionInterval : Int

namespace CloudConfigResponse

def new : CloudConfigResponse where
  status := JSON_PARSE_ERR
  description := ""
  logKey := ""
  logUrl := DEFAULT_UPLOAD_LOGS_URL
  logTimeInterval := LOG_TIMER_INTERVAL_IN_SECONDS
  metricsKey := ""
  metricsTimeInterval := METRICS_TIMER_INTERVAL_IN_SECONDS
  metricsCollectionInterval := METRICS_COLLECTION_TIME_INTERVAL_IN_SECONDS

def readOptional {α : Type} (read : Json → Option α) (j : Json) (key : String) (default : α) : Option α :=
  match j.find? key with
  | some value => read value
  | none => some default

def fromJson (j : Json) : Option CloudConfigResponse := do
  let status ← (← j.find? "status").getInt32
  if status ≠ SUCCESS then do
    let description ← (← (← j.find? "error").find? "description").getString
    some {new with status := status, description := description}
  else do
    let logKey ← readOptional Json.getString j "logKey" new.logKey
    let metricsKey ← readOptional Json.getString j "metricsKey" new.metricsKey
    let logUrl ← readOptional Json.getString j "logUrl" new.logUrl
    let metricsTimeInterval ← readOptional Json.getInt32 j "metricsInterval" new.metricsTimeInterval
    let logTimeInterval ← readOptional Json.getInt32 j "logInterval" new.logTimeInterval
    let metricsCollectionInterval ←
      readOptional Json.getInt32 j "metricsCollectionTimeInterval" new.metricsCollectionInterval
    some ⟨status,"",logKey,logUrl,logTimeInterval,metricsKey,metricsTimeInterval,metricsCollectionInterval⟩

end CloudConfigResponse

/- An answer of the server, and whether device_register succeeds when it is asked for because
of it. -/
structure CloudAnswer where
  response : NetworkResponse
  registers : Bool

namespace ServerAPI

/- The answer that is read: the first that is no AUTH_ERR, or the one with which the retries
or the registration end. -/
def lastAnswer : Nat → (Nat → CloudAnswer) → NetworkResponse
  | 0,answers => (answers 0).response
  | retries + 1,answers =>
      if (answers 0).response.statusCode = AUTH_ERR ∧ (answers 0).registers = true then
        lastAnswer retries (fun n => answers (n + 1))
      else (answers 0).response

def readCloudConfig (text : JsonText) (response : NetworkResponse) : CloudConfigResponse :=
  let configResponse := ((text.parse response.body).bind CloudConfigResponse.fromJson).getD .new
  if configResponse.status = SUCCESS then {configResponse with metricsKey := configResponse.logKey}
  else configResponse

def getCloudConfig (text : JsonText) : Nat → (Nat → CloudAnswer) → CloudConfigResponse
  | 0,answers => readCloudConfig text (answers 0).response
  | retries + 1,answers =>
      if (answers 0).response.statusCode = AUTH_ERR ∧ (answers 0).registers = true then
        getCloudConfig text retries (fun n => answers (n + 1))
      else readCloudConfig text (answers 0).response

end ServerAPI

structure CloudConfig where
  logKey : String
  metricsKey : String
  logUrl : String
  logTimeInterval : Int
  metricsTimeInterval : Int
  metricsCollectionInterval : Int
  deriving DecidableEq

def CloudConfig.new : CloudConfig where
  logKey := ""
  metricsKey := ""
  logUrl := DEFAULT_UPLOAD_LOGS_URL
  logTimeInterval := LOG_TIMER_INTERVAL_IN_SECONDS
  metricsTimeInterval := METRICS_TIMER_INTERVAL_IN_SECONDS
  metricsCollectionInterval := METRICS_COLLECTION_TIME_INTERVAL_IN_SECONDS

structure LogSettings where
  secretKey : String
  timerInterval : Int
  host : String
  deriving DecidableEq

namespace LogSettings

def new (secretKey : String) : LogSettings := ⟨secretKey,LOG_TIMER_INTERVAL_IN_SECONDS,DEFAULT_UPLOAD_LOGS_URL⟩

def updateLogConfig (s : LogSettings) (secretKey : String) (timeInterval : Int) (logUrl : String) : LogSettings :=
  ⟨if secretKey = "" then s.secretKey else secretKey,timeInterval,logUrl⟩

end LogSettings

structure CommandCenter where
  cloudConfig : CloudConfig
  cloudConfigSet : Bool
  cloudConfigFetchRetries : Int
  logger : LogSettings
  metricsAgent : LogSettings
  deriving DecidableEq

namespace CommandCenter

def new (loggerKey metricsAgentKey : String) : CommandCenter where
  cloudConfig := .new
  cloudConfigSet := false
  cloudConfigFetchRetries := DEFAULT_FETCH_CLOUD_CONFIG_RETRIES
  logger := .new loggerKey
  metricsAgent := .new metricsAgentKey

/- The last setting of the response, metricsCollectionInterval, is not copied. -/
def apply (s : CommandCenter) (response : CloudConfigResponse) : CommandCenter where
  cloudConfig := {s.cloudConfig with
    logKey := response.logKey
    metricsKey := response.metricsKey
    logUrl := response.logUrl
    logTimeInterval := response.logTimeInterval
    metricsTimeInterval := response.metricsTimeInterval}
  cloudConfigSet := true
  cloudConfigFetchRetries := s.cloudConfigFetchRetries
  logger := s.logger.updateLogConfig response.logKey response.logTimeInterval response.logUrl
  metricsAgent := s.metricsAgent.updateLogConfig response.metricsKey response.metricsTimeInterval response.logUrl

def setCloudConfig (text : JsonText) (answers : Nat → CloudAnswer) (s : CommandCenter) : CommandCenter :=
  if s.cloudConfigSet then s
  else if s.cloudConfigFetchRetries = 0 then s
  else
    let asked := {s with cloudConfigFetchRetries := s.cloudConfigFetchRetries - 1}
    let response := ServerAPI.getCloudConfig text DEFAULT_AUTH_ERROR_RETRIES answers
    if response.status = SUCCESS then asked.apply response else asked

def internetSwitchedOn (s : CommandCenter) : CommandCenter :=
  {s with cloudConfigFetchRetries := DEFAULT_FETCH_CLOUD_CONFIG_RETRIES}

end CommandCenter

namespace CloudSettings
open StepRuns CommandCenter ServerAPI

inductive Action where
  | setCloudConfig (answers : Nat → CloudAnswer)
  | internetSwitchedOn

def step (text : JsonText) (s : CommandCenter) : Action → Option CommandCenter
  | .setCloudConfig answers => some (s.setCloudConfig text answers)
  | .internetSwitchedOn => some s.internetSwitchedOn

def setting {α : Type} (read : Json → Option α) (j : Json) (key : String) (default : α) : α :=
  ((j.find? key).bind read).getD default

def wanted (j : Json) : CloudConfig where
  logKey := setting Json.getString j "logKey" CloudConfig.new.logKey
  metricsKey := setting Json.getString j "metricsKey" CloudConfig.new.metricsKey
  logUrl := setting Json.getString j "logUrl" CloudConfig.new.logUrl
  logTimeInterval := setting Json.getInt32 j "logInterval" CloudConfig.new.logTimeInterval
  metricsTimeInterval := setting Json.getInt32 j "metricsInterval" CloudConfig.new.metricsTimeInterval
  metricsCollectionInterval :=
    setting Json.getInt32 j "metricsCollectionTimeInterval" CloudConfig.new.metricsCollectionInterval

/- Each setting has the value of its own key, or the default, in the command center and in the
logger that uses it. The empty key, which is the default, stands for the key of init_logger. -/
structure Applied (j : Json) (loggerKey metricsAgentKey : String) (s : CommandCenter) : Prop where
  cloudConfig : s.cloudConfig = wanted j
  logger : s.logger = (LogSettings.new loggerKey).updateLogConfig (wanted j).logKey (wanted j).logTimeInterval (wanted j).logUrl
  metricsAgent : s.metricsAgent = (LogSettings.new metricsAgentKey).updateLogConfig (wanted j).metricsKey
    (wanted j).metricsTimeInterval (wanted j).logUrl

section Answer
variable {text : JsonText} {j : Json} {r : CloudConfigResponse}

theorem readSetting {α : Type} {read : Json → Option α} {key : String} {default value : α}
    (found : CloudConfigResponse.readOptional read j key default = some value) : value = setting read j key default := by
  unfold CloudConfigResponse.readOptional at found
  unfold setting
  split at found
  · rename_i here
    rw [here,Option.bind_some,found]
    rfl
  · rename_i absent
    rw [absent]
    exact (Option.some.inj found).symm

theorem responseSource (accepted : CloudConfigResponse.fromJson j = some r) (success : r.status = SUCCESS) :
    r.logKey = (wanted j).logKey ∧ r.metricsKey = (wanted j).metricsKey ∧ r.logUrl = (wanted j).logUrl ∧
      r.logTimeInterval = (wanted j).logTimeInterval ∧ r.metricsTimeInterval = (wanted j).metricsTimeInterval := by
  simp only [CloudConfigResponse.fromJson,bind,Option.bind_eq_some_iff] at accepted
  obtain ⟨_,_,status,_,accepted⟩ := accepted
  split at accepted
  · rename_i failed
    simp only [Option.bind_eq_some_iff] at accepted
    obtain ⟨_,_,_,_,_,_,rest⟩ := accepted
    cases rest
    exact absurd success failed
  · simp only [Option.bind_eq_some_iff] at accepted
    obtain ⟨logKey,hlog,metricsKey,hmetrics,logUrl,hurl,metricsInterval,hmi,logInterval,hli,_,_,rest⟩ := accepted
    cases rest
    exact ⟨readSetting hlog,readSetting hmetrics,readSetting hurl,readSetting hli,readSetting hmi⟩

theorem getCloudConfigReads (retries : Nat) (answers : Nat → CloudAnswer) :
    getCloudConfig text retries answers = readCloudConfig text (lastAnswer retries answers) := by
  induction retries generalizing answers with
  | zero => rfl
  | succ retries ih =>
      rw [getCloudConfig,lastAnswer]
      split
      · exact ih _
      · rfl

theorem readCloudConfigGives {response : NetworkResponse} (document : text.parse response.body = some j)
    (accepted : CloudConfigResponse.fromJson j = some r) (success : r.status = SUCCESS) :
    readCloudConfig text response = {r with metricsKey := r.logKey} := by
  simp only [readCloudConfig,document,Option.bind_some,accepted,Option.getD_some,success,if_true]

end Answer

section Runs
variable {text : JsonText} {loggerKey metricsAgentKey : String}

def Untouched (loggerKey metricsAgentKey : String) (s : CommandCenter) : Prop := s.cloudConfigSet = false →
  s.cloudConfig = .new ∧ s.logger = .new loggerKey ∧ s.metricsAgent = .new metricsAgentKey

theorem stepUntouched (s : CommandCenter) (a : Action) (next : CommandCenter) (h : Untouched loggerKey metricsAgentKey s)
    (taken : step text s a = some next) : Untouched loggerKey metricsAgentKey next := by
  cases a with
  | internetSwitchedOn =>
      cases taken
      exact h
  | setCloudConfig answers =>
      cases taken
      unfold setCloudConfig
      split
      · exact h
      split
      · exact h
      · dsimp only
        split
        · exact fun unset => absurd unset (by simp [apply])
        · exact h

theorem runUntouched {actions : List Action} {s : CommandCenter}
    (ran : run (step text) (.new loggerKey metricsAgentKey) actions = some s) : Untouched loggerKey metricsAgentKey s :=
  runInvariant (step text) stepUntouched (fun _ => ⟨rfl,rfl,rfl⟩) ran

theorem setCloudConfigGives {actions : List Action} {s : CommandCenter}
    (ran : run (step text) (.new loggerKey metricsAgentKey) actions = some s) (unset : s.cloudConfigSet = false)
    (tries : s.cloudConfigFetchRetries ≠ 0) {answers : Nat → CloudAnswer} {j : Json} {r : CloudConfigResponse}
    (document : text.parse (lastAnswer DEFAULT_AUTH_ERROR_RETRIES answers).body = some j)
    (accepted : CloudConfigResponse.fromJson j = some r) (success : r.status = SUCCESS) :
    (s.setCloudConfig text answers).cloudConfig = {wanted j with
      metricsKey := (wanted j).logKey, metricsCollectionInterval := CloudConfig.new.metricsCollectionInterval} ∧
    (s.setCloudConfig text answers).logger =
      (LogSettings.new loggerKey).updateLogConfig (wanted j).logKey (wanted j).logTimeInterval (wanted j).logUrl ∧
    (s.setCloudConfig text answers).metricsAgent =
      (LogSettings.new metricsAgentKey).updateLogConfig (wanted j).logKey (wanted j).metricsTimeInterval (wanted j).logUrl := by
  obtain ⟨config,logger,metricsAgent⟩ := runUntouched ran unset
  obtain ⟨logKey,_,logUrl,logTimeInterval,metricsTimeInterval⟩ := responseSource accepted success
  have response : getCloudConfig text DEFAULT_AUTH_ERROR_RETRIES answers = {r with metricsKey := r.logKey} := by
    rw [getCloudConfigReads,readCloudConfigGives document accepted success]
  have applied : s.setCloudConfig text answers =
      ({s with cloudConfigFetchRetries := s.cloudConfigFetchRetries - 1} : CommandCenter).apply
        {r with metricsKey := r.logKey} := by
    simp only [setCloudConfig,unset,Bool.false_eq_true,if_false,if_neg tries,response,success,if_true]
  rw [applied]
  simp only [apply,config,logger,metricsAgent,logKey,logUrl,logTimeInterval,metricsTimeInterval]
  exact ⟨trivial,trivial,trivial⟩

theorem appliedIff {actions : List Action} {s : CommandCenter}
    (ran : run (step text) (.new loggerKey metricsAgentKey) actions = some s) (unset : s.cloudConfigSet = false)
    (tries : s.cloudConfigFetchRetries ≠ 0) {answers : Nat → CloudAnswer} {j : Json} {r : CloudConfigResponse}
    (document : text.parse (lastAnswer DEFAULT_AUTH_ERROR_RETRIES answers).body = some j)
    (accepted : CloudConfigResponse.fromJson j = some r) (success : r.status = SUCCESS) :
    Applied j loggerKey metricsAgentKey (s.setCloudConfig text answers) ↔
      (wanted j).metricsKey = (wanted j).logKey ∧
        (wanted j).metricsCollectionInterval = METRICS_COLLECTION_TIME_INTERVAL_IN_SECONDS := by
  obtain ⟨config,logger,metricsAgent⟩ := setCloudConfigGives ran unset tries document accepted success
  constructor
  · intro applied
    have same := config.symm.trans applied.cloudConfig
    exact ⟨(congrArg CloudConfig.metricsKey same).symm,(congrArg CloudConfig.metricsCollectionInterval same).symm⟩
  · rintro ⟨key,interval⟩
    refine ⟨config.trans ?_,logger,?_⟩
    · rw [← key]
      exact congrArg (fun interval => {wanted j with metricsCollectionInterval := interval}) interval.symm
    · rw [metricsAgent,key]

def documentText (document : Bytes) (j : Json) : JsonText :=
  ⟨fun _ => document,fun body => if body = document then some j else none⟩

def answered (document : Bytes) : Nat → CloudAnswer := fun _ => ⟨⟨SUCCESS,document⟩,false⟩

theorem answeredText (document : Bytes) (j : Json) :
    (documentText document j).parse (lastAnswer DEFAULT_AUTH_ERROR_RETRIES (answered document)).body = some j := by
  have first : lastAnswer DEFAULT_AUTH_ERROR_RETRIES (answered document) = ⟨SUCCESS,document⟩ := rfl
  rw [first]
  exact if_pos rfl

def oneKey : Json := .object [("logInterval",.integer 60),("logKey",.string "k"),("metricsKey",.string "k"),
  ("status",.integer 200)]

def oneKeyText : Bytes :=
  ResourceManager.utf8 "\x7b\"logInterval\":60,\"logKey\":\"k\",\"metricsKey\":\"k\",\"status\":200\x7d"

theorem appliedOneKey : Applied oneKey "builtin" "builtin"
    ((CommandCenter.new "builtin" "builtin").setCloudConfig (documentText oneKeyText oneKey) (answered oneKeyText)) :=
  (@appliedIff (documentText oneKeyText oneKey) "builtin" "builtin" [] (.new "builtin" "builtin") rfl rfl (by decide)
    (answered oneKeyText) oneKey ⟨200,"","k",DEFAULT_UPLOAD_LOGS_URL,60,"k",5,20⟩ (answeredText _ _) rfl rfl).mpr ⟨rfl,rfl⟩

def everyMinute : Json := .object [("metricsCollectionTimeInterval",.integer 60),("status",.integer 200)]

def everyMinuteText : Bytes := ResourceManager.utf8 "\x7b\"metricsCollectionTimeInterval\":60,\"status\":200\x7d"

theorem intervalMissed : ¬ ∀ (text : JsonText) (loggerKey metricsAgentKey : String) (actions : List Action) (s : CommandCenter)
    (answers : Nat → CloudAnswer) (j : Json) (r : CloudConfigResponse),
    run (step text) (.new loggerKey metricsAgentKey) actions = some s → s.cloudConfigSet = false →
      s.cloudConfigFetchRetries ≠ 0 → text.parse (lastAnswer DEFAULT_AUTH_ERROR_RETRIES answers).body = some j →
      CloudConfigResponse.fromJson j = some r → r.status = SUCCESS →
      Applied j loggerKey metricsAgentKey (s.setCloudConfig text answers) := by
  intro claim
  have applied := claim (documentText everyMinuteText everyMinute) "" "" [] (.new "" "") (answered everyMinuteText)
    everyMinute ⟨200,"","",DEFAULT_UPLOAD_LOGS_URL,5,"",5,60⟩ rfl rfl (by decide) (answeredText _ _) rfl rfl
  have interval : (20 : Int) = 60 := congrArg CloudConfig.metricsCollectionInterval applied.cloudConfig
  exact absurd interval (by decide)

end Runs
end CloudSettings
end NimbleNet
