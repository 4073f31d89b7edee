import NimbleNet.JsonDump
import NimbleNet.Logger
import NimbleNet.ONNXExecutorStructs
import NimbleNet.OrderedMap
import NimbleNet.StepRuns

/-! Every path from a text of the host to a place that throws: formatlog, which the metrics of
an inference, the lines for the log files and the answers to the uploads go through. dump()
is on these paths too, and does not throw. A file is its bytes here. An exception that leaves
a call is none: none of the callers has a handler. -/
namespace NimbleNet.UncaughtExceptions
open JsonDump StepRuns

def cString (s : Bytes) : Bytes := s.takeWhile (· ≠ 0)

/- snprintf counts in an int, and the terminating zero is one more. -/
def Formats (line : Bytes) : Prop := line.length + 1 < 2 ^ 31
instance (line : Bytes) : Decidable (Formats line) := Nat.decLt _ _

def formatlog (line : Bytes) : Option Bytes := if Formats line then some line else none

structure LoggingConfig where
  secretKey : Bytes
  deviceId : Bytes
  clientId : Bytes
  source : Bytes

structure LogAgent where
  files : StdMap Bytes
  writeFilePtr : Option Nat
  config : LoggingConfig

structure WriteCall where
  date : Bytes
  newFileName : String
  reopening : Reopening

namespace LogAgent

def contentOf (l : LogAgent) (fileName : String) : Bytes := l.files.getD fileName []

def moveAway (o : Reopening) (fileName : String) (l : LogAgent) : LogAgent :=
  let files := match l.files[Logger.writeFile]? with
    | some content => if o.renames then (l.files.erase Logger.writeFile).insert fileName content else l.files
    | none => l.files
  {l with
    files := if o.reopens.isSome then files.insertIfNew Logger.writeFile [] else files
    writeFilePtr := o.reopens}

def entry (date type message : Bytes) : Bytes := type ++ ascii " " ++ date ++ ascii " ::: " ++ cString message ++ ascii "\n"

def append (text : Bytes) (l : LogAgent) : LogAgent :=
  {l with
    files := l.files.insert Logger.writeFile (l.contentOf Logger.writeFile ++ text)
    writeFilePtr := some (l.contentOf Logger.writeFile ++ text).length}

def writeLog (c : WriteCall) (message type : Bytes) (l : LogAgent) : LogAgent :=
  match l.writeFilePtr with
  | none => l
  | some _ =>
      let l' := l.append (entry c.date type message)
      if 500 * 1024 < (l'.contentOf Logger.writeFile).length then l'.moveAway c.reopening c.newFileName else l'

def linesOf (content : Bytes) : List Bytes :=
  let parts := content.splitOn 10
  if parts.getLast? = some [] then parts.dropLast else parts

def readLogs (opens : Bool) (fileName : String) (l : LogAgent) : List Bytes := if opens then linesOf (l.contentOf fileName) else []

def logTypeOf : Bytes → Bytes
  | 58 :: 58 :: 58 :: _ => []
  | byte :: rest => byte :: logTypeOf rest
  | [] => []

def bodyEntry (config : LoggingConfig) (log : Bytes) : Object :=
  [("clientId",.string config.clientId),("ddsource",.string config.source),
    ("ddtags",.string (ascii "env:nimblepoc,version:1.0")),("deviceID",.string config.deviceId),
    ("logType",.string (logTypeOf log)),("message",.string log),("service",.string (ascii "nimbleSDK"))]

def header (config : LoggingConfig) : Object :=
  [("Accept",.string (ascii "application/json")),("Content-Type",.string (ascii "application/json")),
    ("DD-API-KEY",.string config.secretKey)]

def uploadLogs (config : LoggingConfig) (logs : List Bytes) : Option (Bytes × Bytes) := do
  let body ← dumpArray (logs.map (bodyEntry config))
  let headers ← dumpObject (header config)
  some (body,headers)

def remove (removes : Bool) (fileName : String) (l : LogAgent) : LogAgent :=
  if removes then {l with files := l.files.erase fileName} else l

def isWorthSending (initComplete : Bool) (l : LogAgent) : Bool :=
  match l.writeFilePtr with
  | none => false
  | some position => !initComplete || 1000 < position

end LogAgent

/- `due`: the interval has passed. `entries`: the regular files that readdir delivers.
`statusCode` and `body`: the answer to the upload, which is logged. -/
structure SendCall where
  due : Bool
  initComplete : Bool
  entries : List String
  newFileName : String
  reopening : Reopening
  opens : Bool
  removes : Bool
  statusCode : Int
  body : Bytes
  logged : WriteCall

inductive Agent where
  | metricsAgent
  | logger
  deriving DecidableEq

structure Sdk where
  agents : Agent → LogAgent
  initializeSuccess : Bool
  inferenceCount : Int

namespace Sdk

def update (s : Sdk) (which : Agent) (f : LogAgent → LogAgent) : Sdk :=
  {s with agents := fun other => if other = which then f (s.agents other) else s.agents other}

def log (s : Sdk) (which : Agent) (type line : Bytes) (c : WriteCall) : Option Sdk := do
  let message ← formatlog line
  some (s.update which (LogAgent.writeLog c message type))

def metricLine (metricType metricJson : Bytes) : Bytes := cString metricType ++ ascii " ::: " ++ cString metricJson

def logMetrics (s : Sdk) (metricType metricJson : Bytes) (c : WriteCall) : Option Sdk :=
  s.log .metricsAgent (ascii "METRICS:::") (metricLine metricType metricJson) c

def answerLine (c : SendCall) : Bytes :=
  if c.statusCode ≠ 202 then
    ascii "Log File Upload Unsuccessful " ++ cString c.body ++ ascii ", statusCode=" ++ ascii (toString c.statusCode)
  else ascii "Log File Upload success " ++ cString c.body

def sendLogs (s : Sdk) (which : Agent) (c : SendCall) (fileName : String) : Option Sdk := do
  let logs := (s.agents which).readLogs c.opens fileName
  if logs = [] then some (s.update which (LogAgent.remove c.removes fileName))
  else do
    let _ ← LogAgent.uploadLogs (s.agents which).config logs
    let s ← s.log .logger (ascii "DEBUG:::") (answerLine c) c.logged
    if c.statusCode ≠ 202 then some s else some (s.update which (LogAgent.remove c.removes fileName))

def sendPendingLogs (s : Sdk) (which : Agent) (c : SendCall) : Option Sdk :=
  if c.due then
    match Logger.getNewFileToSendLog c.entries with
    | some fileName => s.sendLogs which c fileName
    | none =>
        if (s.agents which).isWorthSending c.initComplete then
          (s.update which (LogAgent.moveAway c.reopening c.newFileName)).sendLogs which c c.newFileName
        else some s
  else some s

end Sdk

structure ExitCall where
  version : Option Bytes
  uTime : Int
  metric : WriteCall
  debug : WriteCall

-- get_plan_version
def ExitCall.modelVersion (e : ExitCall) : Bytes :=
  match e.version with
  | some version => version
  | none => []

def inferMetric (count : Int) (modelId inferId : Bytes) (inferenceSuccess : Bool) (e : ExitCall) : Object :=
  [("inferenceCount",.integer count),("inferenceId",.string inferId),("modelId",.string modelId),
    ("modelVersion",.string e.modelVersion),("source",.string (ascii "cpp")),
    ("success",.string (ascii (if inferenceSuccess then "true" else "false"))),("uTime",.integer e.uTime)]

def exitLine (count : Int) (modelId inferId : Bytes) (inferenceSuccess : Bool) (e : ExitCall) : Bytes :=
  ascii "Id=" ++ cString inferId ++ ascii " ::: Inference= " ++ ascii (toString count) ++ ascii " ::: Time= " ++
    ascii (toString e.uTime) ++ ascii " microseconds ::: ModelId=" ++ cString modelId ++ ascii " ::: Version:" ++
    cString e.modelVersion ++ ascii " ::: Success=" ++ ascii (if inferenceSuccess then "true" else "false") ++
    ascii " ::: Source=cpp"

def exitInference (s : Sdk) (modelId inferId : Bytes) (inferenceSuccess : Bool) (e : ExitCall) : Option Sdk :=
  if s.initializeSuccess = false then some s
  else do
    let metric ← dumpObject (inferMetric s.inferenceCount modelId inferId inferenceSuccess e)
    let s ← s.logMetrics (ascii "inference") metric e.metric
    s.log .logger (ascii "DEBUG:::") (exitLine s.inferenceCount modelId inferId inferenceSuccess e) e.debug

/- A run of ONNXModel::get_inference: the texts it logs before and behind the metric of the
preprocessing, and whether it comes to that metric. -/
structure ModelCall where
  version : Bytes
  before : List (Bytes × WriteCall)
  preprocessed : Bool
  uTime : Int
  metric : WriteCall
  behind : List (Bytes × WriteCall)
  status : Int

def preprocessingMetric (modelId inferId : Bytes) (run : ModelCall) : Object :=
  [("inferenceId",.string inferId),("modelId",.string modelId),("modelVersion",.string run.version),
    ("source",.string (ascii "preprocessor")),("uTime",.integer run.uTime)]

def logErrors (s : Sdk) (messages : List (Bytes × WriteCall)) : Option Sdk :=
  messages.foldlM (fun s message => s.log .logger (ascii "ERROR:::") message.1 message.2) s

def runModel (s : Sdk) (modelId inferId : Bytes) (run : ModelCall) : Option Sdk := do
  let s ← logErrors s run.before
  let s ← if run.preprocessed then do
      let metric ← dumpObject (preprocessingMetric modelId inferId run)
      s.logMetrics (ascii "inference") metric run.metric
    else some s
  logErrors s run.behind

structure InferenceCall where
  loaded : Option ModelCall
  notFound : WriteCall
  exit : ExitCall

def notFoundLine (modelId inferId : Bytes) : Bytes :=
  ascii "Inference Id:" ++ cString inferId ++ ascii ", Model not found " ++ cString modelId

def getInference (s : Sdk) (modelId inferId : Bytes) (c : InferenceCall) : Option Sdk :=
  if s.initializeSuccess = false then some s
  else
    let s := {s with inferenceCount := s.inferenceCount + 1}
    match c.loaded with
    | some run => do
        let s ← runModel s modelId inferId run
        if run.status ≠ SUCCESS then exitInference s modelId inferId false c.exit else some s
    | none => do
        let s ← s.log .logger (ascii "ERROR:::") (notFoundLine modelId inferId) c.notFound
        exitInference s modelId inferId false c.exit

/- The calls of the host, the lines that other code logs, and the two uploads that end an
iteration of perform_long_running_tasks: calls of the host come between all of these. -/
inductive Action where
  | writeLog (log : Bytes) (c : WriteCall)
  | writeMetric (metricType metricJson : Bytes) (c : WriteCall)
  | getInference (modelId inferId : Bytes) (c : InferenceCall)
  | exitInference (modelId inferId : Bytes) (success : Bool) (e : ExitCall)
  | task (which : Agent) (type message : Bytes) (c : WriteCall)
  | sendPendingLogs (which : Agent) (c : SendCall)

def step (s : Sdk) : Action → Option Sdk
  | .writeLog log c => if s.initializeSuccess then s.log .metricsAgent (ascii "OUTSIDE:::") (cString log) c else some s
  | .writeMetric metricType metricJson c => if s.initializeSuccess then s.logMetrics metricType metricJson c else some s
  | .getInference modelId inferId c => getInference s (cString modelId) (cString inferId) c
  | .exitInference modelId inferId success e => exitInference s (cString modelId) (cString inferId) success e
  | .task which type line c => s.log which type line c
  | .sendPendingLogs which c => s.sendPendingLogs which c

def ExitFits (count : Int) (modelId inferId : Bytes) (success : Bool) (e : ExitCall) : Prop :=
  (∀ metric ∈ dumpObject (inferMetric count modelId inferId success e), Formats (Sdk.metricLine (ascii "inference") metric)) ∧
    Formats (exitLine count modelId inferId success e)

def ModelFits (modelId inferId : Bytes) (run : ModelCall) : Prop :=
  (∀ message ∈ run.before, Formats message.1) ∧
    (run.preprocessed = true → ∀ metric ∈ dumpObject (preprocessingMetric modelId inferId run),
      Formats (Sdk.metricLine (ascii "inference") metric)) ∧
    ∀ message ∈ run.behind, Formats message.1

def InferenceFits (count : Int) (modelId inferId : Bytes) (c : InferenceCall) : Prop :=
  match c.loaded with
  | some run => ModelFits modelId inferId run ∧ (run.status ≠ SUCCESS → ExitFits count modelId inferId false c.exit)
  | none => Formats (notFoundLine modelId inferId) ∧ ExitFits count modelId inferId false c.exit

def SendFits (s : Sdk) (which : Agent) (c : SendCall) (fileName : String) : Prop :=
  (s.agents which).readLogs c.opens fileName ≠ [] → Formats (Sdk.answerLine c)

def PendingFits (s : Sdk) (which : Agent) (c : SendCall) : Prop :=
  c.due = true →
    match Logger.getNewFileToSendLog c.entries with
    | some fileName => SendFits s which c fileName
    | none => (s.agents which).isWorthSending c.initComplete = true →
        SendFits (s.update which (LogAgent.moveAway c.reopening c.newFileName)) which c c.newFileName

def Fits (s : Sdk) : Action → Prop
  | .writeLog log _ => s.initializeSuccess = true → Formats (cString log)
  | .writeMetric metricType metricJson _ => s.initializeSuccess = true → Formats (Sdk.metricLine metricType metricJson)
  | .getInference modelId inferId c => s.initializeSuccess = true →
      InferenceFits (s.inferenceCount + 1) (cString modelId) (cString inferId) c
  | .exitInference modelId inferId success e => s.initializeSuccess = true →
      ExitFits s.inferenceCount (cString modelId) (cString inferId) success e
  | .task _ _ line _ => Formats line
  | .sendPendingLogs which c => PendingFits s which c

section Steps
variable {s : Sdk}

theorem uploadsUtf8 (config : LoggingConfig) (logs : List Bytes) :
    ∃ body headers, LogAgent.uploadLogs config logs = some (body,headers) ∧ Utf8 body ∧ Utf8 headers := by
  obtain ⟨body,dumped,first⟩ := dumpArrayUtf8 (logs.map (LogAgent.bodyEntry config))
  obtain ⟨headers,dumped',second⟩ := dumpObjectUtf8 (LogAgent.header config)
  exact ⟨body,headers,by rw [LogAgent.uploadLogs,dumped,dumped']; rfl,first,second⟩

end Steps

def quiet : WriteCall := ⟨ascii "2024-01-01 00:00:00:0","log.txt",⟨true,some 0⟩⟩

def freshAgent : LogAgent := ⟨(∅ : StdMap Bytes).insert Logger.writeFile [],some 0,⟨[],[],[],[]⟩⟩

def fresh : Sdk := ⟨fun _ => freshAgent,true,0⟩

def letters (n : Nat) : Bytes := List.replicate n 97

def upload : Action := .sendPendingLogs .metricsAgent ⟨true,false,[Logger.writeFile],"log.txt",⟨true,some 0⟩,true,true,202,[],quiet⟩

example : (run step fresh [.exitInference (ascii "model") [0xFF] true ⟨none,7,quiet,quiet⟩,.writeLog [0xFF] quiet,upload]).isSome =
    true := by decide +kernel

end NimbleNet.UncaughtExceptions
