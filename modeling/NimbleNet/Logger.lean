import NimbleNet.UserEventsStruct

/-! The logger: it appends to latest.txt, moves that file away when it is full or when
it is sent, and removes a file once it was uploaded. The file system, the clock and the
upload are arguments. -/
namespace NimbleNet

/- `number` tells the lines apart and is not in the file. -/
structure Line where
  number : Nat
  text : String
  deriving DecidableEq

structure ClockReading where
  rawtime : Int
  microseconds : Int

structure Reopening where
  renames : Bool
  reopens : Option Nat

structure Sending where
  fileName : String
  logs : List Line
  didSend : Bool

/- `writeFilePtr`: null, or what ftell tells of the open file. The files of the log
directory are under their names. Times are in nanoseconds, the interval in seconds. -/
structure Logger where
  files : StdMap (List Line)
  writeFilePtr : Option Nat
  lastLogTime : Int
  timerInterval : Int

namespace Logger

abbrev writeFile : String := "latest.txt"

def getNewFileToSendLog (entries : List String) : Option String := entries.find? (· ≠ writeFile)

-- `localTime`: strftime of localtime
def getStringDate (localTime : Int → String) (now : ClockReading) : String :=
  localTime now.rawtime ++ ":" ++ toString (now.microseconds.tdiv 1000)

def newFileName (localTime : Int → String) (now : ClockReading) : String :=
  "log" ++ getStringDate localTime now ++ ".txt"

def linesIn (l : Logger) (fileName : String) : List Line := l.files.getD fileName []

def bytes (lines : List Line) : Nat := (lines.map (fun line => line.text.utf8ByteSize + 1)).sum

def numbered (first : Nat) (text : String) : List Line :=
  ((text.toList.splitOn '\n').zipIdx first).map (fun (line,number) => ⟨number,String.ofList line⟩)

def entry (localTime : Int → String) (now : ClockReading) (message type : String) : String :=
  type ++ " " ++ getStringDate localTime now ++ " ::: " ++ message

def moveAway (o : Reopening) (fileName : String) (l : Logger) : Logger :=
  let files := match l.files[writeFile]? with
    | some lines => if o.renames then (l.files.erase writeFile).insert fileName lines else l.files
    | none => l.files
  {l with
    files := if o.reopens.isSome then files.insertIfNew writeFile [] else files
    writeFilePtr := o.reopens}

-- `(float)size / 1024 > 500`, which is the same in floats
def isFull (lines : List Line) : Bool := 500 * 1024 < bytes lines

def append (lines : List Line) (l : Logger) : Logger :=
  {l with
    files := l.files.insert writeFile (l.linesIn writeFile ++ lines)
    writeFilePtr := some (bytes (l.linesIn writeFile ++ lines))}

/- `first`: the number of the first line. The clock is read once for the entry and once
for the name of a full file. -/
def writeLog (localTime : Int → String) (now later : ClockReading) (o : Reopening) (first : Nat) (message type : String)
    (l : Logger) : Logger :=
  match l.writeFilePtr with
  | none => l
  | some _ =>
      let l' := l.append (numbered first (entry localTime now message type))
      if isFull (l'.linesIn writeFile) then l'.moveAway o (newFileName localTime later) else l'

structure SendCall where
  timeNow : Int
  entries : List String
  now : ClockReading
  reopening : Reopening
  opens : Bool
  removes : Bool
  timeAfter : Int

def remove (removes : Bool) (fileName : String) (l : Logger) : Logger :=
  if removes then {l with files := l.files.erase fileName} else l

def readLogs (opens : Bool) (fileName : String) (l : Logger) : List Line := if opens then l.linesIn fileName else []

/- send_logs up to the upload: without lines the file is removed at once. -/
def sendLogs (c : SendCall) (fileName : String) (l : Logger) : Logger × Option Sending :=
  if l.readLogs c.opens fileName = [] then ({l.remove c.removes fileName with lastLogTime := c.timeAfter},none)
  else (l,some ⟨fileName,l.readLogs c.opens fileName,false⟩)

def isDue (timeNow : Int) (l : Logger) : Bool := l.timerInterval < (timeNow - l.lastLogTime).tdiv 1000000000

def isWorthSending (initComplete : Bool) (l : Logger) : Bool :=
  match l.writeFilePtr with
  | none => false
  | some position => !initComplete || 1000 < position

def sendPendingLogs (localTime : Int → String) (c : SendCall) (initComplete : Bool) (l : Logger) :
    Logger × Option Sending :=
  if l.isDue c.timeNow then
    match getNewFileToSendLog c.entries with
    | some fileName => l.sendLogs c fileName
    | none =>
        if l.isWorthSending initComplete then
          (l.moveAway c.reopening (newFileName localTime c.now)).sendLogs c (newFileName localTime c.now)
        else (l,none)
  else (l,none)

end Logger
end NimbleNet
