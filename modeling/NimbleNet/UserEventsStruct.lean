import NimbleNet.Json

/-! Rows, events and preprocessor descriptions of the user-event store. A string
is kept as its characters; a std::map with string keys is an ordered map. -/
namespace NimbleNet

abbrev StdMap (β : Type) := Std.ExtTreeMap String β

structure TableRow where
  timestamp : Int
  row : StdMap String
  deriving DecidableEq

structure TableEvent where
  groups : List String
  timestamp : Int
  row : List String
  deriving DecidableEq, Repr, Inhabited

namespace TableEvent

-- The two reads of a vector by a stored index; both indices are in range in
-- every reachable table store.
def groupAt (e : TableEvent) (preprocessorId : Nat) : String := e.groups.getD preprocessorId ""
def columnAt (e : TableEvent) (columnId : Nat) : String := e.row.getD columnId ""

end TableEvent

inductive ElementType where
  | float | double | int64 | int32
  deriving DecidableEq, Repr

class Scalar (T : Type) extends Add T, Sub T, Max T, Min T, Zero T, One T where
  decEq : DecidableEq T
  getAs : String → T
  divCount : T → Int → T
  ofJson : Json → Option T

instance {T : Type} [Scalar T] : DecidableEq T := Scalar.decEq

/- `stringstream >> t` for an integer type: leading blanks, a sign, then the
longest run of digits; with no digit at all the target becomes 0. -/
def leadingNat (digits : List Char) : Nat :=
  (digits.takeWhile Char.isDigit).foldl (fun n c => 10 * n + (c.toNat - '0'.toNat)) 0

def isSpace (c : Char) : Bool := c.toNat == 32 || (9 ≤ c.toNat && c.toNat ≤ 13)

def leadingInt (text : List Char) : Int :=
  match text.dropWhile isSpace with
  | '-' :: digits => -(leadingNat digits : Int)
  | '+' :: digits => leadingNat digits
  | digits => leadingNat digits

/- int64_t in exact arithmetic; the division truncates. Blank text, of which
GetAs returns a variable without a value, reads as 0; so does a quotient by 0, which ends
the process. -/
instance : Scalar Int where
  decEq := inferInstance
  getAs s := leadingInt s.toList
  divCount := Int.tdiv
  ofJson := Json.getInt64

abbrev IntValues : ElementType → Type := fun _ => Int

structure Operation (T : Type) where
  columnName : String
  operator : String
  default : T
  deriving DecidableEq, Repr

structure PreProcessorInfo (T : Type) where
  rollingWindowsInSecs : List ℚ
  operations : List (Operation T)
  groupColumns : List String
  tableName : String
  deriving DecidableEq, Repr

namespace PreProcessorInfo
variable {T : Type}

def columnsToAggregate (info : PreProcessorInfo T) : List String := info.operations.map Operation.columnName
def defaultVector (info : PreProcessorInfo T) : List T := info.operations.map Operation.default

variable [Scalar T]

def readOperation (j : Json) : Option (Operation T) := do
  let columnName ← (← j.find? "columnName").getString
  let operator ← (← j.find? "operator").getString
  let default ← Scalar.ofJson (← j.find? "default")
  some ⟨columnName,operator,default⟩

/- `from_json`; `none` when the result is left with valid == false, through an
early return or an exception. -/
def fromJson (j : Json) : Option (PreProcessorInfo T) := do
  let windows ← (← j.find? "rollingWindowsInSecs").getList Json.getFloat32
  let operations ← (← j.find? "operations").getList readOperation
  let tableName ← match j.find? "tableName" with
    | some name => name.getString
    | none => some ""
  let groupColumns ← (← j.find? "groupBy").getList Json.getString
  some ⟨windows,operations,groupColumns,tableName⟩

end PreProcessorInfo

structure TableInfo where
  name : String
  schema : StdMap String
  expiryTimeInMins : Int
  deriving DecidableEq

namespace TableInfo

def fromJson (j : Json) : Option TableInfo := do
  let name ← (← j.find? "tableName").getString
  let schema ← match ← j.find? "schema" with
    | .object fields => fields.mapM (fun (key,value) => value.getString.map (key,·))
    | _ => none
  let expiry ← (← j.find? "expiryInMins").getInt64
  some ⟨name,.ofList schema,expiry⟩

end TableInfo

structure ModelInput (T : Type) where
  data : List T
  length : Int
  deriving DecidableEq, Repr

end NimbleNet
