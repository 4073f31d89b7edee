import NimbleNet.MachineNumbers

/-! The part of nlohmann::json that the SDK reads and writes. A document is kept
as a value; its text form belongs to the callers that need one. `none` stands
for the json::exception that the library would throw. -/
namespace NimbleNet

inductive Json where
  | null
  | boolean (b : Bool)
  | integer (z : Int)
  | real (x : ℚ)
  | string (s : String)
  | array (items : List Json)
  | object (fields : List (String × Json))
  deriving Repr

namespace Json
open MachineNumbers

def find? : Json → String → Option Json
  | object fields,key => fields.lookup key
  | _,_ => none

/- `j.items()`: the members of an object, the elements of an array under their
positions, and a scalar as its own only member under the empty key. -/
def items : Json → List (String × Json)
  | null => []
  | array items => items.zipIdx.map (fun (item,position) => (toString position,item))
  | object fields => fields
  | scalar => [("",scalar)]

/- `j[key]` on a value that is not const: an object or null gives the member
(null when it is new), every other value throws type_error. -/
def member : Json → String → Option Json
  | object fields,key => some ((fields.lookup key).getD null)
  | null,_ => some null
  | _,_ => none

def getString : Json → Option String
  | string s => some s
  | _ => none

def getNumber : Json → Option Int
  | integer z => some z
  | real x => some (x.num.tdiv x.den)
  | _ => none

def getInt64 (j : Json) : Option Int := j.getNumber.map wrap64
def getUInt64 (j : Json) : Option Int := j.getNumber.map (· % 2 ^ 64)

/- The arithmetic types that are not the library's own also read a boolean. -/
def getInt32 : Json → Option Int
  | boolean b => some (if b then 1 else 0)
  | j => j.getNumber.map wrap32

def getFloat32 : Json → Option ℚ
  | integer z => some (toFloat32 z)
  | real x => some (toFloat32 x)
  | boolean b => some (if b then 1 else 0)
  | _ => none

def getArray : Json → Option (List Json)
  | array items => some items
  | _ => none

def getList {α : Type} (element : Json → Option α) (j : Json) : Option (List α) :=
  j.getArray.bind (fun items => items.mapM element)

end Json
end NimbleNet
