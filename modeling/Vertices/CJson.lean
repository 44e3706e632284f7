/-
# `Vertices.CJson` — the part of cJSON's interface the SDK reads

The parser itself is outside the repository: `cJSON_Parse` is a parameter of every
function that calls it, a function from the text in the receive buffer to the tree
or to a null pointer.
-/
import Vertices.Types

namespace Vertices

/-- A `cJSON` item.  A number is its `valuedouble`. -/
inductive CJson where
  | null
  | bool (b : Bool)
  | number (valuedouble : Rat)
  | string (valuestring : CStr)
  | array (items : List CJson)
  | object (members : List (CStr × CJson))

namespace CJson

/-- `cJSON_GetObjectItemCaseSensitive`: the first member of that name.  The items of
an array have no name, other items no children. -/
def getObjectItemCaseSensitive (name : String) : CJson → Option CJson
  | .object members => (members.find? fun m => m.1.bytes == lit name).map Prod.snd
  | _ => none

theorem getObjectItem_head {name : String} {key : CStr} (value : CJson) (members : List (CStr × CJson))
    (h : key.bytes = lit name) :
    (object ((key, value) :: members)).getObjectItemCaseSensitive name = some value := by
  have hfirst : (key.bytes == lit name) = true := beq_iff_eq.mpr h
  rw [getObjectItemCaseSensitive, List.find?_cons, hfirst]
  rfl

theorem getObjectItem_tail {name : String} {key : CStr} (value : CJson) (members : List (CStr × CJson))
    (h : key.bytes ≠ lit name) :
    (object ((key, value) :: members)).getObjectItemCaseSensitive name =
      (object members).getObjectItemCaseSensitive name := by
  have hfirst : (key.bytes == lit name) = false := beq_eq_false_iff_ne.mpr h
  rw [getObjectItemCaseSensitive, List.find?_cons, hfirst]
  rfl

/-- `valuestring`, where `cJSON_IsString`. -/
def valuestring? : CJson → Option CStr
  | .string s => some s
  | _ => none

/-- `valuedouble`, where `cJSON_IsNumber`. -/
def valuedouble? : CJson → Option Rat
  | .number value => some value
  | _ => none

/-- The `valueint` that goes with a `valuedouble`: its whole part, or the bound that it
exceeds. -/
def toValueint (valuedouble : Rat) : Int32 :=
  let n := valuedouble.num.tdiv valuedouble.den
  if 2147483647 ≤ n then Int32.maxValue
  else if n ≤ -2147483648 then Int32.minValue
  else Int32.ofInt n

/-- The string member `name`. -/
def stringItem (json : CJson) (name : String) : Option CStr :=
  (json.getObjectItemCaseSensitive name).bind valuestring?

/-- The number member `name`, as it stands in the text. -/
def doubleItem (json : CJson) (name : String) : Option Rat :=
  (json.getObjectItemCaseSensitive name).bind valuedouble?

/-- `valueint` of the number member `name`. -/
def numberItem (json : CJson) (name : String) : Option Int32 := (json.doubleItem name).map toValueint

end CJson

/-- `cJSON_Parse`; `none` is a null pointer. -/
abbrev CJsonParse := CStr → Option CJson

/-- The cast of an `int` to `uint64_t`. -/
def intToUInt64 (n : Int32) : UInt64 := n.toInt64.toUInt64

/-- The cast of an `int` to `unsigned int`. -/
def intToUInt32 (n : Int32) : UInt32 := n.toUInt32

end Vertices
