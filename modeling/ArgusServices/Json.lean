import ArgusServices.Store
import Mathlib.Data.Rat.Defs

namespace ArgusServices

/-- A Python float by its value; the two zeros are one. -/
inductive PyFloat
  | finite (value : Rat)
  | infinite (negative : Bool)
  | nan
  deriving DecidableEq

/-- What `json.loads` returns. -/
inductive Json
  | null
  | bool (b : Bool)
  | int (n : Int)
  | float (x : PyFloat)
  | str (s : String)
  | arr (items : List Json)
  | obj (members : List (String × Json))

/-- `bool(value)`. -/
def Json.truthy : Json → Bool
  | .null => false
  | .bool b => b
  | .int n => n ≠ 0
  | .float x => x ≠ .finite 0
  | .str s => s ≠ ""
  | .arr items => !items.isEmpty
  | .obj members => !members.isEmpty

/-- `type(value).__name__`. -/
def Json.typeName : Json → String
  | .null => "NoneType"
  | .bool _ => "bool"
  | .int _ => "int"
  | .float _ => "float"
  | .str _ => "str"
  | .arr _ => "list"
  | .obj _ => "dict"

/-- `value.get(key, default)`, which only an object has. -/
def Json.get (value : Json) (key : String) (default : Json) : Except Exn Json :=
  match value with
  | .obj members => .ok ((members.lookup key).getD default)
  | value => .error (.attributeError ("'" ++ value.typeName ++ "' object has no attribute 'get'"))

/-- `value[0]`; the key 0 is in no object. -/
def Json.first : Json → Except Exn Json
  | .arr (item :: _) => .ok item
  | .arr [] => .error (.indexError "list index out of range")
  | .str s =>
    match s.toList with
    | c :: _ => .ok (.str (String.singleton c))
    | [] => .error (.indexError "string index out of range")
  | .obj _ => .error (.keyError "0")
  | value => .error (.typeError ("'" ++ value.typeName ++ "' object is not subscriptable"))

end ArgusServices
