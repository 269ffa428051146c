import Nublado.Foundations.Numbers

/-!
# JSON values

What `json.loads` returns. Objects are dictionaries, with their items in order.
-/

namespace Nublado

/-- A decoded JSON value. -/
inductive Json
  | null
  | bool (b : Bool)
  | number (x : FloatValue)
  | string (s : String)
  | array (elements : List Json)
  | object (items : List (String × Json))

namespace Json

/-- The items of an object; absent where the value is none. -/
def items : Json → Option (List (String × Json))
  | object items => some items
  | _ => none

/-- `value[key]`; absent where an exception is raised, for other values than objects too. -/
def get (value : Json) (key : String) : Option Json := value.items.bind fun items ↦ items.lookup key

/-- The text of a string. -/
def text : Json → Option String
  | string s => some s
  | _ => none

/-- `bool(value)` -/
def truthy : Json → Bool
  | null => false
  | bool b => b
  | number x => x ≠ .finite 0
  | string s => s ≠ ""
  | array elements => !elements.isEmpty
  | object items => !items.isEmpty

/-- `"".join(value)`; absent where it raises an exception. -/
def join : Json → Option String
  | string s => some s
  | array elements => (elements.mapM text).map String.join
  | object items => some (String.join (items.map Prod.fst))
  | _ => none

theorem text_eq_some {value : Json} {s : String} : value.text = some s ↔ value = string s := by
  constructor
  · intro h
    cases value with
    | string t => rw [Option.some.inj h]
    | null | bool b | number x | array elements | object items => cases h
  · rintro rfl
    rfl

end Json

end Nublado
