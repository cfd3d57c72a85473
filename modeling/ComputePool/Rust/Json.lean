import Mathlib

/-!
# JSON documents

`serde_json::Value` and the accessors the modelled code calls on it.
-/

namespace RustStd

/-- `serde_json::Number`; a float is kept as its IEEE bits. -/
inductive JsonNumber where
  | posInt (n : Nat)
  | negInt (n : Int)
  | float (bits : UInt64)
  deriving DecidableEq

/-- `serde_json::Value`. -/
inductive Json where
  | null
  | bool (b : Bool)
  | number (n : JsonNumber)
  | string (s : String)
  | array (items : List Json)
  | object (members : List (String × Json))

namespace Json

instance : Inhabited Json := ⟨null⟩

/-- `Value::is_null`. -/
def isNull : Json → Bool
  | null => true
  | _ => false

/-- `Value::get(key)`: the member of an object, nothing on any other value. -/
def get (key : String) : Json → Option Json
  | object members => (members.find? fun m => m.1 == key).map Prod.snd
  | _ => none

/-- `Value::as_str`. -/
def asStr : Json → Option String
  | string s => some s
  | _ => none

/-- `Value::as_u64`: an integer that is not negative, and no float. -/
def asU64 : Json → Option Nat
  | number (.posInt n) => some n
  | _ => none

/-- `Value::as_array`. -/
def asArray : Json → Option (List Json)
  | array items => some items
  | _ => none

end Json

end RustStd
