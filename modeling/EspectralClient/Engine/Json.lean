/-
JSON values as the engine holds them after parsing, and the typed reads its records derive: a missing or null optional
field is absent, a value of another type is an error.
-/
import EspectralClient.Lib.IndexMap

namespace EspectralClient

open Lib

/-- a parsed JSON value; an integer fits `u64` or `i64`, any other number is a double given by its bits -/
inductive Json where
  | null
  | bool (b : Bool)
  | int (n : ℤ)
  | double (bits : UInt64)
  | str (s : String)
  | arr (items : List Json)
  | obj (fields : List (String × Json))
deriving Repr

namespace Json

def asU32 : Json → Option ℕ
  | .int n => if 0 ≤ n ∧ n < 2 ^ 32 then some n.toNat else none
  | _ => none

def asI64 : Json → Option ℤ
  | .int n => if -2 ^ 63 ≤ n ∧ n < 2 ^ 63 then some n else none
  | _ => none

def asStr : Json → Option String
  | .str s => some s
  | _ => none

def asBool : Json → Option Bool
  | .bool b => some b
  | _ => none

def asArray : Json → Option (List Json)
  | .arr items => some items
  | _ => none

def asObject : Json → Option (IndexMap String Json)
  | .obj fields => some (.ofList fields)
  | _ => none

def isNull : Json → Bool
  | .null => true
  | _ => false

/-- `Value::get` with a key; only an object has any -/
def get? (v : Json) (key : String) : Option Json := v.asObject.bind (·.get? key)

@[simp] theorem get?_obj (m : IndexMap String Json) (key : String) : (obj m.entries).get? key = m.get? key := by
  simp only [get?, asObject, Option.bind_some, IndexMap.get?_ofList]
  rfl

theorem get?_getD_asObject (v : Json) (key : String) : (v.asObject.getD .empty).get? key = v.get? key := by
  unfold get?
  cases v.asObject <;> simp

/-- an optional field of an object; the outer `none` is a value of the wrong type -/
def optField {α : Type} (read : Json → Option α) (fields : List (String × Json)) (name : String) : Option (Option α) :=
  match Assoc.get? name fields with
  | none | some .null => some none
  | some v => (read v).map some

/-- a field with a default for when it is missing -/
def defaultField {α : Type} (read : Json → Option α) (default : α) (fields : List (String × Json)) (name : String) :
    Option α :=
  match Assoc.get? name fields with
  | none => some default
  | some v => read v

end Json

end EspectralClient
