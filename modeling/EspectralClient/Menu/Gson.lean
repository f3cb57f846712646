/-
Gson's tree of a JSON document, as the mod holds it: strings are Java strings, so that a tree can hold text no file has.

- `encode`, `decode`: a document of the engine as a tree, and the document a tree is written as, if its strings have an
  encoding.
- `decode_encode`, `encode_of_decode`: the two directions.
- `stripped`: the tree as it is written, without the fields that are null.
-/
import EspectralClient.Engine.Json
import EspectralClient.Lib.MapMerge
import EspectralClient.Lib.Utf16

namespace EspectralClient.Gson

open Lib

/-- a number by its value -/
inductive Number where
  | int (n : ℤ)
  | double (bits : UInt64)
deriving DecidableEq, Repr

inductive JsonElement where
  | null
  | bool (b : Bool)
  | num (n : Number)
  | str (s : JavaString)
  | arr (items : List JsonElement)
  | obj (fields : List (JavaString × JsonElement))

abbrev JsonObject := IndexMap JavaString JsonElement

namespace JsonElement

def object (m : JsonObject) : JsonElement := .obj m.entries

def asObject : JsonElement → Option JsonObject
  | .obj fields => some (.ofList fields)
  | _ => none

def asArray : JsonElement → Option (List JsonElement)
  | .arr items => some items
  | _ => none

def asBool : JsonElement → Option Bool
  | .bool b => some b
  | _ => none

def isNull : JsonElement → Bool
  | .null => true
  | _ => false

def isPrimitive : JsonElement → Bool
  | .bool _ | .num _ | .str _ => true
  | _ => false

@[simp] theorem asObject_object (m : JsonObject) : (object m).asObject = some m := by simp [object, asObject]

theorem asObject_eq {v : JsonElement} {m : JsonObject} (h : v.asObject = some m) :
    ∃ fields, v = .obj fields ∧ m = .ofList fields := by
  cases v with
  | obj fields => exact ⟨fields, rfl, (Option.some.inj h).symm⟩
  | _ => cases h

end JsonElement

/-- the object under a key, if there is one -/
def objectAt (m : JsonObject) (k : JavaString) : Option JsonObject := (m.get? k).bind JsonElement.asObject

/-! ## Documents of the engine -/

mutual

def encode : Json → JsonElement
  | .null => .null
  | .bool b => .bool b
  | .int n => .num (.int n)
  | .double bits => .num (.double bits)
  | .str s => .str (Utf16.encode s)
  | .arr items => .arr (encodeItems items)
  | .obj fields => .obj (encodeFields fields)

def encodeItems : List Json → List JsonElement
  | [] => []
  | v :: rest => encode v :: encodeItems rest

def encodeFields : List (String × Json) → List (JavaString × JsonElement)
  | [] => []
  | (k, v) :: rest => (Utf16.encode k, encode v) :: encodeFields rest

end

mutual

def decode : JsonElement → Option Json
  | .null => some .null
  | .bool b => some (.bool b)
  | .num (.int n) => some (.int n)
  | .num (.double bits) => some (.double bits)
  | .str s => (Utf16.decode s).map .str
  | .arr items => (decodeItems items).map .arr
  | .obj fields => (decodeFields fields).map .obj

def decodeItems : List JsonElement → Option (List Json)
  | [] => some []
  | v :: rest => (decode v).bind fun w => (decodeItems rest).map fun ws => w :: ws

def decodeFields : List (JavaString × JsonElement) → Option (List (String × Json))
  | [] => some []
  | (k, v) :: rest =>
    (Utf16.decode k).bind fun key => (decode v).bind fun w => (decodeFields rest).map fun fields => (key, w) :: fields

end

mutual

theorem decode_encode : ∀ v : Json, decode (encode v) = some v
  | .null => rfl
  | .bool _ => rfl
  | .int _ => rfl
  | .double _ => rfl
  | .str s => by rw [encode, decode, Utf16.decode_encode, Option.map_some]
  | .arr items => by rw [encode, decode, decodeItems_encodeItems items, Option.map_some]
  | .obj fields => by rw [encode, decode, decodeFields_encodeFields fields, Option.map_some]

theorem decodeItems_encodeItems : ∀ items : List Json, decodeItems (encodeItems items) = some items
  | [] => rfl
  | v :: rest => by
    rw [encodeItems, decodeItems, decode_encode v, Option.bind_some, decodeItems_encodeItems rest, Option.map_some]

theorem decodeFields_encodeFields : ∀ fields : List (String × Json), decodeFields (encodeFields fields) = some fields
  | [] => rfl
  | (k, v) :: rest => by
    rw [encodeFields, decodeFields, Utf16.decode_encode, Option.bind_some, decode_encode v, Option.bind_some,
      decodeFields_encodeFields rest, Option.map_some]

end

mutual

theorem encode_of_decode : ∀ (e : JsonElement) (v : Json), decode e = some v → encode v = e
  | .null, v, h => by cases h; rfl
  | .bool _, v, h => by cases h; rfl
  | .num (.int _), v, h => by cases h; rfl
  | .num (.double _), v, h => by cases h; rfl
  | .str s, v, h => by
    obtain ⟨t, ht, rfl⟩ := Option.map_eq_some_iff.1 h
    rw [encode, Utf16.encode_decode ht]
  | .arr items, v, h => by
    obtain ⟨vs, hvs, rfl⟩ := Option.map_eq_some_iff.1 h
    rw [encode, encodeItems_of_decodeItems items vs hvs]
  | .obj fields, v, h => by
    obtain ⟨fs, hfs, rfl⟩ := Option.map_eq_some_iff.1 h
    rw [encode, encodeFields_of_decodeFields fields fs hfs]

theorem encodeItems_of_decodeItems : ∀ (items : List JsonElement) (vs : List Json), decodeItems items = some vs →
    encodeItems vs = items
  | [], vs, h => by cases h; rfl
  | e :: rest, vs, h => by
    obtain ⟨w, hw, h⟩ := Option.bind_eq_some_iff.1 h
    obtain ⟨ws, hws, rfl⟩ := Option.map_eq_some_iff.1 h
    rw [encodeItems, encode_of_decode e w hw, encodeItems_of_decodeItems rest ws hws]

theorem encodeFields_of_decodeFields : ∀ (fields : List (JavaString × JsonElement)) (fs : List (String × Json)),
    decodeFields fields = some fs → encodeFields fs = fields
  | [], fs, h => by cases h; rfl
  | (k, e) :: rest, fs, h => by
    obtain ⟨key, hkey, h⟩ := Option.bind_eq_some_iff.1 h
    obtain ⟨w, hw, h⟩ := Option.bind_eq_some_iff.1 h
    obtain ⟨gs, hgs, rfl⟩ := Option.map_eq_some_iff.1 h
    rw [encodeFields, Utf16.encode_decode hkey, encode_of_decode e w hw, encodeFields_of_decodeFields rest gs hgs]

end

theorem encodeItems_eq (items : List Json) : encodeItems items = items.map encode := by
  induction items with
  | nil => rfl
  | cons v rest ih => rw [encodeItems, ih, List.map_cons]

theorem encodeFields_eq (fields : List (String × Json)) :
    encodeFields fields = fields.map fun p => (Utf16.encode p.1, encode p.2) := by
  induction fields with
  | nil => rfl
  | cons p rest ih =>
    obtain ⟨k, v⟩ := p
    rw [encodeFields, ih, List.map_cons]

theorem get?_encodeFields (k : String) (fields : List (String × Json)) :
    Assoc.get? (Utf16.encode k) (encodeFields fields) = (Assoc.get? k fields).map encode := by
  induction fields with
  | nil => rfl
  | cons p rest ih =>
    obtain ⟨k', v⟩ := p
    rw [encodeFields, Assoc.get?_cons, Assoc.get?_cons, ih]
    by_cases h : k' = k
    · simp [h]
    · have hne : Utf16.encode k' ≠ Utf16.encode k := fun heq => h (Utf16.encode_inj.1 heq)
      simp [h, hne]

theorem encodeFields_key {k : JavaString} {e : JsonElement} {fields : List (String × Json)}
    (h : Assoc.get? k (encodeFields fields) = some e) : ∃ key, k = Utf16.encode key := by
  have hmem := Assoc.mem_of_get? h
  rw [encodeFields_eq] at hmem
  obtain ⟨p, -, hp⟩ := List.mem_map.1 hmem
  exact ⟨p.1, (congrArg Prod.fst hp).symm⟩

theorem nodup_encodeFields {fields : List (String × Json)} (h : (fields.map Prod.fst).Nodup) :
    ((encodeFields fields).map Prod.fst).Nodup := by
  rw [encodeFields_eq, List.map_map]
  have hkeys : (Prod.fst ∘ fun p : String × Json => (Utf16.encode p.1, encode p.2)) = Utf16.encode ∘ Prod.fst := rfl
  rw [hkeys, ← List.map_map]
  exact h.map fun _ _ heq => Utf16.encode_inj.1 heq

/-- an object of the engine as the mod reads it -/
def encodeObject (m : IndexMap String Json) : JsonObject := ⟨encodeFields m.entries, nodup_encodeFields m.nodup⟩

theorem get?_encodeObject (m : IndexMap String Json) (k : String) :
    (encodeObject m).get? (Utf16.encode k) = (m.get? k).map encode := get?_encodeFields k m.entries

theorem ofList_encodeFields (fields : List (String × Json)) :
    IndexMap.ofList (encodeFields fields) = encodeObject (.ofList fields) := by
  induction fields with
  | nil => rfl
  | cons p rest ih =>
    obtain ⟨k, v⟩ := p
    apply IndexMap.ext_entries
    have hremove : ∀ l : List (String × Json), Assoc.remove (Utf16.encode k) (encodeFields l) =
        encodeFields (Assoc.remove k l) := by
      intro l
      rw [encodeFields_eq, encodeFields_eq, Assoc.remove, Assoc.remove, List.filter_map]
      have hkey : ∀ q : String × Json, decide (Utf16.encode q.1 ≠ Utf16.encode k) = decide (q.1 ≠ k) := by
        intro q
        simp only [ne_eq, Utf16.encode_inj]
      simp only [Function.comp_def, hkey]
    simp only [encodeFields, IndexMap.ofList, ih]
    exact congrArg _ (hremove _)

theorem asObject_encode (v : Json) : (encode v).asObject = v.asObject.map encodeObject := by
  cases v with
  | obj fields =>
    rw [encode, JsonElement.asObject, Json.asObject, Option.map_some, ofList_encodeFields]
  | _ => rfl

/-! ## Written trees -/

mutual

/-- without the fields that are null -/
def stripped : JsonElement → JsonElement
  | .arr items => .arr (strippedItems items)
  | .obj fields => .obj (strippedFields fields)
  | v => v

def strippedItems : List JsonElement → List JsonElement
  | [] => []
  | v :: rest => stripped v :: strippedItems rest

def strippedFields : List (JavaString × JsonElement) → List (JavaString × JsonElement)
  | [] => []
  | (k, v) :: rest => if v.isNull then strippedFields rest else (k, stripped v) :: strippedFields rest

end

end EspectralClient.Gson
