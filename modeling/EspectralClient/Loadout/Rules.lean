/-
Which cosmetics may be worn together, in the three places that decide it: the engine (`native/engine/src/cosmetics.rs`),
the mod (`branding-mod/.../cosmetics/Catalog.java`, `Loadout.java`) and the service (`services/espectral-id/app/catalog.py`).
All three read the same catalog document.

- `validateLoadout`, `sanitizeLoadout`: the engine refuses a loadout, or drops what is not allowed.
- `Loadout`, `fromMap`, `filter`: the mod.
- `exclusivityMap`, `validateLoadoutService`: the service.
-/
import EspectralClient.Engine.Json

namespace EspectralClient.Loadouts

open EspectralClient.Lib

/-! ## The catalog -/

/-- an entry of the catalog: its slot, and the flag it requires, if any -/
structure CosmeticItem where
  id : String
  slot : String
  requires : String
deriving DecidableEq, Repr

/-- the document: the slots, the items, and for a slot the items that may not be worn with one in it -/
structure CosmeticsCatalog where
  slots : List String
  exclusive : List (String × List String)
  items : List CosmeticItem
deriving DecidableEq, Repr

/-- the item of an id; the last one counts -/
def CosmeticsCatalog.item (cat : CosmeticsCatalog) (id : String) : Option CosmeticItem :=
  (cat.items.filter fun item => item.id = id).getLast?

/-! ## The engine -/

/-- a 400 with its code and message -/
structure BadRequest where
  code : String
  message : String
deriving DecidableEq, Repr

def itemAllowed (item : CosmeticItem) (flags : List String) : Bool := item.requires = "" ∨ item.requires ∈ flags

def badLoadout (message : String) : BadRequest := ⟨"BAD_LOADOUT", message⟩

/-- one entry of the input: the item of the slot, or that it is empty -/
def checkEntry (cat : CosmeticsCatalog) (flags : List String) (slot : String) (value : Json) :
    Except BadRequest (Option String) :=
  if slot ∉ cat.slots then .error (badLoadout ("unknown slot '" ++ slot ++ "'"))
  else
    match value with
    | .null => .ok none
    | .str id =>
      if id = "" then .error (badLoadout ("loadout." ++ slot ++ " must be an item id or null"))
      else
        match cat.item id with
        | none => .error ⟨"UNKNOWN_COSMETIC", "unknown cosmetic id '" ++ id ++ "'"⟩
        | some item =>
          if item.slot ≠ slot then
            .error ⟨"WRONG_SLOT", "'" ++ id ++ "' belongs in slot '" ++ item.slot ++ "', not '" ++ slot ++ "'"⟩
          else if itemAllowed item flags = false then
            .error ⟨"FLAG_REQUIRED", "'" ++ id ++ "' requires '" ++ item.requires ++ "'"⟩
          else .ok (some id)
    | _ => .error (badLoadout ("loadout." ++ slot ++ " must be an item id or null"))

def checkEntries (cat : CosmeticsCatalog) (flags : List String) :
    List (String × Json) → IndexMap String (Option String) → Except BadRequest (IndexMap String (Option String))
  | [], normalized => .ok normalized
  | (slot, value) :: rest, normalized =>
    match checkEntry cat flags slot value with
    | .error e => .error e
    | .ok id => checkEntries cat flags rest (normalized.insert slot id)

/-- the slots of the catalog that are missing, empty -/
def fillSlots (slots : List String) (m : IndexMap String (Option String)) : IndexMap String (Option String) :=
  slots.foldl (fun m slot => if (m.get? slot).isSome then m else m.insert slot none) m

/-- the first item that may not be worn with the one in the rule's slot -/
def conflict (m : IndexMap String (Option String)) (rule : String × List String) : Option BadRequest :=
  match m.get? rule.1 with
  | some (some equipped) =>
    m.entries.findSome? fun e =>
      match e.2 with
      | none => none
      | some item =>
        if e.1 ≠ rule.1 ∧ item ∈ rule.2 then
          some ⟨"EXCLUSIVE_CONFLICT", "'" ++ item ++ "' cannot be equipped together with '" ++ equipped ++ "'"⟩
        else none
  | _ => none

/-- the engine's check of a candidate: the normalized loadout, or the first problem -/
def validateLoadout (cat : CosmeticsCatalog) (loadout : Json) (flags : List String) :
    Except BadRequest (IndexMap String (Option String)) :=
  match loadout.asObject with
  | none => .error (badLoadout "loadout must be an object \x7bslot: itemId|null\x7d")
  | some input =>
    match checkEntries cat flags input.entries .empty with
    | .error e => .error e
    | .ok normalized =>
      let normalized := fillSlots cat.slots normalized
      match cat.exclusive.findSome? (conflict normalized) with
      | some e => .error e
      | none => .ok normalized

/-- an entry of a loadout, if its item is the slot's own and allowed -/
def grantEntry (cat : CosmeticsCatalog) (flags : List String) (m : IndexMap String (Option String))
    (e : String × Option String) : IndexMap String (Option String) :=
  match e.2 with
  | none => m
  | some id =>
    if e.1 ∉ cat.slots then m
    else
      match cat.item id with
      | none => m
      | some item => if item.slot ≠ e.1 ∨ itemAllowed item flags = false then m else m.insert e.1 (some id)

/-- a rule of the engine: what may not be worn with the item in the slot is dropped -/
def applyRule (rule : String × List String) (m : IndexMap String (Option String)) : IndexMap String (Option String) :=
  match m.get? rule.1 with
  | some (some _) => m.retain fun other item => some (if other ≠ rule.1 ∧ (∃ i ∈ item, i ∈ rule.2) then none else item)
  | _ => m

/-- the engine's loadout for the file that the mod reads -/
def sanitizeLoadout (cat : CosmeticsCatalog) (loadout : IndexMap String (Option String)) (flags : List String) :
    IndexMap String (Option String) :=
  let m := loadout.entries.foldl (grantEntry cat flags) (fillSlots cat.slots .empty)
  cat.exclusive.foldl (fun m rule => applyRule rule m) m

/-! ## The mod -/

structure Loadout where
  espalda : Option String
  cuello : Option String
  cabeza : Option String
  elitros : Option String
deriving DecidableEq, Repr

def Loadout.forSlot (l : Loadout) (slot : String) : Option String :=
  if slot = "espalda" then l.espalda
  else if slot = "cuello" then l.cuello
  else if slot = "cabeza" then l.cabeza
  else if slot = "elitros" then l.elitros
  else none

/-- accepts only ids of items declared for the slot -/
def inSlot (cat : CosmeticsCatalog) (slot : String) (itemId : Option String) : Option String :=
  match itemId.bind cat.item with
  | none => none
  | some item => if slot = item.slot then itemId else none

def fromMap (cat : CosmeticsCatalog) (bySlot : IndexMap String String) : Loadout where
  espalda := inSlot cat "espalda" (bySlot.get? "espalda")
  cuello := inSlot cat "cuello" (bySlot.get? "cuello")
  cabeza := inSlot cat "cabeza" (bySlot.get? "cabeza")
  elitros := inSlot cat "elitros" (bySlot.get? "elitros")

/-- keeps an id only when it is an item of the slot and allowed -/
def keep (cat : CosmeticsCatalog) (flags : List String) (slot : String) (itemId : Option String) : Option String :=
  match itemId with
  | none => none
  | some id =>
    if id = "" then none
    else
      match cat.item id with
      | none => none
      | some item => if slot = item.slot ∧ (item.requires = "" ∨ item.requires ∈ flags) then some id else none

def blocks (blocked : List String) (itemId : Option String) : Bool := itemId.any fun id => id ∈ blocked

def applyExclusivityRule (rule : String × List String) (l : Loadout) : Loadout :=
  if l.forSlot rule.1 = none then l
  else
    let l := if blocks rule.2 l.espalda then { l with espalda := none } else l
    let l := if blocks rule.2 l.cuello then { l with cuello := none } else l
    let l := if blocks rule.2 l.cabeza then { l with cabeza := none } else l
    if blocks rule.2 l.elitros then { l with elitros := none } else l

/-- the mod's filter; `rules` is its map of rules in the order in which that iterates -/
def filter (cat : CosmeticsCatalog) (rules : List (String × List String)) (l : Loadout) (flags : List String) : Loadout :=
  rules.foldl (fun l rule => applyExclusivityRule rule l)
    ⟨keep cat flags "espalda" l.espalda, keep cat flags "cuello" l.cuello, keep cat flags "cabeza" l.cabeza,
      keep cat flags "elitros" l.elitros⟩

/-! ## The service -/

/-- notes the slot of the item that a slot forbids -/
def addExclusion (cat : CosmeticsCatalog) (out : IndexMap (String × String) (List String)) (key : String × String) :
    IndexMap (String × String) (List String) :=
  match cat.item key.2 with
  | none => out
  | some other => out.insert key (((out.get? key).getD []).insert other.slot)

/-- for a slot and an item it forbids, the slots where that item would be worn -/
def exclusivityMap (cat : CosmeticsCatalog) : IndexMap (String × String) (List String) :=
  (cat.exclusive.flatMap fun rule => rule.2.map fun id => (rule.1, id)).foldl (addExclusion cat) .empty

/-- one entry of that map: the slot is emptied when the forbidden item is worn -/
def dropOwner (entry : (String × String) × List String) (m : IndexMap String (Option String)) :
    IndexMap String (Option String) :=
  match (m.get? entry.1.1).join with
  | none => m
  | some equipped =>
    if equipped = "" then m
    else if ∃ other ∈ entry.2, m.get? other = some (some entry.1.2) then m.insert entry.1.1 none
    else m

/-- what the service stores for one slot -/
def serviceSlot (cat : CosmeticsCatalog) (loadout : IndexMap String Json) (flags : List String) (slot : String) :
    Option String :=
  match loadout.get? slot with
  | some (.str id) =>
    if id = "" then none
    else
      match cat.item id with
      | none => none
      | some item =>
        if item.slot ≠ slot then none
        else if item.requires ≠ "" ∧ item.requires ∉ flags then none
        else some id
  | _ => none

def serviceEntry (cat : CosmeticsCatalog) (loadout : IndexMap String Json) (flags : List String)
    (result : IndexMap String (Option String)) (slot : String) : IndexMap String (Option String) :=
  match serviceSlot cat loadout flags slot with
  | some id => result.insert slot (some id)
  | none => result

/-- the service's `validate_loadout` -/
def validateLoadoutService (cat : CosmeticsCatalog) (loadout : Json) (flags : List String) :
    IndexMap String (Option String) :=
  let result := fillSlots cat.slots .empty
  match loadout.asObject with
  | none => result
  | some loadout =>
    let result := cat.slots.foldl (serviceEntry cat loadout flags) result
    (exclusivityMap cat).entries.foldl (fun m entry => dropOwner entry m) result

end EspectralClient.Loadouts
