/-
The cosmetics of an account (`native/engine/src/cosmetics.rs`): what is stored in `cosmetics.json`, the patch that changes
it, and the document that the mod reads.

- `getCosmeticsState`: a stored record read back, with a default for what is missing.
- `patchState`, `patchCosmetics`: the checks of a patch in their order, and the document with the record in it.
- `cosmeticsDoc`: the mod's document; its loadout and grant depend on the grant being valid.
-/
import EspectralClient.Engine.Accounts
import EspectralClient.Engine.Identity
import EspectralClient.Loadout.Rules

namespace EspectralClient.Cosmetics

open EspectralClient.Lib
open Accounts (isValidUsername)
open Identity (normalizeUuid)
open Loadouts (BadRequest CosmeticsCatalog sanitizeLoadout validateLoadout fillSlots)

/-! ## What is stored -/

def stateSchema : ℤ := 1

def maxHidden : ℕ := 200

structure AccountCosmetics where
  share : Bool
  emotes : Bool
  /-- by slot, in the catalog's order -/
  loadout : IndexMap String (Option String)
  hiddenPlayers : List String

/-- sharing is on until it is switched off -/
def AccountCosmetics.default : AccountCosmetics := ⟨true, true, .empty, []⟩

def itemJson : Option String → Json
  | none => .null
  | some id => .str id

def loadoutJson (loadout : IndexMap String (Option String)) : Json :=
  .obj (loadout.entries.map fun e => (e.1, itemJson e.2))

def AccountCosmetics.toStored (a : AccountCosmetics) : Json :=
  .obj [("share", .bool a.share), ("emotes", .bool a.emotes), ("loadout", loadoutJson a.loadout),
    ("hidden_players", .arr (a.hiddenPlayers.map .str))]

/-- the accounts of `cosmetics.json`; `none` is a file that is missing or no JSON -/
def loadAccounts (doc : Option Json) : IndexMap String Json :=
  ((doc.bind fun doc => doc.get? "accounts").bind Json.asObject).getD .empty

def accountsDoc (accounts : IndexMap String Json) : Json :=
  .obj [("schema", .int stateSchema), ("accounts", .obj accounts.entries)]

def boolField (raw : Json) (name : String) (default : Bool) : Bool :=
  ((raw.get? name).bind Json.asBool).getD default

/-- the items of the catalog's slots -/
def storedLoadout (slots : List String) (raw : Json) : IndexMap String (Option String) :=
  slots.foldl (fun m slot =>
    match ((raw.get? "loadout").bind (·.get? slot)).bind Json.asStr with
    | some id => if id = "" then m else m.insert slot (some id)
    | none => m) .empty

def storedHidden (raw : Json) : List String :=
  ((((raw.get? "hidden_players").bind Json.asArray).getD []).filterMap Json.asStr |>.filter (· ≠ "")).take maxHidden

/-- a stored record -/
def readRecord (cat : CosmeticsCatalog) (raw : Json) : AccountCosmetics where
  share := boolField raw "share" true
  emotes := boolField raw "emotes" true
  loadout := storedLoadout cat.slots raw
  hiddenPlayers := storedHidden raw

def getCosmeticsState (cat : CosmeticsCatalog) (doc : Option Json) (uuid : String) : AccountCosmetics :=
  match normalizeUuid uuid with
  | none => .default
  | some flat =>
    match (loadAccounts doc).get? flat with
    | some (.obj raw) => readRecord cat (.obj raw)
    | _ => .default

/-! ## Patches -/

def patchFields : List String := ["share", "loadout", "hidden_players", "emotes"]

def badHidden : BadRequest :=
  ⟨"BAD_HIDDEN", "hidden_players must be an array of at most 200 names"⟩

def badHiddenName : BadRequest :=
  ⟨"BAD_HIDDEN", "hidden player names must match /^[A-Za-z0-9_]\x7b1,16\x7d$/"⟩

/-- the names, each once -/
def hiddenNames (arr : List Json) : Except BadRequest (List String) :=
  match arr.mapM fun n => n.asStr.filter isValidUsername with
  | some names => .ok names.eraseDups
  | none => .error badHiddenName

def checkHidden (v : Json) : Except BadRequest (List String) :=
  match v.asArray.filter fun arr => arr.length ≤ maxHidden with
  | some arr => hiddenNames arr
  | none => .error badHidden

def checkBool (v : Json) (e : BadRequest) : Except BadRequest Bool :=
  match v.asBool with
  | some b => .ok b
  | none => .error e

/-- a field of the patch, when it has it -/
def patchField {α : Type} (p : IndexMap String Json) (name : String) (check : Json → Except BadRequest α) (current : α) :
    Except BadRequest α :=
  match p.get? name with
  | some v => check v
  | none => .ok current

/-- the state with the fields of the patch -/
def patchState (cat : CosmeticsCatalog) (flags : List String) (p : IndexMap String Json) (current : AccountCosmetics) :
    Except BadRequest AccountCosmetics := do
  let share ← patchField p "share" (checkBool · ⟨"BAD_SHARE", "share must be a boolean"⟩) current.share
  let emotes ← patchField p "emotes" (checkBool · ⟨"BAD_EMOTES", "emotes must be a boolean"⟩) current.emotes
  let hidden ← patchField p "hidden_players" checkHidden current.hiddenPlayers
  let loadout ← patchField p "loadout" (validateLoadout cat · flags) current.loadout
  return ⟨share, emotes, loadout, hidden⟩

/-- the state that the patch leaves and the document that has it -/
def patchCosmetics (cat : CosmeticsCatalog) (doc : Option Json) (uuid : String) (patch : Json) (flags : List String) :
    Except BadRequest (AccountCosmetics × Json) :=
  match normalizeUuid uuid with
  | none => .error ⟨"BAD_UUID", "uuid must be a 32-char hex string"⟩
  | some flat =>
    match patch.asObject with
    | none => .error ⟨"BAD_PATCH", "body must be a JSON object"⟩
    | some p =>
      let unknown := p.keys.filter fun k => k ∉ patchFields
      if unknown ≠ [] then .error ⟨"BAD_PATCH", "unknown fields: " ++ ", ".intercalate unknown⟩
      else do
        let state ← patchState cat flags p (getCosmeticsState cat doc flat)
        return (state, accountsDoc ((loadAccounts doc).insert flat state.toStored))

/-! ## The mod's document -/

/-- flags, the grant while it verifies for the account, and whether it does -/
structure GrantView where
  flags : List String
  grant : Option String
  grantValid : Bool
deriving DecidableEq, Repr

def GrantView.default : GrantView := ⟨[], none, false⟩

/-- the document of a uuid -/
def cosmeticsDoc (cat : CosmeticsCatalog) (doc : Option Json) (uuid : String) (view : GrantView) : Json :=
  let flat := normalizeUuid uuid
  let state := getCosmeticsState cat doc (flat.getD "")
  let valid := flat.isSome && view.grantValid
  let loadout := if valid then sanitizeLoadout cat state.loadout view.flags else fillSlots cat.slots .empty
  .obj [("schema", .int 1), ("uuid", .str (flat.getD uuid)), ("grant", if valid then itemJson view.grant else .null),
    ("share", .bool state.share), ("loadout", loadoutJson loadout),
    ("hidden_players", .arr (state.hiddenPlayers.map .str)), ("emotes", .bool state.emotes)]

end EspectralClient.Cosmetics
