/-
The wardrobe page (`native/app/src/pages/account_wardrobe/wardrobe.rs`): the selected account, the draft of its cosmetics,
and the saves, of which one is under way at a time; what is edited meanwhile is merged and sent after it.

- `State`: what the page keeps. `Request`: a call of the engine that has not answered.
- `save`, `finishAfterError`, `reply`: the saves as the source has them.
- `step`: one callback of the event loop.
- `Edit`, `St.queued`, `St.log` are of the model only: which edits are in a patch, made on which account, and what
  happened.
-/
import EspectralClient.Lib.IndexMap

namespace EspectralClient.Wardrobe

open EspectralClient.Lib

/-! ## Data -/

/-- slot to item -/
abbrev Loadout := IndexMap String (Option String)

/-- `CosmeticsPatch` -/
structure Patch where
  share : Option Bool
  loadout : Option Loadout
  hiddenPlayers : Option (List String)
  emotes : Option Bool
deriving DecidableEq

def Patch.empty : Patch := ⟨none, none, none, none⟩

/-- what a later patch sets replaces what an earlier one set -/
def merge (into p : Patch) : Patch :=
  ⟨p.share.or into.share, p.loadout.or into.loadout, p.hiddenPlayers.or into.hiddenPlayers, p.emotes.or into.emotes⟩

structure AccountState where
  share : Bool
  loadout : Loadout
  hiddenPlayers : List String
  emotes : Bool
deriving DecidableEq

structure Catalog where
  slots : List String
  /-- a slot and the items elsewhere that it excludes -/
  exclusive : List (String × List String)
deriving DecidableEq

structure Cosmetics where
  catalog : Catalog
  accounts : IndexMap String AccountState
deriving DecidableEq

structure State where
  /-- the uuids of the identity's accounts -/
  identity : Option (List String)
  cosmetics : Option Cosmetics
  selected : String
  /-- the draft of the selected account -/
  share : Bool
  emotes : Bool
  loadout : List (String × Option String)
  hidden : List String
  saving : Bool
  pending : Option Patch
deriving DecidableEq

/-- a change the user made, and the account that was selected -/
structure Edit where
  account : String
  patch : Patch
deriving DecidableEq

/-- a PUT, with the edits merged into its patch -/
structure Put where
  uuid : String
  patch : Patch
  edits : List Edit
deriving DecidableEq

inductive Request where
  | put (p : Put)
  /-- the cosmetics are read again after a PUT failed -/
  | reload
deriving DecidableEq

inductive Event where
  | edited (e : Edit)
  | sent (p : Put)
  | accepted (p : Put)
  | refused (p : Put)
deriving DecidableEq

structure St where
  page : State
  requests : List Request
  /-- the edits merged into the pending patch -/
  queued : List Edit
  log : List Event
deriving DecidableEq

/-! ## The selection and the draft -/

/-- the selected account, else the first -/
def fixSelection (s : State) : State :=
  let list := s.identity.getD []
  if list.contains s.selected then s else { s with selected := list.head?.getD "" }

def selectedIdentity (s : State) : Option String := (s.identity.getD []).find? fun a => a = s.selected

/-- the draft as the server knows the selected account -/
def hydrate (s : State) : State :=
  match s.cosmetics with
  | none => s
  | some cos =>
    match cos.accounts.get? s.selected with
    | none => s
    | some st =>
      { s with
        share := st.share
        emotes := st.emotes
        hidden := st.hiddenPlayers
        loadout := cos.catalog.slots.map fun slot => (slot, (st.loadout.get? slot).getD none) }

def hydrateIfSelected (s : State) (uuid : String) : State := if s.selected = uuid then hydrate s else s

/-- `w_select`: the account at an index -/
def select (s : State) (i : ℕ) : State :=
  match (s.identity.getD [])[i]? with
  | none => s
  | some uuid => if s.selected = uuid then s else hydrate (fixSelection { s with selected := uuid })

/-! ## Saving -/

def put (s : St) (uuid : String) (patch : Patch) (edits : List Edit) : St :=
  { s with requests := s.requests ++ [.put ⟨uuid, patch, edits⟩], log := s.log ++ [.sent ⟨uuid, patch, edits⟩] }

/-- sends the patch for the selected account, or merges it into the pending one -/
def save (s : St) (patch : Patch) (edits : List Edit) : St :=
  match selectedIdentity s.page with
  | none => s
  | some uuid =>
    if s.page.saving then
      let pending := match s.page.pending with
        | some p => merge p patch
        | none => patch
      { s with page := { s.page with pending := some pending }, queued := s.queued ++ edits }
    else put { s with page := { s.page with saving := true } } uuid patch edits

/-- a change by the user -/
def edit (s : St) (patch : Patch) : St :=
  match selectedIdentity s.page with
  | none => s
  | some uuid => save { s with log := s.log ++ [.edited ⟨uuid, patch⟩] } patch [⟨uuid, patch⟩]

/-- a PUT was answered -/
def putDone (s : St) (p : Put) (resp : AccountState) : St :=
  let cosmetics := s.page.cosmetics.map fun cos => { cos with accounts := cos.accounts.insert p.uuid resp }
  let s : St := { s with log := s.log ++ [.accepted p] }
  match s.page.pending with
  | some next =>
    put { s with page := { s.page with cosmetics := cosmetics, pending := none }, queued := [] } p.uuid next s.queued
  | none => { s with page := hydrateIfSelected { s.page with cosmetics := cosmetics, saving := false } p.uuid }

/-- back to the server's state, and what was queued is saved -/
def finishAfterError (s : St) : St :=
  let queued := s.page.pending
  let edits := s.queued
  let s : St := { s with page := hydrate { s.page with saving := false, pending := none }, queued := [] }
  match queued with
  | none => s
  | some p => save s p edits

/-! ## Edits -/

/-- equipped items that conflict with an item in a slot -/
def conflicting (exclusive : List (String × List String)) (loadout : List (String × Option String)) (slot item : String) :
    List (String × String) :=
  let get (sl : String) := (loadout.find? fun e => e.1 = sl).bind Prod.snd
  exclusive.flatMap fun (exSlot, ids) =>
    if slot = exSlot then
      loadout.filterMap fun (other, equipped) =>
        equipped.bind fun eq => if other ≠ slot ∧ ids.contains eq then some (other, eq) else none
    else if ids.contains item then ((get exSlot).map fun eq => (exSlot, eq)).toList
    else []

/-- sets the first entry of the slot, if there is one -/
def setSlot (loadout : List (String × Option String)) (slot : String) (item : Option String) :
    List (String × Option String) :=
  match loadout with
  | [] => []
  | e :: rest => if e.1 = slot then (slot, item) :: rest else e :: setSlot rest slot item

def equip (s : State) (slot : String) (item : Option String) : State :=
  let exclusive := (s.cosmetics.map fun c => c.catalog.exclusive).getD []
  let conflicts := (item.map fun item => conflicting exclusive s.loadout slot item).getD []
  let loadout := conflicts.foldl (fun l c => setSlot l c.1 none) s.loadout
  let loadout := if loadout.any fun e => e.1 = slot then setSlot loadout slot item else loadout ++ [(slot, item)]
  { s with loadout := loadout }

def validMcName (name : String) : Bool :=
  3 ≤ name.utf8ByteSize && name.utf8ByteSize ≤ 16 && name.toList.all fun c => c.isAlphanum || c = '_'

def eqIgnoreAsciiCase (a b : String) : Bool := a.toList.map Char.toLower = b.toList.map Char.toLower

/-- what the user does; a name to hide is trimmed -/
inductive Change where
  | toggleShare (on : Bool)
  | toggleEmotes (on : Bool)
  | equip (slot : String) (item : Option String)
  | addHidden (name : String)
  | removeHidden (name : String)

/-- the draft after a change, and the patch that is saved -/
def change (s : State) : Change → State × Option Patch
  | .toggleShare on => ({ s with share := on }, some { Patch.empty with share := some on })
  | .toggleEmotes on => ({ s with emotes := on }, some { Patch.empty with emotes := some on })
  | .equip slot item =>
    let s := equip s slot item
    let loadout := s.loadout.foldl (fun m e => m.insert e.1 e.2) IndexMap.empty
    (s, some { Patch.empty with loadout := some loadout })
  | .addHidden name =>
    if validMcName name = false ∨ s.hidden.any (fun h => eqIgnoreAsciiCase h name) = true then (s, none)
    else
      let hidden := s.hidden ++ [name]
      ({ s with hidden := hidden }, some { Patch.empty with hiddenPlayers := some hidden })
  | .removeHidden name =>
    let hidden := s.hidden.filter fun h => h ≠ name
    ({ s with hidden := hidden }, some { Patch.empty with hiddenPlayers := some hidden })

/-! ## Steps -/

/-- what a request is answered; `none` is an error -/
inductive Answer where
  | put (resp : Option AccountState)
  | cosmetics (cos : Option Cosmetics)

inductive Op where
  | change (c : Change)
  | select (i : ℕ)
  /-- the page was loaded -/
  | loaded (identity : List String) (cosmetics : Cosmetics)
  /-- the identity was read again; the poll of a Discord link leaves the selection as it is -/
  | identityRead (identity : List String) (fix : Bool)
  | reply (i : ℕ) (answer : Answer)

/-- a request is answered; an answer of the other kind is none -/
def reply (s : St) (i : ℕ) (answer : Answer) : St :=
  match s.requests[i]?, answer with
  | some (.put p), .put (some resp) => putDone { s with requests := s.requests.eraseIdx i } p resp
  | some (.put p), .put none =>
    { s with requests := s.requests.eraseIdx i ++ [.reload], log := s.log ++ [.refused p] }
  | some .reload, .cosmetics (some cos) =>
    finishAfterError
      { s with page := { s.page with cosmetics := some cos }, requests := s.requests.eraseIdx i }
  | some .reload, .cosmetics none => finishAfterError { s with requests := s.requests.eraseIdx i }
  | _, _ => s

def step (s : St) : Op → St
  | .change c =>
    match change s.page c with
    | (page, none) => { s with page := page }
    | (page, some patch) => edit { s with page := page } patch
  | .select i => { s with page := select s.page i }
  | .loaded identity cosmetics =>
    { s with page := hydrate (fixSelection { s.page with identity := some identity, cosmetics := some cosmetics }) }
  | .identityRead identity fix =>
    let page := { s.page with identity := some identity }
    { s with page := if fix then fixSelection page else page }
  | .reply i answer => reply s i answer

/-- a page that has selected an account, from the stored preference -/
def start (selected : String) : St :=
  ⟨⟨none, none, selected, false, false, [], [], false, none⟩, [], [], []⟩

end EspectralClient.Wardrobe
