/-
The accounts of the engine's configuration (`native/engine/src/accounts.rs`, with their stored shape from `types.rs`):
offline accounts, Microsoft sign-ins and accounts taken over from Lunar, in `config.accounts`, and which one is active.

Every operation reads the stored entries, changes the list and writes all of it back, under the lock of the document.

- `Account.fromValue`, `Account.toValue`: the stored shape, with the fields the engine does not know.
- `modifyAccounts`: the section all operations share.
- `step`: one call, on the document, with the answer it returns.
- `Ext`: the hash behind an offline uuid and the sum of an expiry in floating point, which are not computed here.
-/
import EspectralClient.Lib.MapMerge
import EspectralClient.Lib.Binary64
import EspectralClient.Engine.ConfigStore
import EspectralClient.Engine.MsAuth

namespace EspectralClient.Accounts

open Lib
open Modrinth (CodeErr)
open MsAuth (TokenKind)

/-! ## The stored shape -/

structure MicrosoftAuth where
  refreshToken : Option String
  /-- ms epoch, a double by its bits -/
  expiresAt : Option UInt64
  /-- refresh token bound to another service -/
  lunar : Option Bool
  extra : IndexMap String Json

structure Account where
  username : String
  uuid : String
  tokenKind : TokenKind
  /-- hue -/
  avatarColor : Option ℤ
  microsoft : Option MicrosoftAuth
  avatarAuto : Option Bool
  createdAt : Option String
  updatedAt : Option String
  lastUsed : Option String
  extra : IndexMap String Json

def microsoftKeys : List String := ["refresh_token", "expires_at", "lunar"]

def accountKeys : List String :=
  ["username", "uuid", "token_kind", "avatar_color", "microsoft", "avatar_auto", "created_at", "updated_at", "last_used"]

/-- `json_integer`: an integer, or a double that is one, within `i64` -/
def jsonInteger : Json → Option ℤ
  | .int n => some (min n (2 ^ 63 - 1))
  | .double bits => (Binary64.value bits).bind fun q =>
      if q.den = 1 then some (max (-2 ^ 63) (min q.num (2 ^ 63 - 1))) else none
  | _ => none

/-- the bits of the double nearest to an integer -/
def doubleOfInt (n : ℤ) : UInt64 :=
  if n = 0 then 0
  else
    let m := Binary64.roundMag n.natAbs
    let e := m.log2
    UInt64.ofNat ((if n < 0 then 2 ^ 63 else 0) + (1023 + e) * 2 ^ 52 + (m * 2 ^ 52 / 2 ^ e - 2 ^ 52))

def isFinite (bits : UInt64) : Bool := (Binary64.value bits).isSome

def bitsOf : Json → Option UInt64
  | .int n => some (doubleOfInt n)
  | .double bits => some bits
  | _ => none

/-- `as_f64`; a JSON number is finite -/
def asF64 (v : Json) : Option UInt64 := (bitsOf v).filter isFinite

/-- a double as a JSON value; an infinity is no number -/
def ofF64 (bits : UInt64) : Json := if isFinite bits then .double bits else .null

def MicrosoftAuth.fromFields (m : IndexMap String Json) : MicrosoftAuth where
  refreshToken := (m.get? "refresh_token").bind Json.asStr
  expiresAt := (m.get? "expires_at").bind asF64
  lunar := (m.get? "lunar").bind Json.asBool
  extra := m.without microsoftKeys

/-- an absent field is left out -/
def put (m : IndexMap String Json) (k : String) : Option Json → IndexMap String Json
  | some v => m.insert k v
  | none => m

def MicrosoftAuth.typed (a : MicrosoftAuth) : IndexMap String Json :=
  let m := put .empty "refresh_token" (a.refreshToken.map .str)
  let m := put m "expires_at" (a.expiresAt.map ofF64)
  put m "lunar" (a.lunar.map .bool)

def MicrosoftAuth.toValue (a : MicrosoftAuth) : Json := .obj (a.typed.merge a.extra).entries

def TokenKind.ofName (name : String) : Option TokenKind :=
  if name = "offline" then some .offline else if name = "msa" then some .msa else none

def TokenKind.name : TokenKind → String
  | .offline => "offline"
  | .msa => "msa"

/-- a variant is its name, or an object with the name over null -/
def TokenKind.read : Option Json → Option TokenKind
  | none => some .offline
  | some (.str name) => TokenKind.ofName name
  | some (.obj [(name, .null)]) => TokenKind.ofName name
  | _ => none

/-- the outer `none` is a value of the wrong type -/
def readMicrosoft : Option Json → Option (Option MicrosoftAuth)
  | none => some none
  | some .null => some none
  | some v => v.asObject.map fun m => some (.fromFields m)

/-- an entry that is no object, or whose kind or sign-in is of a wrong type, is no account -/
def Account.fromValue (v : Json) : Option Account :=
  v.asObject.bind fun m =>
    (TokenKind.read (m.get? "token_kind")).bind fun tokenKind =>
      (readMicrosoft (m.get? "microsoft")).map fun microsoft =>
        { username := ((m.get? "username").bind Json.asStr).getD ""
          uuid := ((m.get? "uuid").bind Json.asStr).getD ""
          tokenKind := tokenKind
          avatarColor := (m.get? "avatar_color").bind jsonInteger
          microsoft := microsoft
          avatarAuto := (m.get? "avatar_auto").bind Json.asBool
          createdAt := (m.get? "created_at").bind Json.asStr
          updatedAt := (m.get? "updated_at").bind Json.asStr
          lastUsed := (m.get? "last_used").bind Json.asStr
          extra := m.without accountKeys }

def Account.typed (a : Account) : IndexMap String Json :=
  let m := IndexMap.empty.insert "username" (.str a.username)
  let m := m.insert "uuid" (.str a.uuid)
  let m := m.insert "token_kind" (.str (TokenKind.name a.tokenKind))
  let m := m.insert "avatar_color" ((a.avatarColor.map .int).getD .null)
  let m := put m "microsoft" (a.microsoft.map MicrosoftAuth.toValue)
  let m := put m "avatar_auto" (a.avatarAuto.map .bool)
  let m := put m "created_at" (a.createdAt.map .str)
  let m := put m "updated_at" (a.updatedAt.map .str)
  put m "last_used" (a.lastUsed.map .str)

def Account.toValue (a : Account) : Json := .obj (a.typed.merge a.extra).entries

/-! ## Reading the document -/

abbrev Doc := IndexMap String Json

def listAccounts (doc : Doc) : List Account :=
  match doc.get? "accounts" with
  | some (.arr items) => items.filterMap Account.fromValue
  | _ => []

def isNamed (username : String) (a : Account) : Bool := a.username = username

def getAccount (doc : Doc) (username : String) : Option Account := (listAccounts doc).find? (isNamed username)

def activeUsername (doc : Doc) : Option String := (doc.get? "active_username").bind Json.asStr

def getActiveAccount (doc : Doc) : Option Account := (activeUsername doc).bind (getAccount doc)

/-! ## Operations -/

/-- what is not computed here -/
structure Ext where
  /-- the md5 of the name as a uuid of version 3 -/
  offlineUuid : String → String
  /-- now, plus the given seconds or a day, in ms -/
  expiry : ℤ → Option UInt64 → UInt64

/-- what a call finds: the time, the random hues it draws and which uuids have an avatar -/
structure Env where
  nowIso : String
  nowMs : ℤ
  draws : ℕ → Fin 360
  avatars : String → Bool

/-- `^[A-Za-z0-9_]{1,16}$` -/
def isValidUsername (username : String) : Bool :=
  1 ≤ username.length && username.length ≤ 16 && username.toList.all fun c => c.isAlphanum || c = '_'

def isValidAvatarColor (c : ℤ) : Bool := 0 ≤ c && c ≤ 359

/-- circular distance -/
def hueDistance (a b : ℤ) : ℤ :=
  let d := |a - b| % 360
  min d (360 - d)

/-- the first of fifty hues far from every valid one in use, else the next -/
def pickAvatarColor (accounts : List Account) (draws : ℕ → Fin 360) : ℤ :=
  let taken := (accounts.filterMap Account.avatarColor).filter isValidAvatarColor
  let good := fun h : ℤ => taken.all fun t => 30 ≤ hueDistance h t
  (((List.range 50).map fun i => ((draws i).val : ℤ)).find? good).getD (draws 50).val

/-- the stored entries, changed and written back; entries that are no accounts are dropped -/
def modifyAccounts {ρ : Type} (doc : Doc) (f : List Account → Doc → List Account × Doc × ρ) : Doc × ρ :=
  let (accounts, doc, r) := f (listAccounts doc) doc
  (doc.insert "accounts" (.arr (accounts.map Account.toValue)), r)

def setActiveUsername (doc : Doc) (v : Json) : Doc := doc.insert "active_username" v

def notFound (username : String) : CodeErr := ⟨404, "NOT_FOUND", "account '" ++ username ++ "' does not exist"⟩

def invalidUsername : CodeErr := ⟨400, "INVALID_USERNAME", "username must be 1-16 characters of [A-Za-z0-9_]"⟩

def alreadyExists (username : String) : CodeErr :=
  ⟨409, "ALREADY_EXISTS", "account '" ++ username ++ "' already exists"⟩

def newAccount (ext : Ext) (env : Env) (accounts : List Account) (username : String) : Account where
  username := username
  uuid := ext.offlineUuid username
  tokenKind := .offline
  avatarColor := some (pickAvatarColor accounts env.draws)
  microsoft := none
  avatarAuto := none
  createdAt := some env.nowIso
  updatedAt := none
  lastUsed := some env.nowIso
  extra := .empty

def createAccount (ext : Ext) (env : Env) (doc : Doc) (username : String) : Doc × Except CodeErr Account :=
  if !isValidUsername username then (doc, .error invalidUsername)
  else
    modifyAccounts doc fun accounts doc =>
      if accounts.any (isNamed username) then (accounts, doc, .error (alreadyExists username))
      else
        let account := newAccount ext env accounts username
        (accounts ++ [account], setActiveUsername doc (.str username), .ok account)

/-- the Microsoft account of the uuid -/
def isSignIn (uuid : String) (a : Account) : Bool := a.tokenKind = .msa && a.uuid = uuid

/-- the account a sign-in stores, with what it takes over from the entry it replaces -/
def signedIn (env : Env) (accounts : List Account) (username uuid : String) (microsoft : MicrosoftAuth)
    (prev : Option Account) : Account where
  username := username
  uuid := uuid
  tokenKind := .msa
  avatarColor := some (((prev.bind Account.avatarColor).filter isValidAvatarColor).getD
    (pickAvatarColor accounts env.draws))
  microsoft := some microsoft
  avatarAuto := none
  createdAt := some ((prev.bind Account.createdAt).getD env.nowIso)
  updatedAt := some env.nowIso
  lastUsed := some env.nowIso
  extra := .empty

def upsertOnline (env : Env) (doc : Doc) (username uuid : String) (microsoft : MicrosoftAuth) : Doc × Account :=
  modifyAccounts doc fun accounts doc =>
    let existing := accounts.findIdx? (isSignIn uuid)
    let account := signedIn env accounts username uuid microsoft (existing.bind fun i => accounts[i]?)
    let accounts := match existing with
      | some i => accounts.set i account
      | none => accounts ++ [account]
    (accounts, setActiveUsername doc (.str account.username), account)

/-- a completed device login -/
structure MsaLogin where
  username : String
  uuid : String
  refreshToken : Option String
  /-- seconds, a double by its bits -/
  expiresIn : Option UInt64

def msaAuth (ext : Ext) (env : Env) (ms : MsaLogin) : MicrosoftAuth :=
  ⟨ms.refreshToken, some (ext.expiry env.nowMs ms.expiresIn), none, .empty⟩

def upsertMsaAccount (ext : Ext) (env : Env) (doc : Doc) (ms : MsaLogin) : Doc × Account :=
  upsertOnline env doc ms.username ms.uuid (msaAuth ext env ms)

def lunarAuth (refreshToken : String) : MicrosoftAuth := ⟨some refreshToken, some 0, some true, .empty⟩

def upsertLunarAccount (env : Env) (doc : Doc) (username uuid refreshToken : String) : Doc × Account :=
  upsertOnline env doc username uuid (lunarAuth refreshToken)

def isRemoved (username : String) (msaOnly : Bool) (a : Account) : Bool :=
  isNamed username a && (!msaOnly || a.tokenKind = .msa)

def removeAccountWhere (doc : Doc) (username : String) (msaOnly : Bool) : Doc × Except CodeErr String :=
  modifyAccounts doc fun accounts doc =>
    if accounts.any (isRemoved username msaOnly) then
      let doc := if activeUsername doc = some username then setActiveUsername doc .null else doc
      (accounts.eraseP (isRemoved username msaOnly), doc, .ok username)
    else
      let error := if msaOnly then
          ⟨404, "NOT_FOUND", "Microsoft account '" ++ username ++ "' does not exist"⟩
        else notFound username
      (accounts, doc, .error error)

def deleteMsaAccount (doc : Doc) (username : String) : Doc × Except CodeErr String :=
  removeAccountWhere doc username true

def deleteAccount (doc : Doc) (username : String) : Doc × Except CodeErr String :=
  removeAccountWhere doc username false

/-- the first account of the name, changed in place -/
def updateNamed {ρ : Type} (doc : Doc) (username : String) (change : Account → Account) (after : Doc → Doc)
    (answer : Account → ρ) : Doc × Except CodeErr ρ :=
  modifyAccounts doc fun accounts doc =>
    match accounts.find? (isNamed username) with
    | some a => (accounts.modify (accounts.findIdx (isNamed username)) change, after doc, .ok (answer (change a)))
    | none => (accounts, doc, .error (notFound username))

def setActiveAccount (env : Env) (doc : Doc) (username : String) : Doc × Except CodeErr String :=
  updateNamed doc username (fun a => { a with lastUsed := some env.nowIso })
    (fun doc => setActiveUsername doc (.str username)) fun _ => username

structure PublicMicrosoft where
  lunar : Bool

/-- what the launcher's interface may see of an account -/
structure PublicAccount where
  username : String
  uuid : String
  tokenKind : TokenKind
  avatarColor : Option ℤ
  microsoft : Option PublicMicrosoft
  createdAt : Option String
  updatedAt : Option String
  lastUsed : Option String
  hasAvatar : Bool
  extra : IndexMap String Json

def publicAccount (env : Env) (a : Account) : PublicAccount where
  username := a.username
  uuid := a.uuid
  tokenKind := a.tokenKind
  avatarColor := a.avatarColor
  microsoft := if a.tokenKind = .msa then a.microsoft.map fun m => ⟨m.lunar = some true⟩ else none
  createdAt := a.createdAt
  updatedAt := a.updatedAt
  lastUsed := a.lastUsed
  hasAvatar := a.uuid ≠ "" && env.avatars a.uuid
  extra := a.extra.without ConfigStore.secretKeys

def badAvatarColor : CodeErr :=
  ⟨400, "BAD_AVATAR_COLOR", "avatar_color must be an integer between 0 and 359 or null"⟩

def setAvatarColor (env : Env) (doc : Doc) (username : String) (color : Option ℤ) :
    Doc × Except CodeErr PublicAccount :=
  if color.any fun c => !isValidAvatarColor c then (doc, .error badAvatarColor)
  else updateNamed doc username (fun a => { a with avatarColor := color }) (fun doc => doc) (publicAccount env)

/-! ## Calls -/

inductive Op where
  | create (username : String)
  | upsertMsa (ms : MsaLogin)
  | upsertLunar (username uuid refreshToken : String)
  | delete (username : String)
  | deleteMsa (username : String)
  | setActive (username : String)
  | setColor (username : String) (color : Option ℤ)

structure Call where
  op : Op
  env : Env

inductive Answer where
  | account (a : Account)
  | deleted (username : String)
  | active (username : String)
  | shown (a : PublicAccount)
  | failed (error : CodeErr)

def Answer.of {ρ : Type} (f : ρ → Answer) : Except CodeErr ρ → Answer
  | .ok r => f r
  | .error e => .failed e

def call (ext : Ext) (doc : Doc) (c : Call) : Doc × Answer :=
  match c.op with
  | .create username => (createAccount ext c.env doc username).map id (.of .account)
  | .upsertMsa ms => (upsertMsaAccount ext c.env doc ms).map id .account
  | .upsertLunar username uuid refreshToken => (upsertLunarAccount c.env doc username uuid refreshToken).map id .account
  | .delete username => (deleteAccount doc username).map id (.of .deleted)
  | .deleteMsa username => (deleteMsaAccount doc username).map id (.of .deleted)
  | .setActive username => (setActiveAccount c.env doc username).map id (.of .active)
  | .setColor username color => (setAvatarColor c.env doc username color).map id (.of .shown)

def step (ext : Ext) (doc : Doc) (c : Call) : Doc := (call ext doc c).1

end EspectralClient.Accounts
