/-
Minecraft tokens of Microsoft accounts (`native/engine/src/msauth.rs`, with the calls of `api/accounts_skins.rs` and
`accounts.rs` around it): where they are kept, how they are refreshed and how signing out forgets them.

A token is kept in memory under the account's name and in `mc-token-cache.json` under its uuid, as written and without
dashes. A step of a call is one section under the lock of the configuration or of the tokens, one read of the file, or
one answer of the network; other calls come in between.

- `forgetAccountCredentials`, `store`: the two sections that hold the lock of the tokens across the file.
- `St.signedOut` is of the model only: whose sign-out has returned, and who has not signed in since.
-/
import EspectralClient.Engine.Modrinth

namespace EspectralClient.MsAuth

open Lib
open Modrinth (CodeErr)

/-! ## Accounts and tokens -/

structure McToken where
  accessToken : String
  /-- ms epoch -/
  expiresAt : ℤ
deriving DecidableEq

inductive TokenKind where
  | offline
  | msa
deriving DecidableEq

structure MicrosoftAuth where
  refreshToken : Option String
  /-- refreshed at another service, with the same outcomes -/
  lunar : Option Bool
deriving DecidableEq

structure Account where
  username : String
  uuid : String
  tokenKind : TokenKind
  microsoft : Option MicrosoftAuth
deriving DecidableEq

def tokenSkewMs : ℤ := 5 * 60 * 1000

def prewarmWindowMs : ℤ := 10 * 60 * 1000

def isFresh (now : ℤ) (t : McToken) : Bool := now < t.expiresAt - tokenSkewMs

/-- `uuid.replace('-', "")` -/
def dashless (uuid : String) : String := String.ofList (uuid.toList.filter fun ch => ch ≠ '-')

/-! ## State -/

inductive Outcome where
  /-- `ensure_minecraft_token`, `None` for an offline account -/
  | token (token : Option McToken)
  | deleted (username : String)
  | done
  | failed (error : CodeErr)
deriving DecidableEq

inductive Phase where
  /-- `msa_logout`: the uuid is looked up, the account is deleted, its credentials are forgotten -/
  | lookup (username : String)
  | delete (username uuid : String)
  | forget (username uuid : String) (removed : Account)
  /-- `prewarm_msa_token`: the active account, then its cached expiry, before the lock and under it -/
  | active
  | expiry (account : Account) (locked : Bool)
  | expiryDisk (account : Account) (locked : Bool)
  | prewarmLock (account : Account)
  /-- `ensure_minecraft_token`: memory, disk, refresh -/
  | memory (account : Account)
  | disk (account : Account)
  | remember (account : Account) (token : McToken)
  | refreshing (account : Account) (refresh : String) (keep : Bool)
  | rotating (account : Account) (token : McToken) (newRefresh : String) (keep : Bool)
  | fallback (account : Account) (error : CodeErr)
  | storing (account : Account) (token : McToken)
  /-- a sign-in: the account is stored, then its token remembered -/
  | upsert (account : Account) (token : McToken)
  | signedIn (account : Account) (token : McToken)
  | ended (outcome : Outcome)
deriving DecidableEq

/-- a call, and the name whose prewarm lock it holds -/
structure Call where
  phase : Phase
  warming : Option String
deriving DecidableEq

structure St where
  accounts : List Account
  activeUsername : Option String
  /-- `mc_tokens`, by username -/
  mcTokens : IndexMap String McToken
  /-- `mc-token-cache.json`, by uuid -/
  tokenCache : IndexMap String McToken
  calls : List Call
  /-- names and uuids whose sign-out has returned -/
  signedOut : List (String × String)

def start (accounts : List Account) (activeUsername : Option String) (mcTokens tokenCache : IndexMap String McToken) : St :=
  ⟨accounts, activeUsername, mcTokens, tokenCache, [], []⟩

/-- what a step finds: the time, what the network answers a refresh with, and whether a write of the file succeeds -/
structure Env where
  now : ℤ
  network : Except CodeErr (McToken × String)
  wrote : Bool

/-! ## Reads and locked sections -/

def getAccount (s : St) (username : String) : Option Account := s.accounts.find? fun a => a.username = username

def getActiveAccount (s : St) : Option Account := s.activeUsername.bind (getAccount s)

def memoryToken (s : St) (username : String) : Option McToken := s.mcTokens.get? username

/-- the token on disk, under the uuid as it is or without dashes, regardless of expiry -/
def cachedMcToken (s : St) (uuid : String) : Option McToken :=
  if uuid = "" then none
  else ((s.tokenCache.get? uuid).or (s.tokenCache.get? (dashless uuid))).filter fun t =>
    t.accessToken ≠ "" && t.expiresAt ≠ 0

def setMemoryToken (s : St) (username : String) (token : McToken) : St :=
  { s with mcTokens := s.mcTokens.insert username token }

def setCachedMcToken (s : St) (uuid : String) (token : McToken) (wrote : Bool) : St :=
  if uuid = "" ∨ token.accessToken = "" ∨ token.expiresAt = 0 ∨ !wrote then s
  else { s with tokenCache := (s.tokenCache.insert uuid token).insert (dashless uuid) token }

/-- the account is still stored: a refresh that ends after a sign-out must not write its token back -/
def stillSignedIn (s : St) (account : Account) : Bool := (getAccount s account.username).any fun a => a.uuid = account.uuid

/-- memory and both keys of the file, under the lock of the tokens -/
def forgetAccountCredentials (s : St) (username uuid : String) (wrote : Bool) : St :=
  let s := { s with mcTokens := s.mcTokens.remove username }
  if uuid ≠ "" ∧ wrote then { s with tokenCache := (s.tokenCache.remove uuid).remove (dashless uuid) } else s

def isMsa (username : String) (a : Account) : Bool := a.username = username && a.tokenKind = .msa

/-- `delete_msa_account`: the first Microsoft account of the name -/
def deleteMsaAccount (s : St) (username : String) : Except CodeErr (St × Account) :=
  match s.accounts.find? (isMsa username) with
  | some removed =>
    .ok ({ s with
      accounts := s.accounts.eraseP (isMsa username)
      activeUsername := if s.activeUsername = some username then none else s.activeUsername }, removed)
  | none => .error ⟨404, "NOT_FOUND", "Microsoft account '" ++ username ++ "' does not exist"⟩

/-- `upsert_online`: the account of the same uuid is replaced -/
def upsertOnline (s : St) (account : Account) : St :=
  let same := fun a : Account => decide (a.tokenKind = .msa) && decide (a.uuid = account.uuid)
  { s with
    accounts :=
      match s.accounts.findIdx? same with
      | some i => s.accounts.set i account
      | none => s.accounts ++ [account]
    activeUsername := some account.username }

/-- `persist_rotated_refresh`, on the first account of the name -/
def persistRotatedRefresh (s : St) (username newRefresh : String) : St :=
  match s.accounts.findIdx? fun a => a.username = username with
  | some i => { s with accounts := s.accounts.modify i fun a =>
      { a with microsoft := a.microsoft.map fun m => { m with refreshToken := some newRefresh } } }
  | none => s

def Call.ends (c : Call) (outcome : Outcome) : Call :=
  -- prewarming reports nothing
  ⟨.ended (if c.warming.isSome then .done else outcome), c.warming⟩

/-- the check and the store of a refreshed token, under the lock of the tokens -/
def store (s : St) (c : Call) (account : Account) (token : McToken) (wrote : Bool) : St × Call :=
  if stillSignedIn s account then
    (setCachedMcToken (setMemoryToken s account.username token) account.uuid token wrote, c.ends (.token (some token)))
  else (s, c.ends (.failed ⟨404, "NOT_FOUND", "account '" ++ account.username ++ "' was signed out"⟩))

/-! ## Steps -/

/-- `ensure_minecraft_token` begins -/
def ensureMinecraftToken (c : Call) (account : Account) : Call :=
  if account.tokenKind = .msa then { c with phase := .memory account } else c.ends (.token none)

/-- `refresh_minecraft_token` begins; `keep` where its result is to be stored -/
def refreshMinecraftToken (account : Account) (keep : Bool) : Except CodeErr Phase :=
  match (account.microsoft.bind MicrosoftAuth.refreshToken).filter fun r => r ≠ "" with
  | some refresh => .ok (.refreshing account refresh keep)
  | none => .error ⟨400, "MSA_NO_REFRESH", "account has no refresh token"⟩

/-- no cached token, or one that expires within the window -/
def needsPrewarm (now : ℤ) (expiresAt : Option ℤ) : Bool :=
  match expiresAt with
  | some e => !decide (e - now > prewarmWindowMs)
  | none => true

/-- after `needs_prewarm`, without the lock or under it -/
def prewarmChecked (c : Call) (account : Account) (locked : Bool) (now : ℤ) (expiresAt : Option ℤ) : Call :=
  if needsPrewarm now expiresAt then
    if locked then ensureMinecraftToken c account else { c with phase := .prewarmLock account }
  else c.ends .done

def turn (s : St) (c : Call) (env : Env) : St × Call :=
  match c.phase with
  | .lookup username => (s, { c with phase := .delete username (((getAccount s username).map Account.uuid).getD "") })
  | .delete username uuid =>
    match deleteMsaAccount s username with
    | .ok (s, removed) => (s, { c with phase := .forget username uuid removed })
    | .error e => (s, c.ends (.failed e))
  | .forget username uuid removed =>
    let s := forgetAccountCredentials s username uuid env.wrote
    ({ s with signedOut := (username, removed.uuid) :: s.signedOut }, c.ends (.deleted username))
  | .active =>
    match getActiveAccount s with
    | some account => (s, if account.tokenKind = .msa then { c with phase := .expiry account false } else c.ends .done)
    | none => (s, c.ends .done)
  | .expiry account locked =>
    match memoryToken s account.username with
    | some t => (s, prewarmChecked c account locked env.now (some t.expiresAt))
    | none => (s, { c with phase := .expiryDisk account locked })
  | .expiryDisk account locked =>
    (s, prewarmChecked c account locked env.now ((cachedMcToken s account.uuid).map McToken.expiresAt))
  | .prewarmLock account =>
    if s.calls.any fun c' => c'.warming = some account.username && !(match c'.phase with | .ended _ => true | _ => false)
    then (s, c)
    else (s, ⟨.expiry account true, some account.username⟩)
  | .memory account =>
    match (memoryToken s account.username).filter (isFresh env.now) with
    | some t => (s, c.ends (.token (some t)))
    | none => (s, { c with phase := .disk account })
  | .disk account =>
    match (cachedMcToken s account.uuid).filter (isFresh env.now) with
    | some t => (s, { c with phase := .remember account t })
    | none =>
      match refreshMinecraftToken account true with
      | .ok phase => (s, { c with phase := phase })
      | .error e => (s, { c with phase := .fallback account e })
  | .remember account token => (setMemoryToken s account.username token, c.ends (.token (some token)))
  | .refreshing account refresh keep =>
    match env.network with
    | .ok (token, newRefresh) =>
      if newRefresh ≠ refresh then (s, { c with phase := .rotating account token newRefresh keep })
      else (s, if keep then { c with phase := .storing account token } else c.ends (.token (some token)))
    | .error e => (s, if keep then { c with phase := .fallback account e } else c.ends (.failed e))
  | .rotating account token newRefresh keep =>
    (persistRotatedRefresh s account.username newRefresh,
      if keep then { c with phase := .storing account token } else c.ends (.token (some token)))
  | .fallback account error =>
    match (cachedMcToken s account.uuid).filter (isFresh env.now) with
    | some t => (s, { c with phase := .remember account t })
    | none => (s, c.ends (.failed error))
  | .storing account token => store s c account token env.wrote
  | .upsert account token => (upsertOnline s account, { c with phase := .signedIn account token })
  | .signedIn account token =>
    let s := setMemoryToken s account.username token
    ({ s with signedOut := s.signedOut.filter fun o =>
        !(o.1 = account.username && dashless o.2 = dashless account.uuid) }, c.ends .done)
  | .ended _ => (s, c)

inductive Op where
  | msaLogout (username : String)
  | ensureMinecraftToken (account : Account)
  | prewarmMsaToken
  | refreshMinecraftToken (account : Account)
  /-- Microsoft has answered a sign-in -/
  | signIn (account : Account) (token : McToken)
  | setActiveAccount (username : String)
  | turn (i : ℕ) (env : Env)

def begin (s : St) (c : Call) : St := { s with calls := s.calls ++ [c] }

def step (s : St) : Op → St
  | .msaLogout username => begin s ⟨.lookup username, none⟩
  | .ensureMinecraftToken account => begin s (ensureMinecraftToken ⟨.ended .done, none⟩ account)
  | .prewarmMsaToken => begin s ⟨.active, none⟩
  | .refreshMinecraftToken account =>
    match refreshMinecraftToken account false with
    | .ok phase => begin s ⟨phase, none⟩
    | .error e => begin s ⟨.ended (.failed e), none⟩
  | .signIn account token => begin s ⟨.upsert { account with tokenKind := .msa } token, none⟩
  | .setActiveAccount username =>
    if (getAccount s username).isSome then { s with activeUsername := some username } else s
  | .turn i env =>
    match s.calls[i]? with
    | some c =>
      let next := turn s c env
      { next.1 with calls := next.1.calls.set i next.2 }
    | none => s

end EspectralClient.MsAuth
