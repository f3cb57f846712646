/-
The identity service's store and its sign-in route (`services/espectral-id/app/db.py`, `routes.py`): challenges, sessions
and Discord links in three tables, one locked section an operation, and `auth_verify` as its three steps around the two
awaits.

- `Db`: the tables, each by its primary key, and the operations on them.
- `Service`: the store, the verify requests under way, and what has happened so far (`Event`, newest first).
- `step`: one locked section, or the answer of the session server.
-/
import EspectralClient.Lib.IndexMap

namespace EspectralClient.EspectralId

open EspectralClient.Lib

/-! ## The tables -/

structure Challenge where
  serverId : String
  createdAt : ℤ
  expiresAt : ℤ
  used : Bool
deriving DecidableEq, Repr

structure Session where
  tokenHash : String
  uuid : String
  name : String
  createdAt : ℤ
  expiresAt : ℤ
deriving DecidableEq, Repr

structure DiscordLink where
  discordId : String
  updatedAt : ℤ
deriving DecidableEq, Repr

structure Db where
  /-- by `challenge_id` -/
  challenges : IndexMap String Challenge
  /-- by `token_hash` -/
  sessions : IndexMap String Session
  /-- by `uuid` -/
  discordLinks : IndexMap String DiscordLink
deriving DecidableEq

/-- a row of `get_session` -/
structure SessionRow where
  uuid : String
  name : String
  discordId : Option String
  expiresAt : ℤ
deriving DecidableEq, Repr

namespace Db

/-- `none`: the id is taken -/
def createChallenge (db : Db) (challengeId serverId : String) (ttlSeconds now : ℤ) : Option (ℤ × Db) :=
  if (db.challenges.get? challengeId).isSome then none
  else
    some (now + ttlSeconds,
      { db with challenges := db.challenges.insert challengeId ⟨serverId, now, now + ttlSeconds, false⟩ })

/-- marks a challenge used; its server id if it was live and unspent -/
def consumeChallenge (db : Db) (challengeId : String) (now : ℤ) : Option String × Db :=
  match db.challenges.get? challengeId with
  | none => (none, db)
  | some row =>
    if row.used = false ∧ now < row.expiresAt then
      (some row.serverId, { db with challenges := db.challenges.insert challengeId { row with used := true } })
    else (none, db)

/-- the rows that the delete before an insert leaves -/
def otherSessions (db : Db) (uuid : String) (now : ℤ) : IndexMap String Session :=
  db.sessions.retain fun _ s => if s.uuid = uuid ∨ s.expiresAt ≤ now then none else some s

/-- `none`: the hash is taken, and the insert raises after the delete -/
def createSession (db : Db) (tokenHash uuid name : String) (ttlSeconds now : ℤ) : Option ℤ × Db :=
  let sessions := db.otherSessions uuid now
  if (sessions.get? tokenHash).isSome then (none, { db with sessions := sessions })
  else
    (some (now + ttlSeconds),
      { db with sessions := sessions.insert tokenHash ⟨tokenHash, uuid, name, now, now + ttlSeconds⟩ })

def getSession (db : Db) (tokenHash : String) (now : ℤ) : Option SessionRow :=
  match db.sessions.get? tokenHash with
  | none => none
  | some s =>
    if now < s.expiresAt then
      some ⟨s.uuid, s.name, (db.discordLinks.get? s.uuid).map DiscordLink.discordId, s.expiresAt⟩
    else none

def setDiscordLink (db : Db) (uuid : String) (discordId : Option String) (now : ℤ) : Db :=
  match discordId with
  | none => { db with discordLinks := db.discordLinks.remove uuid }
  | some discordId => { db with discordLinks := db.discordLinks.insert uuid ⟨discordId, now⟩ }

def deleteSession (db : Db) (tokenHash : String) : Db := { db with sessions := db.sessions.remove tokenHash }

def purgeExpired (db : Db) (now : ℤ) : Db :=
  { db with
    challenges := db.challenges.retain fun _ c => if c.expiresAt ≤ now then none else some c
    sessions := db.sessions.retain fun _ s => if s.expiresAt ≤ now then none else some s }

end Db

/-! ## The sign-in route -/

/-- `^[...]{lo,hi}$`; the end may stand before a last line break -/
def matchesClass (inClass : Char → Bool) (lo hi : ℕ) (s : String) : Bool :=
  let line := if s.toList.getLast? = some '\n' then s.toList.dropLast else s.toList
  lo ≤ line.length && line.length ≤ hi && line.all inClass

def usernameOk (s : String) : Bool :=
  matchesClass (fun c => ('A' ≤ c && c ≤ 'Z') || ('a' ≤ c && c ≤ 'z') || ('0' ≤ c && c ≤ '9') || c = '_') 1 16 s

def uuid32Ok (s : String) : Bool := matchesClass (fun c => ('0' ≤ c && c ≤ '9') || ('a' ≤ c && c ≤ 'f')) 32 32 s

/-- what the session server answers: the profile's id as text, and its name if it has one -/
structure Profile where
  id : String
  name : Option String
deriving DecidableEq, Repr

/-- The uuid and the name of a profile that is accepted. No letter outside ASCII becomes a hex digit in lower case. -/
def joinedAs (username : String) (profile : Option Profile) : Option (String × String) :=
  match profile with
  | none => none
  | some p =>
    let uuid32 := String.ofList (p.id.toList.map Char.toLower)
    if uuid32Ok uuid32 then some (uuid32, p.name.getD username) else none

inductive Stage where
  /-- the challenge is consumed, the session server is asked -/
  | asking (serverId : String)
  | joined (uuid name : String)
deriving DecidableEq, Repr

/-- a verify request under way, and the number of the challenge it consumed -/
structure Request where
  challenge : ℕ
  username : String
  stage : Stage
deriving DecidableEq, Repr

/-- What has happened. A challenge is known by the number of events before it was issued, so an id that is issued again
after a purge is another challenge. -/
inductive Event where
  | issued (challengeId : String) (expiresAt : ℤ)
  | consumed (challenge : ℕ) (time : ℤ)
  | created (challenge : ℕ) (session : Session)
  | deleted (tokenHash : String)
  | linked (uuid : String) (discordId : Option String)
deriving DecidableEq, Repr

/-- the number of the challenge that an id was last issued for -/
def issueOf (challengeId : String) : List Event → ℕ
  | [] => 0
  | .issued id _ :: log => if id = challengeId then log.length else issueOf challengeId log
  | _ :: log => issueOf challengeId log

structure Service where
  db : Db
  requests : IndexMap ℕ Request
  /-- the last reading of the clock -/
  clock : ℤ
  log : List Event
deriving DecidableEq

inductive Op where
  | createChallenge (now : ℤ) (challengeId serverId : String) (ttlSeconds : ℤ)
  /-- `auth_verify`, until it asks the session server -/
  | consume (now : ℤ) (r : ℕ) (challengeId username : String)
  /-- the session server's answer -/
  | answer (r : ℕ) (profile : Option Profile)
  /-- the rest of `auth_verify` -/
  | createSession (now : ℤ) (r : ℕ) (token : String) (ttlSeconds : ℤ)
  | getSession (now : ℤ) (token : String)
  | setDiscordLink (now : ℤ) (uuid : String) (discordId : Option String)
  | deleteSession (token : String)
  | purgeExpired (now : ℤ)
deriving DecidableEq, Repr

/-- the clock as the operation reads it -/
def Op.now : Op → Option ℤ
  | .createChallenge now .. | .consume now .. | .createSession now .. | .getSession now _ | .setDiscordLink now ..
  | .purgeExpired now => some now
  | .answer .. | .deleteSession _ => none

/-- a verify request, until its first await -/
def verifyStart (s : Service) (now : ℤ) (r : ℕ) (challengeId username : String) : Service :=
  if (s.requests.get? r).isSome ∨ challengeId = "" ∨ username = "" ∨ usernameOk username = false then s
  else
    match s.db.consumeChallenge challengeId now with
    | (none, db) => { s with db := db }
    | (some serverId, db) =>
      { s with
        db := db
        requests := s.requests.insert r ⟨issueOf challengeId s.log, username, .asking serverId⟩
        log := .consumed (issueOf challengeId s.log) now :: s.log }

def verifyAnswer (s : Service) (r : ℕ) (profile : Option Profile) : Service :=
  match s.requests.get? r with
  | some ⟨n, username, .asking _⟩ =>
    match joinedAs username profile with
    | none => { s with requests := s.requests.remove r }
    | some (uuid, name) => { s with requests := s.requests.insert r ⟨n, username, .joined uuid name⟩ }
  | _ => s

/-- a verify request, from its last await on -/
def verifyEnd (s : Service) (now : ℤ) (r : ℕ) (tokenHash : String) (ttlSeconds : ℤ) : Service :=
  match s.requests.get? r with
  | some ⟨n, _, .joined uuid name⟩ =>
    match s.db.createSession tokenHash uuid name ttlSeconds now with
    | (none, db) => { s with db := db, requests := s.requests.remove r }
    | (some expiresAt, db) =>
      { s with
        db := db
        requests := s.requests.remove r
        log := .created n ⟨tokenHash, uuid, name, now, expiresAt⟩ :: s.log }
  | _ => s

/-- one step; `hashToken` is the SHA-256 of a token, in hex -/
def step (hashToken : String → String) (s : Service) (op : Op) : Service :=
  let s := { s with clock := op.now.getD s.clock }
  match op with
  | .createChallenge now challengeId serverId ttlSeconds =>
    match s.db.createChallenge challengeId serverId ttlSeconds now with
    | none => s
    | some (expiresAt, db) => { s with db := db, log := .issued challengeId expiresAt :: s.log }
  | .consume now r challengeId username => verifyStart s now r challengeId username
  | .answer r profile => verifyAnswer s r profile
  | .createSession now r token ttlSeconds => verifyEnd s now r (hashToken token) ttlSeconds
  | .getSession .. => s
  | .setDiscordLink now uuid discordId =>
    { s with db := s.db.setDiscordLink uuid discordId now, log := .linked uuid discordId :: s.log }
  | .deleteSession token => { s with db := s.db.deleteSession (hashToken token), log := .deleted (hashToken token) :: s.log }
  | .purgeExpired now => { s with db := s.db.purgeExpired now }

/-- an empty store, at a time -/
def Service.start (clock : ℤ) : Service := ⟨⟨.empty, .empty, .empty⟩, .empty, clock, []⟩

end EspectralClient.EspectralId
