/-
Discord sign-in (`native/engine/src/discord_auth.rs`), outside mock mode: the registry of OAuth states, the launcher
sessions, and the calls that mint, redeem and claim a state.

- `OAuthState`, `Session`: what the two registries keep. Each has its own lock.
- `Phase`, `act`: a call between two of its atomic steps, and what the next one does: a section under one lock, or the
  answer of the service to the code exchange.
- `St`, `step`: any interleaving of calls. The history lists say which states were minted, which exchanges were started
  and failed, which sessions and bindings callbacks made, and what claims were answered.
- `drawn`, `Drawn`: the random values are new.
-/
import EspectralClient.Lib.Hex
import EspectralClient.Engine.Identity
import EspectralClient.Engine.Modrinth

namespace EspectralClient.DiscordAuth

open EspectralClient.Lib
open EspectralClient.Identity (normalizeUuid)
open EspectralClient.Modrinth (CodeErr)

/-! ## Model -/

def stateTtlMs : ℤ := 15 * 60 * 1000

def sessionTtlMs : ℤ := 30 * 24 * 60 * 60 * 1000

structure DiscordUser where
  id : String
  name : String
  avatar : Option String
deriving DecidableEq, Repr

structure OAuthState where
  createdAt : ℤ
  linkUuid : Option String
  sessionId : Option String
  linked : Bool
  user : Option DiscordUser
  processing : Bool
deriving DecidableEq, Repr

structure Session where
  user : DiscordUser
  createdAt : ℤ
deriving DecidableEq, Repr

/-- an entry as `auth_start_url` makes it -/
def OAuthState.new (createdAt : ℤ) (linkUuid : Option String) : OAuthState :=
  ⟨createdAt, linkUuid, none, false, none, false⟩

/-- `DiscordClaim` -/
structure Claim where
  status : String
  sessionId : Option String
  linked : Option Bool
  uuid : Option String
  user : Option DiscordUser
deriving DecidableEq, Repr

def Claim.invalid : Claim := ⟨"invalid", none, none, none, none⟩

def Claim.pending : Claim := ⟨"pending", none, none, none, none⟩

/-- `DiscordCallbackOutcome` -/
structure Outcome where
  sessionId : Option String
  user : Option DiscordUser
  linked : Option Bool
deriving DecidableEq, Repr

/-- the query of Discord's redirect -/
abbrev Query := IndexMap String String

def Query.field (query : Query) (k : String) : Option String := (query.get? k).filter (· ≠ "")

def invalidState : CodeErr :=
  ⟨400, "INVALID_STATE", "OAuth state is invalid or expired. Please try logging in again."⟩

def usedState : CodeErr := ⟨400, "INVALID_STATE", "OAuth state was already used. Please try logging in again."⟩

def missingCode : CodeErr := ⟨400, "MISSING_CODE", "No authorization code received from Discord"⟩

def oauthFailed (query : Query) : CodeErr :=
  ⟨400, "DISCORD_OAUTH_FAILED", (query.field "error_description" |>.or (query.field "error")).getD
    "Discord authorization was cancelled or denied"⟩

def badUuid : CodeErr := ⟨400, "BAD_UUID", "not a uuid"⟩

inductive Reply where
  | refused (e : CodeErr)
  | started (state : String)
  | claimed (claim : Claim)
  | called (outcome : Outcome)
  | done
deriving DecidableEq, Repr

/-- where a call stands; each phase is the atomic step it takes next -/
inductive Phase where
  /-- `auth_start_url`: the sweep, then the new entry -/
  | startSweep (link : Option String)
  | mint (link : Option String)
  /-- `claim_session_user`: the sweep, the entry, and the session it names -/
  | claimSweep (state : String)
  | claimEntry (state : String)
  | claimSession (state sid : String)
  /-- `handle_callback`: the check of the state, and the exchange -/
  | check (state : Option String)
  | exchange (state : String) (link : Option String)
  /-- a link: the binding in the identity store, the grant, and the outcome under the state -/
  | bind (state uuid : String) (user : DiscordUser)
  | refreshGrant (state uuid : String) (user : DiscordUser)
  | attachLink (state uuid : String) (user : DiscordUser)
  /-- a plain login: the session, and the outcome under the state -/
  | session (state : String) (user : DiscordUser)
  | attach (state sid : String) (user : DiscordUser)
  /-- a failed exchange drops the state -/
  | drop (state : String) (e : CodeErr)
  | destroy (sid : Option String)
  | me (sid : Option String)
  | ended (reply : Reply)
deriving DecidableEq, Repr

/-- what a step takes from outside: the clock, the random draws, and the answer of the service -/
structure Env where
  now : ℤ
  draw : List UInt8
  uuid : String
  answer : Except CodeErr DiscordUser

/-- a state that `auth_start_url` made -/
structure Mint where
  state : String
  link : Option String
  at_ : ℤ
deriving DecidableEq, Repr

structure St where
  states : IndexMap String OAuthState
  sessions : IndexMap String Session
  calls : List Phase
  /-- states minted, states whose exchange was started, with the time, and states whose exchange failed -/
  minted : List Mint
  exchanged : List (String × ℤ)
  failed : List String
  /-- sessions and bindings made, with the state of the callback -/
  created : List (String × String)
  bound : List (String × String)
  /-- claims answered, with the state claimed -/
  claims : List (String × Claim)

def St.start : St := ⟨.empty, .empty, [], [], [], [], [], [], []⟩

def sweepExpiredStates (states : IndexMap String OAuthState) (now : ℤ) : IndexMap String OAuthState :=
  states.retain fun _ s => if now - s.createdAt ≤ stateTtlMs then some s else none

/-- 16 random bytes as hex -/
def randomState (draw : List UInt8) : String :=
  String.ofList ((Hex.encode draw).map fun b => Char.ofNat b.toNat)

/-- the entry section of `claim_session_user` -/
def claimEntry (s : St) (state : String) : St × Phase :=
  let answer (s : St) (c : Claim) : St × Phase := ({ s with claims := s.claims ++ [(state, c)] }, .ended (.claimed c))
  match if state = "" then none else s.states.get? state with
  | none => answer s .invalid
  | some entry =>
    match entry.sessionId with
    | some sid => ({ s with states := s.states.remove state }, .claimSession state sid)
    | none =>
      if entry.linked then
        answer { s with states := s.states.remove state } ⟨"ok", none, some true, entry.linkUuid, entry.user⟩
      else answer s .pending

/-- what `claim_session_user` answers about the session -/
def sessionClaim (sid : String) : Option Session → Claim
  | none => .invalid
  | some session => ⟨"ok", some sid, none, none, some session.user⟩

/-- the state check of `handle_callback` -/
def checkState (s : St) (state : Option String) (now : ℤ) : St × Phase :=
  match state with
  | none => (s, .ended (.refused invalidState))
  | some state =>
    match s.states.get? state with
    | none => (s, .ended (.refused invalidState))
    | some e =>
      if e.processing || e.sessionId.isSome || e.linked then (s, .ended (.refused usedState))
      else if stateTtlMs < now - e.createdAt then (s, .ended (.refused invalidState))
      else
        ({ s with
            states := s.states.insert state { e with processing := true }
            exchanged := s.exchanged ++ [(state, now)] },
          .exchange state (e.linkUuid.bind normalizeUuid))

/-- the session of an id, unless it is too old -/
def sessionUser (s : St) (sid : Option String) (now : ℤ) : St :=
  match sid.filter (· ≠ "") with
  | none => s
  | some sid =>
    match s.sessions.get? sid with
    | none => s
    | some session =>
      if sessionTtlMs < now - session.createdAt then { s with sessions := s.sessions.remove sid } else s

/-- the state a callback works on -/
def Phase.handles : Phase → Option String
  | .exchange state _ | .bind state _ _ | .refreshGrant state _ _ | .attachLink state _ _ | .session state _ | .attach state _ _
  | .drop state _ => some state
  | _ => none

/-- the next atomic step of a call -/
def act (s : St) (env : Env) : Phase → St × Phase
  | .startSweep link => ({ s with states := sweepExpiredStates s.states env.now }, .mint link)
  | .mint link =>
    let state := randomState env.draw
    ({ s with
        states := s.states.insert state (.new env.now link)
        minted := s.minted ++ [⟨state, link, env.now⟩] },
      .ended (.started state))
  | .claimSweep state => ({ s with states := sweepExpiredStates s.states env.now }, .claimEntry state)
  | .claimEntry state => claimEntry s state
  | .claimSession state sid =>
    let c := sessionClaim sid (s.sessions.get? sid)
    ({ s with claims := s.claims ++ [(state, c)] }, .ended (.claimed c))
  | .check state => checkState s state env.now
  | .exchange state link =>
    match env.answer with
    | .error e => (s, .drop state e)
    | .ok user =>
      match link with
      | some uuid => (s, .bind state uuid user)
      | none => (s, .session state user)
  | .bind state uuid user => ({ s with bound := s.bound ++ [(state, uuid)] }, .refreshGrant state uuid user)
  | .refreshGrant state uuid user => (s, .attachLink state uuid user)
  | .attachLink state uuid user =>
    ({ s with states := s.states.insert state ⟨env.now, some uuid, none, true, some user, false⟩ },
      .ended (.called ⟨none, some user, some true⟩))
  | .session state user =>
    ({ s with
        sessions := s.sessions.insert env.uuid ⟨user, env.now⟩
        created := s.created ++ [(state, env.uuid)] },
      .attach state env.uuid user)
  | .attach state sid user =>
    ({ s with states := s.states.insert state ⟨env.now, none, some sid, false, none, false⟩ },
      .ended (.called ⟨some sid, some user, none⟩))
  | .drop state e =>
    ({ s with states := s.states.remove state, failed := s.failed ++ [state] }, .ended (.refused e))
  | .destroy sid =>
    match sid.filter (· ≠ "") with
    | none => (s, .ended .done)
    | some sid => ({ s with sessions := s.sessions.remove sid }, .ended .done)
  | .me sid => (sessionUser s sid env.now, .ended .done)
  | .ended reply => (s, .ended reply)

/-- the calls of the engine's interface -/
inductive Call where
  /-- `discord_auth_start` -/
  | authStart
  /-- `identity_discord_start` of an account of the launcher with a live identity session -/
  | linkStart (uuid : String)
  | claim (state : String)
  | callback (query : Query)
  | logout (sid : Option String)
  | me (sid : Option String)

/-- what a call does before its first lock -/
def Call.begin : Call → Phase
  | .authStart => .startSweep none
  | .linkStart uuid =>
    match normalizeUuid uuid with
    | none => .ended (.refused badUuid)
    | some flat => .startSweep (some flat)
  | .claim state => .claimSweep state
  | .callback query =>
    if (query.field "error").isSome then .ended (.refused (oauthFailed query))
    else if (query.field "code").isNone then .ended (.refused missingCode)
    else .check (query.field "state")
  | .logout sid => .destroy sid
  | .me sid => .me sid

inductive Op where
  | call (c : Call)
  /-- the next step of the call at an index -/
  | turn (i : ℕ) (env : Env)

def step (s : St) : Op → St
  | .call c => { s with calls := s.calls ++ [c.begin] }
  | .turn i env =>
    match s.calls[i]? with
    | none => s
    | some phase =>
      let next := act s env phase
      { next.1 with calls := s.calls.set i next.2 }

/-- the clock a step reads -/
def Op.reading : Op → Option ℤ
  | .call _ => none
  | .turn _ env => some env.now

/-- the random values a step draws are new: no state has the digits of an earlier one, no session the id of another -/
def drawn (s : St) : Op → Bool
  | .turn i env =>
    match s.calls[i]? with
    | some (.mint _) => env.draw.length = 16 && s.minted.all fun m => m.state ≠ randomState env.draw
    | some (.session _ _) => s.created.all fun c => c.2 ≠ env.uuid
    | _ => true
  | .call _ => true

def Drawn (s : St) (o : Op) : Prop := drawn s o = true

instance (s : St) (o : Op) : Decidable (Drawn s o) := inferInstanceAs (Decidable (drawn s o = true))

end EspectralClient.DiscordAuth
