/-
The launcher's identity store (`native/engine/src/identity.rs`): what it keeps for an account, the calls that refresh a
grant or prove an account's uuid, and signing out.

- `tokenFor`, `flagsInfo`: what an entry says, now.
- `updateEntry`, `forgetSession`: the two writes, each under the store's lock.
- `Call`, `step`: a call between two awaits, and one locked section or one answer of a service as a step.
-/
import EspectralClient.Grant.Verifiers

namespace EspectralClient.Identity

open EspectralClient.Lib
open EspectralClient.GrantVerifiers (isHex32 lowercase strOf i64Max)
open EspectralClient.GrantVerifiers.Engine (asF64 verifyGrant)

/-- what is not the engine's own: dates and the grant's parts -/
structure Libs where
  /-- an ISO date, white space around it aside, in milliseconds -/
  parseDateMs : String → Option ℤ
  isoOfMs : ℤ → Option String
  grant : GrantVerifiers.Libs
  ed25519 : List UInt8 → List UInt8 → Bool
  text : Json → String

/-- 32 lower-case hex digits, from any form of a uuid. No letter outside ASCII becomes a hex digit in lower case. -/
def normalizeUuid (uuid : String) : Option String :=
  let flat := lowercase (String.ofList (uuid.toList.filter fun c => c ≠ '-'))
  if isHex32 flat then some flat else none

/-! ## Entries -/

/-- the accounts of `identity.json`, by flat uuid -/
abbrev Accounts := IndexMap String Json

def entryOf (accounts : Accounts) (flat : String) : Option (IndexMap String Json) := (accounts.get? flat).bind Json.asObject

def getEntry (accounts : Accounts) (uuid : String) : Option (IndexMap String Json) :=
  (normalizeUuid uuid).bind (entryOf accounts)

/-- merges the fields into the entry; `none` is BAD_UUID -/
def updateEntry (accounts : Accounts) (uuid : String) (patch : List (String × Json)) : Option Accounts :=
  (normalizeUuid uuid).map fun flat =>
    let entry := patch.foldl (fun entry kv => entry.insert kv.1 kv.2) ((entryOf accounts flat).getD .empty)
    accounts.insert flat (.obj entry.entries)

def sessionKeys : List String := ["token", "token_expires_at", "flags", "grant", "grant_exp"]

/-- drops the session of a uuid, and what it vouched for -/
def forgetSession (accounts : Accounts) (uuid : String) : Accounts :=
  match normalizeUuid uuid with
  | none => accounts
  | some flat =>
    match entryOf accounts flat with
    | none => accounts
    | some entry => accounts.insert flat (.obj (sessionKeys.foldl (fun entry k => entry.remove k) entry).entries)

variable (lib : Libs)

/-- the bearer, unless it is absent or expired; without an expiry the service decides -/
def tokenFor (accounts : Accounts) (uuid : String) (nowMs : ℤ) : Option String :=
  match getEntry accounts uuid with
  | none => none
  | some entry =>
    match (entry.get? "token").bind Json.asStr with
    | none => none
    | some token =>
      if token = "" then none
      else
        match entry.get? "token_expires_at" with
        | none | some .null => some token
        | some v =>
          match v.asStr.bind lib.parseDateMs with
          | none => none
          | some exp => if nowMs < exp then some token else none

/-- seconds to milliseconds, in doubles; the denominator of a double is a power of two -/
def timesThousand (n : ℚ) : ℚ := (Binary64.roundMag (n.num.toNat * 1000) : ℚ) / n.den

/-- the service's expiry (seconds or milliseconds, or an ISO text) as the ISO text that is stored -/
def expiryIso (v : Option Json) : Option String :=
  match v with
  | none => none
  | some (.str s) => (lib.parseDateMs s).bind lib.isoOfMs
  | some v =>
    match asF64 v with
    | none => none
    | some n =>
      if 0 < n then lib.isoOfMs (if 10 ^ 12 ≤ n then min ⌊n⌋ i64Max else ⌊timesThousand n⌋)
      else none

def stringArray (v : Option Json) : List String :=
  match v with
  | some (.arr a) => a.filterMap Json.asStr
  | _ => []

structure FlagsInfo where
  flags : List String
  grant : Option String
  grantValid : Bool
deriving DecidableEq, Repr

def FlagsInfo.default : FlagsInfo := ⟨[], none, false⟩

/-- the flags of a grant that verifies, else those returned with the last one while the session is live -/
def flagsInfo (accounts : Accounts) (uuid : String) (nowMs : ℤ) : FlagsInfo :=
  match getEntry accounts uuid with
  | none => .default
  | some entry =>
    let unproved :=
      if (tokenFor lib accounts uuid nowMs).isSome then ⟨stringArray (entry.get? "flags"), none, false⟩ else .default
    match (entry.get? "grant").bind Json.asStr with
    | none => unproved
    | some g =>
      if g = "" then unproved
      else
        match verifyGrant lib.text lib.grant lib.ed25519 g.toUTF8.toList (normalizeUuid uuid) (nowMs / 1000) with
        | .ok p => ⟨p.flags, some g, true⟩
        | .error _ => unproved

/-! ## The calls -/

/-- what a call waits for -/
inductive Stage where
  /-- `ensure_minecraft_token` -/
  | minecraft
  | challenge (mcAccessToken : String)
  /-- the answer to Mojang's join -/
  | join (challengeId serverId : String)
  | verify (challengeId : String)
  /-- nothing: the session is stored, and its grant is asked for next -/
  | stored
  | grant (token : String)
deriving DecidableEq, Repr

structure Call where
  uuid : String
  username : String
  stage : Stage
deriving DecidableEq, Repr

/-- the text of a field, if there is one and it is not empty -/
def nonEmpty (data : Json) (key : String) : Option String := (strOf data key).filter fun s => s ≠ ""

/-- what `refresh_grant` stores of an answer -/
def grantPatch (data : Json) : List (String × Json) :=
  [("grant", match strOf data "grant" with
      | some g => .str g
      | none => .null),
    ("flags", .arr ((stringArray (data.get? "flags")).map Json.str)),
    ("grant_exp", match data.get? "exp" with
      | some (.int n) => .int n
      | some (.double bits) => .double bits
      | _ => .null)]

/-- what `verify_account_with_token` stores of an answer, if it is a session of this account -/
def sessionPatch (uuid : String) (verified : Json) : Option (List (String × Json)) :=
  match nonEmpty verified "token" with
  | none => none
  | some token =>
    let other := (strOf verified "uuid").bind normalizeUuid
    if other.any fun vu => vu ≠ uuid then none
    else
      some [("token", .str token),
        ("token_expires_at", match expiryIso lib (verified.get? "expires_at") with
          | some iso => .str iso
          | none => .null)]

/-- What a call writes when an answer arrives. `none` as the answer is a failure, or a refusal of the join. -/
def patchOf (call : Call) (reply : Option Json) : Option (List (String × Json)) :=
  match call.stage, reply with
  | .verify _, some verified => sessionPatch lib call.uuid verified
  | .grant _, some data => some (grantPatch data)
  | _, _ => none

/-- where a call that writes nothing goes on to; `none`: it ends -/
def nextStage (stage : Stage) (reply : Option Json) : Option Stage :=
  match stage, reply with
  | .minecraft, some token => (token.asStr.filter fun t => t ≠ "").map Stage.challenge
  | .challenge _, some data =>
    match nonEmpty data "challenge_id", nonEmpty data "server_id" with
    | some challengeId, some serverId => some (.join challengeId serverId)
    | _, _ => none
  | .join challengeId _, some _ => some (.verify challengeId)
  | _, _ => none

/-- where a call is after its write -/
def afterWrite : Stage → Option Stage
  | .verify _ => some .stored
  | _ => none

structure St where
  accounts : Accounts
  calls : IndexMap ℕ Call
  /-- the uuids that were signed out and that no proof was started for since -/
  signedOut : List String
deriving Repr

inductive Op where
  /-- `refresh_grant`, until its await -/
  | refreshGrant (nowMs : ℤ) (c : ℕ) (uuid : String)
  /-- `verify_account`, until its first await -/
  | verifyAccount (c : ℕ) (uuid username : String) (msa : Bool)
  /-- `verify_account_with_token`, until its first await -/
  | verifyAccountWithToken (c : ℕ) (uuid username mcAccessToken : String)
  /-- an answer, and the call on to its next await or locked section -/
  | answer (c : ℕ) (reply : Option Json)
  /-- the grant is asked for once the session is stored -/
  | goOn (nowMs : ℤ) (c : ℕ)
  | forgetSession (uuid : String)

def moveCall (s : St) (c : ℕ) (call : Call) (stage : Option Stage) : St :=
  match stage with
  | none => { s with calls := s.calls.remove c }
  | some stage => { s with calls := s.calls.insert c { call with stage := stage } }

def stepAnswer (s : St) (c : ℕ) (call : Call) (reply : Option Json) : St :=
  match patchOf lib call reply with
  | some patch =>
    match updateEntry s.accounts call.uuid patch with
    | some accounts => moveCall { s with accounts := accounts } c call (afterWrite call.stage)
    | none => moveCall s c call none
  | none => moveCall s c call (nextStage call.stage reply)

/-- a proof is started: the uuid is no longer one that is only signed out -/
def startProof (s : St) (c : ℕ) (uuid username : String) (stage : Stage) : St :=
  match normalizeUuid uuid with
  | none => s
  | some flat =>
    { s with
      calls := s.calls.insert c ⟨flat, username, stage⟩
      signedOut := s.signedOut.filter fun u => u ≠ flat }

def signOut (s : St) (uuid : String) : St :=
  match normalizeUuid uuid with
  | none => s
  | some flat => { s with accounts := forgetSession s.accounts uuid, signedOut := flat :: s.signedOut }

def step (s : St) : Op → St
  | .refreshGrant nowMs c uuid =>
    match s.calls.get? c, tokenFor lib s.accounts uuid nowMs with
    | none, some token => { s with calls := s.calls.insert c ⟨uuid, "", .grant token⟩ }
    | _, _ => s
  | .verifyAccount c uuid username msa =>
    if (s.calls.get? c).isSome ∨ msa = false then s else startProof s c uuid username .minecraft
  | .verifyAccountWithToken c uuid username mcAccessToken =>
    if (s.calls.get? c).isSome then s else startProof s c uuid username (.challenge mcAccessToken)
  | .answer c reply =>
    match s.calls.get? c with
    | none => s
    | some call => stepAnswer lib s c call reply
  | .goOn nowMs c =>
    match s.calls.get? c with
    | some ⟨uuid, username, .stored⟩ =>
      moveCall s c ⟨uuid, username, .stored⟩ ((tokenFor lib s.accounts uuid nowMs).map Stage.grant)
    | _ => s
  | .forgetSession uuid => signOut s uuid

end EspectralClient.Identity
