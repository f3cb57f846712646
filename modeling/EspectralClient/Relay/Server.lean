/-
A relay connection up to its reply (`services/ruta-relay/src/server.rs`): `accept_loop`, the gates of
`Server::connection`, and the one line written to the client.

What the connection asks of the outside is in `Outside`: the bytes of the client, the clocks, the shared limit maps as
each gate finds them, and how the sockets answer. The copying after `OK` is seen by its final code only.

- `serve`: the outcome told to the client, and the code logged.
- `serve_clientErrors`: whatever happens, a code that is told is one of the client's.
- `serve_ok_iff`: a connection is let through exactly when every gate admits its request.
-/
import EspectralClient.Lib.Bytes
import EspectralClient.Grant.Verifiers
import EspectralClient.Relay.Dest
import EspectralClient.Relay.Limits

namespace EspectralClient

/-! ## Codes -/

namespace Proto.Code

def asStr : Code → String
  | proto => "proto"
  | auth => "auth"
  | expired => "expired"
  | notMvp => "notmvp"
  | dest => "dest"
  | limit => "limit"
  | connect => "connect"
  | busy => "busy"
  | idle => "idle"
  | closed => "closed"
  | error => "error"

/-- true for codes the client is told about -/
def isClientError : Code → Bool
  | proto | auth | expired | notMvp | dest | limit | connect | busy => true
  | idle | closed | error => false

end Proto.Code

namespace RelayServer

open EspectralClient.Lib EspectralClient.Proto EspectralClient.GrantVerifiers

/-! ## Model -/

structure Config where
  limits : RelayLimits.Limits
  allowLoopbackDestinations : Bool

structure Outside where
  lib : Libs
  ed25519 : List UInt8 → List UInt8 → Bool
  peer : IpAddr
  /-- the limit maps when the connection is accepted, when its grant is attached, and when it is charged -/
  atAccept : RelayLimits.Inner
  atAttach : RelayLimits.Inner
  atCharge : RelayLimits.Inner
  /-- the header came before its timeout -/
  inTime : Bool
  unread : List Chunk
  verifyNow : ℤ
  attachNow : ℤ
  chargeNow : ℤ
  connects : SocketAddr → Bool
  /-- the line `OK` and the pipelined bytes went out whole -/
  okWritten : Bool
  pipelinedWritten : Bool
  /-- the code that `pump` ends with -/
  pumped : Code

def errLine (code : Code) : String := "ERR " ++ code.asStr ++ "\n"

def okLine : String := "OK\n"

def readRequest (o : Outside) : Except Code (Request × List UInt8) :=
  if o.inTime then (readHeader o.unread).1 else .error .proto

/-- the gates between the first byte and `OK`, in order -/
def connection (cfg : Config) (o : Outside) (slot : RelayLimits.Slot) : Except Code (List UInt8) := do
  let (req, pipelined) ← readRequest o
  let claims ← Relay.verifyAt o.lib o.ed25519 req.grant o.verifyNow
  require claims.isMvp .notMvp
  require (Dest.allowedWith req.dest.ip req.dest.port cfg.allowLoopbackDestinations) .dest
  let (attached, slot, _) := RelayLimits.attachSub cfg.limits o.atAttach slot claims.sub o.attachNow
  require (attached = .ok ()) .limit
  require (o.connects req.dest) .connect
  require (0 < pipelined.length → (RelayLimits.charge cfg.limits o.atCharge slot o.chargeNow pipelined.length).1) .limit
  .ok pipelined

/-- what the client is told: `OK`, or a code -/
def serve (cfg : Config) (o : Outside) : Except Code (List UInt8) :=
  match (RelayLimits.accept cfg.limits o.atAccept o.peer).1 with
  | .error .busy => .error .busy
  | .error .limit => .error .limit
  | .ok slot => connection cfg o slot

/-- the line written to the client -/
def replyLine {α : Type} : Except Code α → String
  | .error code => errLine code
  | .ok _ => okLine

/-- the code of the log line at the end of the connection -/
def logged (cfg : Config) (o : Outside) : Code :=
  match serve cfg o with
  | .error code => code
  | .ok pipelined =>
    if o.okWritten = false then .error
    else if pipelined ≠ [] ∧ o.pipelinedWritten = false then .error
    else o.pumped

/-! ## What a client can be told -/

/-- a computation that fails with client codes only -/
def ClientErrors {α : Type} (x : Except Code α) : Prop := ∀ code, x = .error code → code.isClientError

section ClientErrors

variable {α β : Type}

theorem clientErrors_ok (a : α) : ClientErrors (.ok a) := by
  intro code h
  cases h

theorem clientErrors_bind {x : Except Code α} {f : α → Except Code β} (hx : ClientErrors x)
    (hf : ∀ a, ClientErrors (f a)) : ClientErrors (x >>= f) := by
  intro code h
  cases x with
  | error c =>
    cases h
    exact hx code rfl
  | ok a => exact hf a code h

theorem clientErrors_require {p : Prop} [Decidable p] {e : Code} (he : e.isClientError) :
    ClientErrors (require p e) := by
  intro code h
  unfold require at h
  split_ifs at h
  cases h
  exact he

theorem clientErrors_orFail {a : Option α} {e : Code} (he : e.isClientError) : ClientErrors (orFail a e) := by
  intro code h
  cases a with
  | some a => cases h
  | none =>
    cases h
    exact he

end ClientErrors

theorem readRequest_clientErrors (o : Outside) : ClientErrors (readRequest o) := by
  intro code h
  unfold readRequest at h
  split_ifs at h
  · rw [readHeader_error o.unread h]
    rfl
  · cases h
    rfl

theorem verifyAt_clientErrors (lib : Libs) (ed25519 : List UInt8 → List UInt8 → Bool) (jws : List UInt8) (now : ℤ) :
    ClientErrors (Relay.verifyAt lib ed25519 jws now) := by
  unfold Relay.verifyAt
  refine clientErrors_bind (clientErrors_orFail rfl) fun parts => ?_
  refine clientErrors_bind (clientErrors_require rfl) fun _ => ?_
  refine clientErrors_bind (clientErrors_orFail rfl) fun header => ?_
  refine clientErrors_bind (clientErrors_require rfl) fun _ => ?_
  refine clientErrors_bind (clientErrors_require rfl) fun _ => ?_
  refine clientErrors_bind (clientErrors_require rfl) fun _ => ?_
  refine clientErrors_bind (clientErrors_orFail rfl) fun sig => ?_
  refine clientErrors_bind (clientErrors_require rfl) fun _ => ?_
  refine clientErrors_bind (clientErrors_require rfl) fun _ => ?_
  refine clientErrors_bind (clientErrors_orFail rfl) fun payload => ?_
  unfold Relay.claimsOf
  refine clientErrors_bind (clientErrors_require rfl) fun _ => ?_
  refine clientErrors_bind (clientErrors_require rfl) fun _ => ?_
  refine clientErrors_bind (clientErrors_require rfl) fun _ => ?_
  refine clientErrors_bind (clientErrors_orFail rfl) fun exp => ?_
  refine clientErrors_bind (clientErrors_require rfl) fun _ => ?_
  refine clientErrors_bind (clientErrors_orFail rfl) fun iat => ?_
  refine clientErrors_bind (clientErrors_require rfl) fun _ => ?_
  refine clientErrors_bind (clientErrors_orFail rfl) fun sub => ?_
  refine clientErrors_bind (clientErrors_require rfl) fun _ => ?_
  exact clientErrors_ok _

theorem connection_clientErrors (cfg : Config) (o : Outside) (slot : RelayLimits.Slot) :
    ClientErrors (connection cfg o slot) := by
  unfold connection
  refine clientErrors_bind (readRequest_clientErrors o) fun request => ?_
  refine clientErrors_bind (verifyAt_clientErrors _ _ _ _) fun claims => ?_
  refine clientErrors_bind (clientErrors_require rfl) fun _ => ?_
  refine clientErrors_bind (clientErrors_require rfl) fun _ => ?_
  refine clientErrors_bind (clientErrors_require rfl) fun _ => ?_
  refine clientErrors_bind (clientErrors_require rfl) fun _ => ?_
  refine clientErrors_bind (clientErrors_require rfl) fun _ => ?_
  exact clientErrors_ok _

/-- **Only client codes are told.** `idle`, `closed` and `error` never reach a reply line. -/
theorem serve_clientErrors (cfg : Config) (o : Outside) : ClientErrors (serve cfg o) := by
  unfold serve
  split
  · rintro code ⟨⟩
    rfl
  · rintro code ⟨⟩
    rfl
  · exact connection_clientErrors cfg o _

/-! ## What lets a request through -/

/-- every gate lets a request through that has this many bytes behind its header -/
structure Admits (cfg : Config) (o : Outside) (req : Request) (pipelined : ℕ) (claims : Relay.Claims) : Prop where
  accepted : (RelayLimits.accept cfg.limits o.atAccept o.peer).1 = .ok ⟨o.peer, none⟩
  verified : Relay.verifyAt o.lib o.ed25519 req.grant o.verifyNow = .ok claims
  mvp : claims.isMvp = true
  dest : Dest.allowedWith req.dest.ip req.dest.port cfg.allowLoopbackDestinations = true
  attached : (RelayLimits.attachSub cfg.limits o.atAttach ⟨o.peer, none⟩ claims.sub o.attachNow).1 = .ok ()
  connects : o.connects req.dest = true
  charged : 0 < pipelined →
    (RelayLimits.charge cfg.limits o.atCharge ⟨o.peer, some claims.sub⟩ o.chargeNow pipelined).1 = true

theorem require_ok {β : Type} {p : Prop} [Decidable p] {e : Code} {f : Unit → Except Code β} {b : β} :
    (require p e >>= f) = .ok b ↔ p ∧ f () = .ok b := by
  unfold require
  by_cases hp : p
  · rw [if_pos hp, and_iff_right hp]
    rfl
  · rw [if_neg hp]
    exact iff_of_false (fun h => by cases h) fun h => hp h.1

theorem accept_slot {L : RelayLimits.Limits} {g : RelayLimits.Inner} {ip : IpAddr} {slot : RelayLimits.Slot}
    (h : (RelayLimits.accept L g ip).1 = .ok slot) : slot = ⟨ip, none⟩ := by
  unfold RelayLimits.accept at h
  split_ifs at h
  cases h
  rfl

theorem attachSub_slot {L : RelayLimits.Limits} {g : RelayLimits.Inner} {slot : RelayLimits.Slot} {sub : String}
    {now : ℤ} (h : (RelayLimits.attachSub L g slot sub now).1 = .ok ()) :
    (RelayLimits.attachSub L g slot sub now).2.1 = { slot with sub := some sub } := by
  unfold RelayLimits.attachSub at h ⊢
  cases hsub : g.subs.get? sub with
  | none => rfl
  | some entry =>
    rw [hsub] at h
    dsimp only at h ⊢
    generalize RelayLimits.attachEntry L now entry = answer at h ⊢
    obtain ⟨r | r, entry⟩ := answer
    · cases h
    · rfl

theorem serve_ok_iff {cfg : Config} {o : Outside} {pipelined : List UInt8} : serve cfg o = .ok pipelined ↔
    ∃ req claims, readRequest o = .ok (req, pipelined) ∧ Admits cfg o req pipelined.length claims := by
  unfold serve
  cases haccept : (RelayLimits.accept cfg.limits o.atAccept o.peer).1 with
  | error r =>
    refine iff_of_false (fun h => by cases r <;> cases h) ?_
    rintro ⟨req, claims, -, h⟩
    cases haccept.symm.trans h.accepted
  | ok slot =>
    obtain rfl := accept_slot haccept
    dsimp only
    unfold connection
    cases hread : readRequest o with
    | error code => exact iff_of_false (fun h => by cases h) (by rintro ⟨req, claims, ⟨⟩, -⟩)
    | ok r =>
      obtain ⟨req, rest⟩ := r
      simp only [bind, Except.bind]
      cases hverify : Relay.verifyAt o.lib o.ed25519 req.grant o.verifyNow with
      | error code =>
        refine iff_of_false (fun h => by cases h) ?_
        rintro ⟨req', claims, heq, h⟩
        cases heq
        cases hverify.symm.trans h.verified
      | ok claims =>
        change (require _ _ >>= fun _ => require _ _ >>= fun _ => require _ _ >>= fun _ => require _ _ >>= fun _ =>
          require _ _ >>= fun _ => .ok rest) = _ ↔ _
        simp only [require_ok]
        constructor
        · rintro ⟨hmvp, hdest, hattached, hconnects, hcharged, heq⟩
          cases heq
          rw [attachSub_slot hattached] at hcharged
          exact ⟨req, claims, rfl, haccept, hverify, hmvp, hdest, hattached, hconnects, hcharged⟩
        · rintro ⟨req', claims', heq, h⟩
          cases heq
          cases hverify.symm.trans h.verified
          rw [attachSub_slot h.attached]
          exact ⟨h.mvp, h.dest, h.attached, h.connects, h.charged, rfl⟩

end RelayServer

end EspectralClient
