/-
Three verifiers of one entitlement grant, `b64url(header).b64url(payload).b64url(sig)`: the relay's
(`services/ruta-relay/src/grant.rs`), the mod's (`branding-mod/.../cosmetics/GrantVerifier.java`) and the engine's
(`native/engine/src/grant.rs`).

Each takes base64 and JSON from its own library (`Libs`), and Ed25519 under the pinned key as a predicate on the message
and the 64 bytes of a signature; a signature of another length is an error of every library. A token is its ASCII bytes.

- `Relay.verifyAt`, `Mod.verify`, `Engine.verifyGrant`: the verifiers, check by check in the order of the source.
- `require`, `orFail`: one check that a verifier makes; `require_bind_ok` and `orFail_bind_ok` read a check back from an
  accepted token.
-/
import EspectralClient.Lib.Base64
import EspectralClient.Lib.Binary64
import EspectralClient.Engine.Json
import EspectralClient.Relay.Proto

namespace EspectralClient.GrantVerifiers

open EspectralClient.Lib

/-! ## Checks -/

section Checks

variable {ε α β : Type}

def require (p : Prop) [Decidable p] (e : ε) : Except ε Unit := if p then .ok () else .error e

def orFail (o : Option α) (e : ε) : Except ε α :=
  match o with
  | some a => .ok a
  | none => .error e

@[simp] theorem require_bind_ok {p : Prop} [Decidable p] {e : ε} {f : Unit → Except ε β} {b : β} :
    (require p e >>= f) = .ok b ↔ p ∧ f () = .ok b := by
  unfold require
  split_ifs with h
  · exact (and_iff_right h).symm
  · constructor
    · intro hb
      cases hb
    · intro hb
      exact absurd hb.1 h

@[simp] theorem orFail_bind_ok {o : Option α} {e : ε} {f : α → Except ε β} {b : β} :
    (orFail o e >>= f) = .ok b ↔ ∃ a, o = some a ∧ f a = .ok b := by
  cases o with
  | some a => simp [orFail, bind, Except.bind]
  | none =>
    constructor
    · intro hb
      cases hb
    · rintro ⟨a, ha, -⟩
      cases ha

@[simp] theorem guard_bind_some {p : Prop} [Decidable p] {f : Unit → Option β} {b : β} :
    (guard p : Option Unit).bind f = some b ↔ p ∧ f () = some b := by
  by_cases h : p <;> simp [guard, h, failure]

end Checks

/-! ## What the verifiers share -/

structure Libs where
  b64 : List UInt8 → Option (List UInt8)
  /-- the JSON parser, on the bytes of a text -/
  json : List UInt8 → Option Json

def dot : UInt8 := 0x2e

/-- exactly three parts between dots -/
def split3 (jws : List UInt8) : Option (List UInt8 × List UInt8 × List UInt8) :=
  match jws.splitOn dot with
  | [h, p, s] => some (h, p, s)
  | _ => none

def strOf (v : Json) (key : String) : Option String := (v.get? key).bind Json.asStr

/-- 32 lowercase hex characters; such a text has as many bytes, and UTF-16 units, as characters -/
def isHex32 (s : String) : Bool :=
  s.toList.length = 32 ∧ s.toList.all fun c => ('0' ≤ c ∧ c ≤ '9') ∨ ('a' ≤ c ∧ c ≤ 'f')

def issuers : List String := ["https://id.uhce.top", "https://id.espectral.es"]

def maxIatSkew : ℤ := 300

def i64Min : ℤ := -2 ^ 63

def i64Max : ℤ := 2 ^ 63 - 1

/-- Lowering ASCII is enough: no other character has a letter of the two known flags as its lower case. -/
def lowercase (s : String) : String := String.ofList (s.toList.map Char.toLower)

def pushFlag (kept : List String) (f : Json) : List String :=
  match f with
  | .str s =>
    let lower := lowercase s
    if (lower = "supporter" ∨ lower = "mvp") ∧ lower ∉ kept then kept ++ [lower] else kept
  | _ => kept

/-- the known flags, lower-cased and each once -/
def knownFlags (flags : List Json) : List String := flags.foldl pushFlag []

/-! ## The relay -/

namespace Relay

structure Claims where
  sub : String
  exp : ℤ
  flags : List String
deriving DecidableEq, Repr

def Claims.hasFlag (c : Claims) (flag : String) : Bool := flag ∈ c.flags

def Claims.isMvp (c : Claims) : Bool := c.hasFlag "mvp"

def decodeJson (lib : Libs) (b64 : List UInt8) : Option Json := do
  let bytes ← lib.b64 b64
  let v ← lib.json bytes
  if v.asObject.isSome then some v else none

/-- `i64::saturating_add` -/
def saturatingAdd (a b : ℤ) : ℤ := max i64Min (min i64Max (a + b))

/-- the claims of a payload whose signature is good -/
def claimsOf (payload : Json) (now : ℤ) : Except Proto.Code Claims := do
  require ((payload.get? "v").bind Json.asI64 = some 1) .auth
  require (∃ iss ∈ strOf payload "iss", iss ∈ issuers) .auth
  require (strOf payload "aud" = some "espectral-client") .auth
  let exp ← orFail ((payload.get? "exp").bind Json.asI64) .expired
  require (now ≤ exp) .expired
  let iat ← orFail ((payload.get? "iat").bind Json.asI64) .expired
  require (iat ≤ saturatingAdd now maxIatSkew) .expired
  let sub ← orFail (strOf payload "sub") .auth
  require (isHex32 sub) .auth
  let flags := knownFlags (((payload.get? "flags").bind Json.asArray).getD [])
  .ok ⟨sub, exp, flags⟩

def verifyAt (lib : Libs) (ed25519 : List UInt8 → List UInt8 → Bool) (jws : List UInt8) (now : ℤ) :
    Except Proto.Code Claims := do
  let parts ← orFail (split3 jws) .auth
  require (parts.1 ≠ [] ∧ parts.2.1 ≠ [] ∧ parts.2.2 ≠ []) .auth
  let header ← orFail (decodeJson lib parts.1) .auth
  require (strOf header "alg" = some "EdDSA") .auth
  require (strOf header "kid" = some "eid1") .auth
  require (strOf header "typ" = some "ESG") .auth
  let sig ← orFail (lib.b64 parts.2.2) .auth
  require (sig.length = 64) .auth
  require (ed25519 (jws.take (parts.1.length + 1 + parts.2.1.length)) sig) .auth
  let payload ← orFail (decodeJson lib parts.2.1) .auth
  claimsOf payload now

end Relay

/-! ## The mod -/

namespace Mod

structure Grant where
  subject : String
  flags : List String
  expiresAt : ℤ
deriving DecidableEq, Repr

def Grant.hasFlag (g : Grant) (flag : String) : Bool := flag ∈ g.flags

def parseJson (lib : Libs) (bytes : List UInt8) : Option Json := do
  let v ← lib.json bytes
  if v.asObject.isSome then some v else none

/-- two's complement, 64 bits -/
def wrap64 (n : ℤ) : ℤ := n.bmod (2 ^ 64)

-- `getAsLong` of a number that is no integer, which Gson reads from its text
variable (longOfDouble : UInt64 → ℤ)

def num (obj : Json) (key : String) (fallback : ℤ) : ℤ :=
  match obj.get? key with
  | some (.int n) => wrap64 n
  | some (.double bits) => longOfDouble bits
  | _ => fallback

/-- the checks on a payload whose signature is good -/
def grantOf (payload : Json) (subject : String) (now : ℤ) : Option Grant := do
  guard (num longOfDouble payload "v" (-1) = 1)
  guard (strOf payload "iss" = some "https://id.uhce.top" ∨ strOf payload "iss" = some "https://id.espectral.es")
  guard (strOf payload "aud" = some "espectral-client")
  guard (now ≤ num longOfDouble payload "exp" i64Min)
  guard (num longOfDouble payload "iat" i64Max ≤ wrap64 (now + maxIatSkew))
  guard (strOf payload "sub" = some subject)
  guard (isHex32 subject)
  let flags := knownFlags (((payload.get? "flags").bind Json.asArray).getD [])
  some ⟨subject, flags, num longOfDouble payload "exp" 0⟩

/-- `None` is the `null` of every failed check and every exception -/
def verify (lib : Libs) (ed25519 : List UInt8 → List UInt8 → Bool) (jws : List UInt8) (subject : String) (now : ℤ) :
    Option Grant := do
  guard (jws ≠ [])
  let parts ← split3 jws
  guard (parts.1 ≠ [] ∧ parts.2.1 ≠ [] ∧ parts.2.2 ≠ [])
  let header ← (lib.b64 parts.1).bind (parseJson lib)
  guard (strOf header "alg" = some "EdDSA")
  guard (strOf header "kid" = some "eid1")
  guard (strOf header "typ" = some "ESG")
  let signature ← lib.b64 parts.2.2
  guard (signature.length = 64)
  guard (ed25519 (parts.1 ++ dot :: parts.2.1) signature)
  let payload ← (lib.b64 parts.2.1).bind (parseJson lib)
  grantOf longOfDouble payload subject now

end Mod

/-! ## The engine -/

namespace Engine

structure GrantError where
  code : String
  message : String
deriving DecidableEq, Repr

structure GrantPayload where
  sub : String
  flags : List String
  /-- unix seconds, as a double -/
  iat : ℚ
  exp : ℚ
  iss : String
  aud : String
  raw : Json

def malformed (message : String) : GrantError := ⟨"GRANT_MALFORMED", message⟩

def decodePart (lib : Libs) (part : List UInt8) (what : String) : Except GrantError (List UInt8) := do
  require (¬(part = [] ∨ 8192 < part.length ∨ part.all Base64.inAlphabet = false))
    (malformed ("grant " ++ what ++ " part is not base64url"))
  let usable := if part.length % 4 = 1 then part.dropLast else part
  orFail (lib.b64 usable) (malformed ("grant " ++ what ++ " part is not decodable"))

def parseJsonPart (lib : Libs) (part : List UInt8) (what : String) : Except GrantError Json := do
  let bytes ← decodePart lib part what
  let v ← orFail (lib.json bytes) (malformed ("grant " ++ what ++ " is not valid JSON"))
  require (v.asObject.isSome) (malformed ("grant " ++ what ++ " is not a JSON object"))
  .ok v

/-- the value of a number as a double -/
def asF64 : Json → Option ℚ
  | .int n => some (Binary64.ofInt n)
  | .double bits => Binary64.value bits
  | _ => none

def flagsOf (flags : Option Json) : Except GrantError (List String) :=
  match flags with
  | none => .ok []
  | some (.arr a) => .ok (a.filterMap Json.asStr)
  | some _ => .error (malformed "grant flags must be an array")

-- `Value::to_string`, for the messages
variable (text : Json → String)

def js (v : Option Json) : String :=
  match v with
  | none => "undefined"
  | some v => text v

/-- the checks on a payload whose signature is good -/
def payloadOf (payload : Json) (sub : Option String) (now : ℤ) : Except GrantError GrantPayload := do
  require ((payload.get? "v").bind asF64 = some 1)
    ⟨"GRANT_BAD_VERSION", "grant v must be 1 (got " ++ js text (payload.get? "v") ++ ")"⟩
  let badIss : GrantError := ⟨"GRANT_BAD_ISS", "grant iss mismatch (got " ++ js text (payload.get? "iss") ++ ")"⟩
  let iss ← orFail (strOf payload "iss") badIss
  require (iss ∈ issuers) badIss
  require (strOf payload "aud" = some "espectral-client")
    ⟨"GRANT_BAD_AUD", "grant aud mismatch (got " ++ js text (payload.get? "aud") ++ ")"⟩
  let badSub : GrantError := ⟨"GRANT_BAD_SUB", "grant sub must be a 32-char lowercase hex uuid"⟩
  let psub ← orFail (strOf payload "sub") badSub
  require (isHex32 psub) badSub
  require (∀ want ∈ sub, psub = want) ⟨"GRANT_WRONG_SUB", "grant is bound to a different uuid"⟩
  let expired : GrantError := ⟨"GRANT_EXPIRED", "grant is expired"⟩
  let exp ← orFail ((payload.get? "exp").bind asF64) expired
  require ((Binary64.ofInt now : ℚ) < exp) expired
  let badIat : GrantError := ⟨"GRANT_BAD_IAT", "grant iat is in the future"⟩
  let iat ← orFail ((payload.get? "iat").bind asF64) badIat
  require (iat ≤ (Binary64.ofInt (Binary64.ofInt now + maxIatSkew) : ℚ)) badIat
  let flags ← flagsOf (payload.get? "flags")
  .ok ⟨psub, flags, iat, exp, iss, "espectral-client", payload⟩

/-- The registered key of a kid. Only tests register one beside the pinned key. -/
def keyOf (ed25519 : List UInt8 → List UInt8 → Bool) (kid : String) : Option (List UInt8 → List UInt8 → Bool) :=
  if kid = "eid1" then some ed25519 else none

def verifyGrant (lib : Libs) (ed25519 : List UInt8 → List UInt8 → Bool) (token : List UInt8) (sub : Option String)
    (now : ℤ) : Except GrantError GrantPayload := do
  let parts ← orFail (split3 token) (malformed "grant must have exactly 3 dot-separated parts")
  let header ← parseJsonPart lib parts.1 "header"
  require (strOf header "alg" = some "EdDSA")
    ⟨"GRANT_BAD_ALG", "grant alg must be EdDSA (got " ++ js text (header.get? "alg") ++ ")"⟩
  let key ← orFail ((strOf header "kid").bind (keyOf ed25519))
    ⟨"GRANT_UNKNOWN_KID", "grant signed with unknown kid " ++ js text (header.get? "kid")⟩
  let sig ← decodePart lib parts.2.2 "signature"
  require (sig.length = 64 ∧ key (parts.1 ++ dot :: parts.2.1) sig)
    ⟨"GRANT_BAD_SIGNATURE", "grant signature does not verify"⟩
  let payload ← parseJsonPart lib parts.2.1 "payload"
  payloadOf text payload sub now

end Engine

end EspectralClient.GrantVerifiers
