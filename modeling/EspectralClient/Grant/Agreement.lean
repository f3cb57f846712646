/-
When the three grant verifiers agree.

- `Token`: a token of canonical base64url parts whose header and payload are strict JSON objects, with `v`, `iat` and
  `exp` integers where present and `flags` an array of strings where present; its fields prove all that.
- `Shared`: the checks all three make alike, on the fields of the token.
- `relay_ok`, `mod_ok`, `engine_ok`: what each verifier accepts, on the fields: the shared checks, the header `typ` (not
  the engine), and its own window for `exp` and `iat`.
- `verifiers_agree_iff`: they agree exactly when nothing outside the shared checks tells them apart.
- `boundary_second`: at the second `exp` the relay and the mod accept what the engine refuses.
-/
import EspectralClient.Lib.Bytes
import EspectralClient.Grant.Verifiers

namespace EspectralClient.GrantVerifiers

open EspectralClient.Lib

/-! ## Tokens -/

/-- the library reads canonical base64url, and JSON texts as `strict` does -/
structure Libs.Reads (lib : Libs) (strict : List UInt8 → Option Json) : Prop where
  b64 : ∀ bytes, lib.b64 (Base64.encode bytes) = some bytes
  json : ∀ bytes v, strict bytes = some v → lib.json bytes = some v

structure Token (strict : List UInt8 → Option Json) where
  header : List UInt8
  payload : List UInt8
  signature : List UInt8
  nonempty : header ≠ [] ∧ payload ≠ [] ∧ signature ≠ []
  short : (Base64.encode header).length ≤ 8192 ∧ (Base64.encode payload).length ≤ 8192 ∧
    (Base64.encode signature).length ≤ 8192
  headerObj : IndexMap String Json
  payloadObj : IndexMap String Json
  header_json : strict header = some (.obj headerObj.entries)
  payload_json : strict payload = some (.obj payloadObj.entries)
  times : ∀ key ∈ ["v", "iat", "exp"], ∀ x, payloadObj.get? key = some x → ∃ n, x = .int n ∧ i64Min ≤ n ∧ n ≤ i64Max
  flags : ∀ x, payloadObj.get? "flags" = some x → ∃ texts : List String, x = .arr (texts.map .str)

namespace Token

variable {strict : List UInt8 → Option Json} (t : Token strict)

/-- the ASCII bytes of the token -/
def text : List UInt8 :=
  Base64.encode t.header ++ dot :: (Base64.encode t.payload ++ dot :: Base64.encode t.signature)

/-- what is signed -/
def message : List UInt8 := Base64.encode t.header ++ dot :: Base64.encode t.payload

def headerStr (key : String) : Option String := (t.headerObj.get? key).bind Json.asStr

def payloadStr (key : String) : Option String := (t.payloadObj.get? key).bind Json.asStr

/-- an integer claim of the payload -/
def time (key : String) : Option ℤ :=
  match t.payloadObj.get? key with
  | some (.int n) => some n
  | _ => none

def flagTexts : List String :=
  match t.payloadObj.get? "flags" with
  | some (.arr a) => a.filterMap Json.asStr
  | _ => []

/-- some flag spells `mvp`, in any case -/
def SpellsMvp : Prop := ∃ f ∈ t.flagTexts, lowercase f = "mvp"

end Token

theorem dot_not_mem_encode (bytes : List UInt8) : dot ∉ Base64.encode bytes := by
  intro h
  exact absurd (Base64.encode_alphabet bytes dot h) (by decide)

theorem split3_text {strict : List UInt8 → Option Json} (t : Token strict) :
    split3 t.text = some (Base64.encode t.header, Base64.encode t.payload, Base64.encode t.signature) := by
  rw [split3, Token.text, List.splitOn_append_cons_self_of_not_mem (dot_not_mem_encode _),
    List.splitOn_append_cons_self_of_not_mem (dot_not_mem_encode _), List.splitOn_eq_singleton (dot_not_mem_encode _)]

theorem filterMap_asStr (texts : List String) : (texts.map Json.str).filterMap Json.asStr = texts := by
  induction texts with
  | nil => rfl
  | cons f texts ih => simpa [Json.asStr] using ih

section Fields

variable {strict : List UInt8 → Option Json} (t : Token strict)

theorem time_cases {key : String} (hkey : key ∈ ["v", "iat", "exp"]) :
    (t.payloadObj.get? key = none ∧ t.time key = none) ∨
      ∃ n, t.payloadObj.get? key = some (.int n) ∧ t.time key = some n ∧ i64Min ≤ n ∧ n ≤ i64Max := by
  unfold Token.time
  cases h : t.payloadObj.get? key with
  | none => exact .inl ⟨rfl, rfl⟩
  | some x =>
    obtain ⟨n, rfl, hn⟩ := t.times key hkey x h
    exact .inr ⟨n, rfl, rfl, hn⟩

theorem asI64_time (key : String) (hkey : key ∈ ["v", "iat", "exp"]) :
    (t.payloadObj.get? key).bind Json.asI64 = t.time key := by
  rcases time_cases t hkey with ⟨h, ht⟩ | ⟨n, h, ht, hmin, hmax⟩
  · rw [h, ht]; rfl
  · have hrange : -2 ^ 63 ≤ n ∧ n < 2 ^ 63 := by
      simp only [i64Min, i64Max] at hmin hmax
      omega
    rw [h, ht, Option.bind_some, Json.asI64, if_pos hrange]

theorem num_time (longOfDouble : UInt64 → ℤ) (key : String) (hkey : key ∈ ["v", "iat", "exp"]) (fallback : ℤ) :
    Mod.num longOfDouble (.obj t.payloadObj.entries) key fallback = (t.time key).getD fallback := by
  unfold Mod.num
  rw [Json.get?_obj]
  rcases time_cases t hkey with ⟨h, ht⟩ | ⟨n, h, ht, hmin, hmax⟩
  · rw [h, ht]; rfl
  · rw [h, ht]
    simp only [i64Min, i64Max] at hmin hmax
    simp only [Mod.wrap64, Option.getD_some]
    exact Int.bmod_eq_of_le (by omega) (by omega)

theorem asF64_time (key : String) (hkey : key ∈ ["v", "iat", "exp"]) :
    (t.payloadObj.get? key).bind Engine.asF64 = (t.time key).map fun n => (Binary64.ofInt n : ℚ) := by
  rcases time_cases t hkey with ⟨h, ht⟩ | ⟨n, h, ht, -⟩
  · rw [h, ht]; rfl
  · rw [h, ht]; rfl

theorem flags_cases :
    (t.payloadObj.get? "flags" = none ∧ t.flagTexts = []) ∨
      t.payloadObj.get? "flags" = some (.arr (t.flagTexts.map .str)) := by
  unfold Token.flagTexts
  cases h : t.payloadObj.get? "flags" with
  | none => exact .inl ⟨rfl, rfl⟩
  | some x =>
    obtain ⟨texts, rfl⟩ := t.flags x h
    right
    dsimp only
    rw [filterMap_asStr]

theorem asArray_flags : ((t.payloadObj.get? "flags").bind Json.asArray).getD [] = t.flagTexts.map .str := by
  rcases flags_cases t with ⟨h, ht⟩ | h
  · rw [h, ht]; rfl
  · rw [h]; rfl

end Fields

/-- which flags are kept: the known ones, by their lower case -/
theorem mem_knownFlags (texts : List String) (flag : String) :
    flag ∈ knownFlags (texts.map .str) ↔
      (flag = "supporter" ∨ flag = "mvp") ∧ ∃ f ∈ texts, lowercase f = flag := by
  have hfold : ∀ kept : List String, flag ∈ (texts.map Json.str).foldl pushFlag kept ↔
      flag ∈ kept ∨ (flag = "supporter" ∨ flag = "mvp") ∧ ∃ f ∈ texts, lowercase f = flag := by
    induction texts with
    | nil => simp
    | cons f texts ih =>
      intro kept
      have hpush : flag ∈ pushFlag kept (.str f) ↔
          flag ∈ kept ∨ (flag = "supporter" ∨ flag = "mvp") ∧ lowercase f = flag := by
        simp only [pushFlag]
        split_ifs with hnew
        · rw [List.mem_append, List.mem_singleton, eq_comm (a := flag)]
          constructor
          · rintro (h | rfl)
            · exact .inl h
            · exact .inr ⟨hnew.1, rfl⟩
          · rintro (h | ⟨-, h⟩)
            · exact .inl h
            · exact .inr h
        · refine (or_iff_left_of_imp ?_).symm
          rintro ⟨hknown, rfl⟩
          by_contra hin
          exact hnew ⟨hknown, hin⟩
      rw [List.map_cons, List.foldl_cons, ih, hpush, or_assoc, ← and_or_left]
      simp
  simpa [knownFlags] using hfold []

/-! ## What each verifier accepts -/

section Accept

variable {strict : List UInt8 → Option Json} {lib : Libs} (hlib : lib.Reads strict)
  (ed25519 : List UInt8 → List UInt8 → Bool) (t : Token strict) (subject : String)

/-- the checks all three verifiers make on the header and the signature -/
structure SharedHeader : Prop where
  alg : t.headerStr "alg" = some "EdDSA"
  kid : t.headerStr "kid" = some "eid1"
  length : t.signature.length = 64
  signed : ed25519 t.message t.signature

/-- the checks all three verifiers make on the payload -/
structure SharedPayload : Prop where
  v : t.time "v" = some 1
  iss : ∃ iss ∈ t.payloadStr "iss", iss ∈ issuers
  aud : t.payloadStr "aud" = some "espectral-client"
  sub : t.payloadStr "sub" = some subject

/-- the relay's window for `exp` and `iat` -/
def RelayWindow (now : ℤ) : Prop :=
  ∃ exp ∈ t.time "exp", ∃ iat ∈ t.time "iat", now ≤ exp ∧ iat ≤ Relay.saturatingAdd now maxIatSkew

/-- the mod's; a missing claim is the end of the range that should fail -/
def ModWindow (now : ℤ) : Prop :=
  now ≤ (t.time "exp").getD i64Min ∧ (t.time "iat").getD i64Max ≤ Mod.wrap64 (now + maxIatSkew)

/-- the engine's, in doubles -/
def EngineWindow (now : ℤ) : Prop :=
  ∃ exp ∈ t.time "exp", ∃ iat ∈ t.time "iat",
    Binary64.ofInt now < Binary64.ofInt exp ∧ Binary64.ofInt iat ≤ Binary64.ofInt (Binary64.ofInt now + maxIatSkew)

def relayClaims : Relay.Claims := ⟨subject, (t.time "exp").getD 0, knownFlags (t.flagTexts.map .str)⟩

def modGrant : Mod.Grant := ⟨subject, knownFlags (t.flagTexts.map .str), (t.time "exp").getD 0⟩

theorem headerStr_eq (key : String) : strOf (.obj t.headerObj.entries) key = t.headerStr key := by
  rw [strOf, Json.get?_obj]
  rfl

theorem payloadStr_eq (key : String) : strOf (.obj t.payloadObj.entries) key = t.payloadStr key := by
  rw [strOf, Json.get?_obj]
  rfl

include hlib in
theorem relay_header : Relay.decodeJson lib (Base64.encode t.header) = some (.obj t.headerObj.entries) := by
  simp [Relay.decodeJson, hlib.b64, hlib.json _ _ t.header_json, Json.asObject]

include hlib in
theorem relay_payload : Relay.decodeJson lib (Base64.encode t.payload) = some (.obj t.payloadObj.entries) := by
  simp [Relay.decodeJson, hlib.b64, hlib.json _ _ t.payload_json, Json.asObject]

theorem parts_ne : Base64.encode t.header ≠ [] ∧ Base64.encode t.payload ≠ [] ∧ Base64.encode t.signature ≠ [] :=
  ⟨Base64.encode_ne_nil t.nonempty.1, Base64.encode_ne_nil t.nonempty.2.1, Base64.encode_ne_nil t.nonempty.2.2⟩

theorem take_message : t.text.take ((Base64.encode t.header).length + 1 + (Base64.encode t.payload).length) =
    t.message := by
  have hsplit : t.text = t.message ++ dot :: Base64.encode t.signature := by
    simp [Token.text, Token.message]
  have hlen : (Base64.encode t.header).length + 1 + (Base64.encode t.payload).length = t.message.length := by
    simp [Token.message]
    omega
  rw [hsplit, hlen, List.take_left']
  rfl

theorem relay_claims {now : ℤ} {c : Relay.Claims} (hsub : isHex32 subject) :
    (Relay.claimsOf (.obj t.payloadObj.entries) now = .ok c ∧ c.sub = subject) ↔
      SharedPayload t subject ∧ RelayWindow t now ∧ c = relayClaims t subject := by
  simp only [Relay.claimsOf, Json.get?_obj, payloadStr_eq, asI64_time t "v" (by decide),
    asI64_time t "exp" (by decide), asI64_time t "iat" (by decide), asArray_flags,
    require_bind_ok, orFail_bind_ok, RelayWindow, relayClaims]
  constructor
  · rintro ⟨⟨hv, hiss, haud, exp, hexp, hlo, iat, hiat, hhi, sub, hsub', -, hc⟩, rfl⟩
    cases hc
    exact ⟨⟨hv, hiss, haud, hsub'⟩, ⟨exp, hexp, iat, hiat, hlo, hhi⟩, by rw [hexp]; rfl⟩
  · rintro ⟨h, ⟨exp, hexp, iat, hiat, hlo, hhi⟩, rfl⟩
    refine ⟨⟨h.v, h.iss, h.aud, exp, hexp, hlo, iat, hiat, hhi, subject, h.sub, hsub, ?_⟩, rfl⟩
    rw [Option.mem_def.1 hexp]
    rfl

include hlib in
/-- **The relay** accepts for a subject what passes the shared checks, has the `typ`, and is in its window. -/
theorem relay_ok (now : ℤ) (c : Relay.Claims) (hsub : isHex32 subject) :
    (Relay.verifyAt lib ed25519 t.text now = .ok c ∧ c.sub = subject) ↔
      SharedHeader ed25519 t ∧ t.headerStr "typ" = some "ESG" ∧ SharedPayload t subject ∧ RelayWindow t now ∧
        c = relayClaims t subject := by
  rw [← relay_claims t subject hsub]
  simp only [Relay.verifyAt, split3_text, require_bind_ok, orFail_bind_ok, Option.some.injEq, exists_eq_left',
    relay_header hlib, relay_payload hlib, hlib.b64, headerStr_eq, take_message]
  constructor
  · rintro ⟨⟨-, halg, hkid, htyp, hlen, hsig, hc⟩, hs⟩
    exact ⟨⟨halg, hkid, hlen, hsig⟩, htyp, hc, hs⟩
  · rintro ⟨h, htyp, hc, hs⟩
    exact ⟨⟨parts_ne t, h.alg, h.kid, htyp, h.length, h.signed, hc⟩, hs⟩

theorem mod_grant (longOfDouble : UInt64 → ℤ) {now : ℤ} {g : Mod.Grant} (hsub : isHex32 subject) :
    Mod.grantOf longOfDouble (.obj t.payloadObj.entries) subject now = some g ↔
      SharedPayload t subject ∧ ModWindow t now ∧ g = modGrant t subject := by
  simp only [Mod.grantOf, num_time t longOfDouble "v" (by decide),
    num_time t longOfDouble "exp" (by decide), num_time t longOfDouble "iat" (by decide),
    payloadStr_eq, Json.get?_obj, asArray_flags, Option.bind_eq_bind, guard_bind_some, ModWindow, modGrant]
  have hv : (t.time "v").getD (-1) = 1 ↔ t.time "v" = some 1 := by
    cases t.time "v" <;> simp
  have hiss : (t.payloadStr "iss" = some "https://id.uhce.top" ∨ t.payloadStr "iss" = some "https://id.espectral.es") ↔
      ∃ iss ∈ t.payloadStr "iss", iss ∈ issuers := by
    cases t.payloadStr "iss" <;> simp [issuers]
  rw [hv, hiss]
  constructor
  · rintro ⟨hv, hiss, haud, hlo, hhi, hsub', -, hg⟩
    exact ⟨⟨hv, hiss, haud, hsub'⟩, ⟨hlo, hhi⟩, (Option.some.inj hg).symm⟩
  · rintro ⟨h, ⟨hlo, hhi⟩, rfl⟩
    exact ⟨h.v, h.iss, h.aud, hlo, hhi, h.sub, hsub, rfl⟩

include hlib in
/-- **The mod** accepts what passes the shared checks, has the `typ`, and is in its window. -/
theorem mod_ok (longOfDouble : UInt64 → ℤ) (now : ℤ) (g : Mod.Grant) (hsub : isHex32 subject) :
    Mod.verify longOfDouble lib ed25519 t.text subject now = some g ↔
      SharedHeader ed25519 t ∧ t.headerStr "typ" = some "ESG" ∧ SharedPayload t subject ∧ ModWindow t now ∧
        g = modGrant t subject := by
  have hheader : Mod.parseJson lib t.header = some (.obj t.headerObj.entries) := by
    simp [Mod.parseJson, hlib.json _ _ t.header_json, Json.asObject]
  have hpayload : Mod.parseJson lib t.payload = some (.obj t.payloadObj.entries) := by
    simp [Mod.parseJson, hlib.json _ _ t.payload_json, Json.asObject]
  have htext : t.text ≠ [] := by simp [Token.text]
  rw [← mod_grant t subject longOfDouble hsub]
  simp only [Mod.verify, split3_text, guard_bind_some, Option.bind_eq_bind, Option.bind_some, hlib.b64, hheader,
    hpayload, headerStr_eq]
  constructor
  · rintro ⟨-, -, halg, hkid, htyp, hlen, hsig, hg⟩
    exact ⟨⟨halg, hkid, hlen, hsig⟩, htyp, hg⟩
  · rintro ⟨h, htyp, hg⟩
    exact ⟨htext, parts_ne t, h.alg, h.kid, htyp, h.length, h.signed, hg⟩

include hlib in
theorem decodePart_ok {bytes : List UInt8} (hne : bytes ≠ []) (hshort : (Base64.encode bytes).length ≤ 8192)
    (what : String) : Engine.decodePart lib (Base64.encode bytes) what = .ok bytes := by
  have halpha : (Base64.encode bytes).all Base64.inAlphabet = true := by
    rw [List.all_eq_true]
    exact Base64.encode_alphabet bytes
  have hcheck : ¬(Base64.encode bytes = [] ∨ 8192 < (Base64.encode bytes).length ∨
      (Base64.encode bytes).all Base64.inAlphabet = false) := by
    rw [halpha]
    simp [Base64.encode_ne_nil hne, hshort]
  unfold Engine.decodePart
  rw [require_bind_ok]
  refine ⟨hcheck, ?_⟩
  simp only [if_neg (Base64.encode_length bytes), hlib.b64]
  rfl

include hlib in
theorem parseJsonPart_ok {bytes : List UInt8} (hne : bytes ≠ []) (hshort : (Base64.encode bytes).length ≤ 8192)
    {m : IndexMap String Json} (hjson : strict bytes = some (.obj m.entries)) (what : String) :
    Engine.parseJsonPart lib (Base64.encode bytes) what = .ok (.obj m.entries) := by
  unfold Engine.parseJsonPart
  rw [decodePart_ok hlib hne hshort]
  change (orFail (lib.json bytes) _ >>= _) = _
  rw [hlib.json _ _ hjson]
  rfl

/-- what the engine answers for a token it accepts -/
def enginePayload : Engine.GrantPayload :=
  ⟨subject, t.flagTexts, Binary64.ofInt ((t.time "iat").getD 0), Binary64.ofInt ((t.time "exp").getD 0),
    (t.payloadStr "iss").getD "", "espectral-client", .obj t.payloadObj.entries⟩

theorem engine_payload (json : Json → String) {now : ℤ} {p : Engine.GrantPayload} (hsub : isHex32 subject) :
    Engine.payloadOf json (.obj t.payloadObj.entries) (some subject) now = .ok p ↔
      SharedPayload t subject ∧ EngineWindow t now ∧ p = enginePayload t subject := by
  have hflags : Engine.flagsOf (t.payloadObj.get? "flags") = .ok t.flagTexts := by
    rcases flags_cases t with ⟨h, ht⟩ | h
    · rw [h, ht]
      rfl
    · rw [h, Engine.flagsOf, filterMap_asStr]
  have hv : (t.time "v").map (fun n => (Binary64.ofInt n : ℚ)) = some 1 ↔ t.time "v" = some 1 := by
    cases t.time "v" with
    | none => simp
    | some n =>
      rw [Option.map_some, Option.some.injEq, Option.some.injEq, ← Binary64.ofInt_eq_one (n := n)]
      norm_cast
  simp only [Engine.payloadOf, Json.get?_obj, payloadStr_eq, asF64_time t "v" (by decide),
    asF64_time t "exp" (by decide), asF64_time t "iat" (by decide), hflags, hv,
    require_bind_ok, orFail_bind_ok, EngineWindow, enginePayload]
  constructor
  · rintro ⟨hv, iss, hiss, hin, haud, sub, hsub', -, hwant, fexp, hfexp, hlo, fiat, hfiat, hhi, hp⟩
    obtain ⟨exp, hexp, rfl⟩ := Option.map_eq_some_iff.1 hfexp
    obtain ⟨iat, hiat, rfl⟩ := Option.map_eq_some_iff.1 hfiat
    obtain rfl : sub = subject := hwant subject rfl
    refine ⟨⟨hv, ⟨iss, hiss, hin⟩, haud, hsub'⟩, ⟨exp, hexp, iat, hiat, Int.cast_lt.1 hlo, Int.cast_le.1 hhi⟩, ?_⟩
    rw [hexp, hiat, hiss]
    exact (Except.ok.inj hp).symm
  · rintro ⟨h, ⟨exp, hexp, iat, hiat, hlo, hhi⟩, rfl⟩
    obtain ⟨iss, hiss, hin⟩ := h.iss
    rw [Option.mem_def] at hexp hiat hiss
    refine ⟨h.v, iss, hiss, hin, h.aud, subject, h.sub, hsub, by simp, _, by rw [hexp]; rfl, Int.cast_lt.2 hlo, _,
      by rw [hiat]; rfl, Int.cast_le.2 hhi, ?_⟩
    rw [hexp, hiat, hiss]
    rfl

include hlib in
/-- **The engine** accepts what passes the shared checks and is in its window, whatever the `typ`. -/
theorem engine_ok (json : Json → String) (now : ℤ) (p : Engine.GrantPayload) (hsub : isHex32 subject) :
    Engine.verifyGrant json lib ed25519 t.text (some subject) now = .ok p ↔
      SharedHeader ed25519 t ∧ SharedPayload t subject ∧ EngineWindow t now ∧ p = enginePayload t subject := by
  have hheader := parseJsonPart_ok hlib t.nonempty.1 t.short.1 t.header_json "header"
  have hpayload := parseJsonPart_ok hlib t.nonempty.2.1 t.short.2.1 t.payload_json "payload"
  have hsig := decodePart_ok hlib t.nonempty.2.2 t.short.2.2 "signature"
  have hbind : ∀ {α : Type} (a : α) (f : α → Except Engine.GrantError Engine.GrantPayload),
      ((Except.ok a : Except Engine.GrantError α) >>= f) = f a := fun a f => rfl
  have hkey : ∀ key, (t.headerStr "kid").bind (Engine.keyOf ed25519) = some key ↔
      t.headerStr "kid" = some "eid1" ∧ ed25519 = key := by
    intro key
    cases t.headerStr "kid" <;> simp [Engine.keyOf]
  rw [← engine_payload t subject json hsub]
  simp only [Engine.verifyGrant, split3_text, require_bind_ok, orFail_bind_ok, Option.some.injEq, exists_eq_left',
    hheader, hpayload, hsig, hbind, headerStr_eq, hkey]
  constructor
  · rintro ⟨halg, key, ⟨hkid, rfl⟩, ⟨hlen, hsigned⟩, hp⟩
    exact ⟨⟨halg, hkid, hlen, hsigned⟩, hp⟩
  · rintro ⟨h, hp⟩
    exact ⟨h.alg, ed25519, ⟨h.kid, rfl⟩, ⟨h.length, h.signed⟩, hp⟩

end Accept

/-! ## Agreement -/

/-- the verifiers accept the token for the subject together, and then with one `exp` and one answer on the flag -/
def Agree (relay : Except Proto.Code Relay.Claims) (mod : Option Mod.Grant)
    (engine : Except Engine.GrantError Engine.GrantPayload) (subject : String) : Prop :=
  ((∃ c, relay = .ok c ∧ c.sub = subject) ↔ ∃ g, mod = some g) ∧ ((∃ g, mod = some g) ↔ ∃ p, engine = .ok p) ∧
    ∀ c g p, relay = .ok c ∧ c.sub = subject → mod = some g → engine = .ok p →
      (g.expiresAt = c.exp ∧ p.exp = c.exp) ∧ (g.hasFlag "mvp" = c.isMvp ∧ decide ("mvp" ∈ p.flags) = c.isMvp)

section Alike

variable {strict : List UInt8 → Option Json} (t : Token strict) (now : ℤ)

/-- Nothing outside the shared checks tells the verifiers apart: a token with another `typ` is outside the engine's
window; one with the right `typ` is in all windows or in none, and where it is in them its `exp` is a double and it
spells the flag in lower case if at all. -/
def Alike : Prop :=
  (t.headerStr "typ" ≠ some "ESG" → ¬EngineWindow t now) ∧
    (t.headerStr "typ" = some "ESG" → (RelayWindow t now ↔ ModWindow t now) ∧ (ModWindow t now ↔ EngineWindow t now) ∧
      (RelayWindow t now → Binary64.ofInt ((t.time "exp").getD 0) = (t.time "exp").getD 0 ∧
        (t.SpellsMvp → "mvp" ∈ t.flagTexts)))

/-- clock and claims far from the ends of the range, where every integer is a double -/
def Near : Prop :=
  now.natAbs ≤ 2 ^ 53 - 300 ∧ (∀ exp ∈ t.time "exp", exp.natAbs ≤ 2 ^ 53) ∧ ∀ iat ∈ t.time "iat", iat.natAbs ≤ 2 ^ 53

/-- `Alike` there: a token issued in time has another `typ` only when it is expired, is not at its last second, and
spells the flag in lower case if at all -/
def NearAlike : Prop :=
  ∀ exp ∈ t.time "exp", ∀ iat ∈ t.time "iat", iat ≤ now + maxIatSkew →
    (t.headerStr "typ" ≠ some "ESG" → exp ≤ now) ∧
      (t.headerStr "typ" = some "ESG" → exp ≠ now ∧ (now < exp → t.SpellsMvp → "mvp" ∈ t.flagTexts))

/-- the windows far from the ends of the range -/
theorem windows_near (h : Near t now) :
    (RelayWindow t now ↔ ∃ exp ∈ t.time "exp", ∃ iat ∈ t.time "iat", now ≤ exp ∧ iat ≤ now + maxIatSkew) ∧
      (ModWindow t now ↔ ∃ exp ∈ t.time "exp", ∃ iat ∈ t.time "iat", now ≤ exp ∧ iat ≤ now + maxIatSkew) ∧
      (EngineWindow t now ↔ ∃ exp ∈ t.time "exp", ∃ iat ∈ t.time "iat", now < exp ∧ iat ≤ now + maxIatSkew) := by
  obtain ⟨hnow, hexp, hiat⟩ := h
  have hsat : Relay.saturatingAdd now maxIatSkew = now + maxIatSkew := by
    simp only [Relay.saturatingAdd, i64Min, i64Max, maxIatSkew]
    omega
  have hwrap : Mod.wrap64 (now + maxIatSkew) = now + maxIatSkew := by
    simp only [Mod.wrap64, maxIatSkew]
    exact Int.bmod_eq_of_le (by omega) (by omega)
  have hf : Binary64.ofInt now = now := Binary64.ofInt_exact (by omega)
  have hf' : Binary64.ofInt (now + maxIatSkew) = now + maxIatSkew :=
    Binary64.ofInt_exact (by simp only [maxIatSkew]; omega)
  refine ⟨by rw [RelayWindow, hsat], ?_, ?_⟩
  · rw [ModWindow, hwrap]
    cases ht : t.time "exp" with
    | none =>
      simp only [Option.getD_none, i64Min]
      constructor
      · intro hm
        omega
      · rintro ⟨e, he, -⟩
        cases he
    | some e =>
      cases ht' : t.time "iat" with
      | none =>
        simp only [Option.getD_none, i64Max, maxIatSkew]
        constructor
        · intro hm
          omega
        · rintro ⟨-, -, i, hi, -⟩
          cases hi
      | some i => simp
  · have hmap : ∀ e ∈ t.time "exp", ∀ i ∈ t.time "iat", (Binary64.ofInt now < Binary64.ofInt e ∧
        Binary64.ofInt i ≤ Binary64.ofInt (Binary64.ofInt now + maxIatSkew) ↔ now < e ∧ i ≤ now + maxIatSkew) := by
      intro e he i hi
      rw [hf, hf', Binary64.ofInt_exact (hexp e he), Binary64.ofInt_exact (hiat i hi)]
    constructor
    · rintro ⟨e, he, i, hi, hw⟩
      exact ⟨e, he, i, hi, (hmap e he i hi).1 hw⟩
    · rintro ⟨e, he, i, hi, hw⟩
      exact ⟨e, he, i, hi, (hmap e he i hi).2 hw⟩

theorem alike_near (h : Near t now) : Alike t now ↔ NearAlike t now := by
  obtain ⟨hr, hm, he⟩ := windows_near t now h
  simp only [Alike, NearAlike, hr, hm, he, iff_self, true_and]
  constructor
  · rintro ⟨htyp, hesg⟩ e hexp i hiat hi
    refine ⟨?_, ?_⟩
    · intro hne
      by_contra hlt
      exact htyp hne ⟨e, hexp, i, hiat, not_le.1 hlt, hi⟩
    · intro hesg'
      obtain ⟨hwin, hrest⟩ := hesg hesg'
      refine ⟨?_, ?_⟩
      · rintro rfl
        obtain ⟨e', hexp', i', hiat', hlt, -⟩ := hwin.1 ⟨e, hexp, i, hiat, le_rfl, hi⟩
        rw [Option.mem_unique hexp' hexp] at hlt
        exact lt_irrefl e hlt
      · intro hlt
        exact (hrest ⟨e, hexp, i, hiat, hlt.le, hi⟩).2
  · intro hall
    refine ⟨?_, ?_⟩
    · rintro hne ⟨e, hexp, i, hiat, hlt, hi⟩
      exact absurd ((hall e hexp i hiat hi).1 hne) (not_le.2 hlt)
    · intro hesg
      refine ⟨⟨?_, ?_⟩, ?_⟩
      · rintro ⟨e, hexp, i, hiat, hle, hi⟩
        have hne := ((hall e hexp i hiat hi).2 hesg).1
        exact ⟨e, hexp, i, hiat, lt_of_le_of_ne hle (Ne.symm hne), hi⟩
      · rintro ⟨e, hexp, i, hiat, hlt, hi⟩
        exact ⟨e, hexp, i, hiat, hlt.le, hi⟩
      · rintro ⟨e, hexp, i, hiat, hle, hi⟩
        obtain ⟨hne, hflag⟩ := (hall e hexp i hiat hi).2 hesg
        refine ⟨?_, hflag (lt_of_le_of_ne hle (Ne.symm hne))⟩
        rw [Option.mem_def.1 hexp]
        exact Binary64.ofInt_exact (h.2.1 e hexp)

end Alike

theorem relay_isMvp {strict : List UInt8 → Option Json} (t : Token strict) (subject : String) :
    (relayClaims t subject).isMvp = true ↔ t.SpellsMvp := by
  simp only [Relay.Claims.isMvp, Relay.Claims.hasFlag, relayClaims, decide_eq_true_eq, mem_knownFlags, Token.SpellsMvp]
  simp

/-- a token in all three windows is answered alike when its `exp` is a double and it spells the flag in lower case -/
theorem answers_alike {strict : List UInt8 → Option Json} (t : Token strict) (subject : String) :
    ((modGrant t subject).expiresAt = (relayClaims t subject).exp ∧
        (enginePayload t subject).exp = (relayClaims t subject).exp) ∧
      ((modGrant t subject).hasFlag "mvp" = (relayClaims t subject).isMvp ∧
        decide ("mvp" ∈ (enginePayload t subject).flags) = (relayClaims t subject).isMvp) ↔
      Binary64.ofInt ((t.time "exp").getD 0) = (t.time "exp").getD 0 ∧ (t.SpellsMvp → "mvp" ∈ t.flagTexts) := by
  have hexp : (enginePayload t subject).exp = (relayClaims t subject).exp ↔
      Binary64.ofInt ((t.time "exp").getD 0) = (t.time "exp").getD 0 := by
    simp [enginePayload, relayClaims]
  have hflag : decide ("mvp" ∈ (enginePayload t subject).flags) = (relayClaims t subject).isMvp ↔
      (t.SpellsMvp → "mvp" ∈ t.flagTexts) := by
    rw [Bool.eq_iff_iff, relay_isMvp, decide_eq_true_eq]
    refine ⟨fun h => h.2, ?_⟩
    intro h
    refine ⟨?_, h⟩
    intro hin
    exact ⟨"mvp", hin, by decide⟩
  rw [hexp, hflag]
  constructor
  · rintro ⟨⟨-, he⟩, -, hf⟩
    exact ⟨he, hf⟩
  · rintro ⟨he, hf⟩
    exact ⟨⟨rfl, he⟩, rfl, hf⟩

/-- **When the verifiers agree.** For every token, every subject of 32 hex digits and every clock: the three agree
exactly when the token fails a check they share or nothing outside those tells them apart. Far from the ends of the
range of clock and claims that is: a token issued in time has the right `typ` unless it is expired, is not at the second
`exp`, and spells the `mvp` flag in lower case if at all. -/
theorem verifiers_agree_iff {strict : List UInt8 → Option Json} {relayLib modLib engineLib : Libs}
    (hrelay : relayLib.Reads strict) (hmod : modLib.Reads strict) (hengine : engineLib.Reads strict)
    (ed25519 : List UInt8 → List UInt8 → Bool) (longOfDouble : UInt64 → ℤ) (json : Json → String) (t : Token strict)
    (subject : String) (hsub : isHex32 subject) (now : ℤ) :
    (Agree (Relay.verifyAt relayLib ed25519 t.text now) (Mod.verify longOfDouble modLib ed25519 t.text subject now)
        (Engine.verifyGrant json engineLib ed25519 t.text (some subject) now) subject ↔
      (SharedHeader ed25519 t → SharedPayload t subject → Alike t now)) ∧
    (Near t now → (Alike t now ↔ NearAlike t now)) := by
  refine ⟨?_, alike_near t now⟩
  have hr := fun c => relay_ok hrelay ed25519 t subject now c hsub
  have hm := fun g => mod_ok hmod ed25519 t subject longOfDouble now g hsub
  have he := fun p => engine_ok hengine ed25519 t subject json now p hsub
  simp only [Agree, hr, hm, he]
  by_cases hshared : SharedHeader ed25519 t ∧ SharedPayload t subject
  · obtain ⟨hh, hp⟩ := hshared
    simp only [hh, hp, true_and, forall_const]
    rw [Alike]
    by_cases htyp : t.headerStr "typ" = some "ESG"
    · simp only [htyp, true_and, ne_eq, not_true_eq_false, false_imp_iff, forall_const, exists_and_left, exists_eq,
        and_true]
      refine and_congr_right ?_
      intro hrm
      refine and_congr_right ?_
      intro hme
      constructor
      · intro hall hw
        exact (answers_alike t subject).1 (hall _ _ _ ⟨hw, rfl⟩ ⟨hrm.1 hw, rfl⟩ ⟨hme.1 (hrm.1 hw), rfl⟩)
      · rintro hall c g p ⟨hw, rfl⟩ ⟨-, rfl⟩ ⟨-, rfl⟩
        exact (answers_alike t subject).2 (hall hw)
    · simp [htyp]
  · refine iff_of_true ⟨⟨?_, ?_⟩, ⟨?_, ?_⟩, ?_⟩ ?_
    · rintro ⟨c, hh, -, hp, -⟩
      exact absurd ⟨hh, hp⟩ hshared
    · rintro ⟨g, hh, -, hp, -⟩
      exact absurd ⟨hh, hp⟩ hshared
    · rintro ⟨g, hh, -, hp, -⟩
      exact absurd ⟨hh, hp⟩ hshared
    · rintro ⟨p, hh, hp, -⟩
      exact absurd ⟨hh, hp⟩ hshared
    · rintro c g p ⟨hh, -, hp, -⟩
      exact absurd ⟨hh, hp⟩ hshared
    · intro hh hp
      exact absurd ⟨hh, hp⟩ hshared

/-! ### A token of the service -/

/-- the bytes of a text, claim by claim -/
def textOf (claims : List String) : List UInt8 := claims.flatMap Bytes.utf8

def sampleHeader : List String := ["\x7b\"alg\":\"EdDSA\"", ",\"kid\":\"eid1\"", ",\"typ\":\"ESG\"\x7d"]

def samplePayload : List String :=
  ["\x7b\"v\":1", ",\"iss\":\"https://id.uhce.top\"", ",\"aud\":\"espectral-client\"",
    ",\"sub\":", "\"0123456789abcdef", "0123456789abcdef\"", ",\"flags\":[\"mvp\"]", ",\"iat\":1790000000",
    ",\"exp\":1790086400\x7d"]

def sampleSub : String := "0123456789abcdef0123456789abcdef"

def sampleHeaderFields : List (String × Json) := [("alg", .str "EdDSA"), ("kid", .str "eid1"), ("typ", .str "ESG")]

def samplePayloadFields : List (String × Json) :=
  [("v", .int 1), ("iss", .str "https://id.uhce.top"), ("aud", .str "espectral-client"), ("sub", .str sampleSub),
    ("flags", .arr [.str "mvp"]), ("iat", .int 1790000000), ("exp", .int 1790086400)]

/-- the two JSON texts of the sample -/
def sampleJson (bytes : List UInt8) : Option Json :=
  if bytes = textOf sampleHeader then some (.obj sampleHeaderFields)
  else if bytes = textOf samplePayload then some (.obj samplePayloadFields)
  else none

def sampleLibs : Libs := ⟨Base64.decode, sampleJson⟩

theorem sampleLibs_reads : sampleLibs.Reads sampleJson := ⟨Base64.decode_encode, fun _ _ h => h⟩

theorem sampleHeader_nodup : (sampleHeaderFields.map Prod.fst).Nodup := by decide

theorem samplePayload_nodup : (samplePayloadFields.map Prod.fst).Nodup := by decide

set_option maxRecDepth 8000 in
theorem sampleTexts_short : (Base64.encode (textOf sampleHeader)).length ≤ 8192 ∧
    (Base64.encode (textOf samplePayload)).length ≤ 8192 ∧
    (Base64.encode (List.replicate 64 0)).length ≤ 8192 := by
  decide

set_option maxRecDepth 8000 in
theorem sampleTexts_ne : textOf sampleHeader ≠ [] ∧ textOf samplePayload ≠ [] ∧
    textOf samplePayload ≠ textOf sampleHeader := by
  decide

theorem sampleTimes : ∀ key ∈ ["v", "iat", "exp"], ∀ x, Assoc.get? key samplePayloadFields = some x →
    ∃ n, x = .int n ∧ i64Min ≤ n ∧ n ≤ i64Max := by
  intro key hkey x hx
  simp only [List.mem_cons, List.not_mem_nil, or_false] at hkey
  rcases hkey with rfl | rfl | rfl
  · obtain rfl := Option.some.inj hx
    exact ⟨1, rfl, by decide, by decide⟩
  · obtain rfl := Option.some.inj hx
    exact ⟨1790000000, rfl, by decide, by decide⟩
  · obtain rfl := Option.some.inj hx
    exact ⟨1790086400, rfl, by decide, by decide⟩

theorem sampleFlags : ∀ x, Assoc.get? "flags" samplePayloadFields = some x →
    ∃ texts : List String, x = .arr (texts.map .str) := by
  intro x hx
  obtain rfl := Option.some.inj hx
  exact ⟨["mvp"], rfl⟩

def sampleToken : Token sampleJson where
  header := textOf sampleHeader
  payload := textOf samplePayload
  signature := List.replicate 64 0
  nonempty := ⟨sampleTexts_ne.1, sampleTexts_ne.2.1, List.cons_ne_nil _ _⟩
  short := sampleTexts_short
  headerObj := ⟨sampleHeaderFields, sampleHeader_nodup⟩
  payloadObj := ⟨samplePayloadFields, samplePayload_nodup⟩
  header_json := if_pos rfl
  payload_json := (if_neg sampleTexts_ne.2.2).trans (if_pos rfl)
  times := sampleTimes
  flags := sampleFlags

theorem sample_header : SharedHeader (fun _ _ => true) sampleToken :=
  ⟨rfl, rfl, rfl, rfl⟩

theorem sample_payload : SharedPayload sampleToken sampleSub :=
  ⟨rfl, ⟨_, rfl, by decide⟩, rfl, rfl⟩

/-- an hour before it expires all three accept the sample -/
theorem verifiers_agree_sample :
    Agree (Relay.verifyAt sampleLibs (fun _ _ => true) sampleToken.text 1790082800)
      (Mod.verify (fun _ => 0) sampleLibs (fun _ _ => true) sampleToken.text sampleSub 1790082800)
      (Engine.verifyGrant (fun _ => "") sampleLibs (fun _ _ => true) sampleToken.text (some sampleSub) 1790082800)
      sampleSub := by
  have hnear : Near sampleToken 1790082800 := by
    refine ⟨by decide, ?_, ?_⟩
    · rintro exp hexp
      obtain rfl := Option.some.inj hexp
      decide
    · rintro iat hiat
      obtain rfl := Option.some.inj hiat
      decide
  obtain ⟨hiff, halike⟩ := verifiers_agree_iff sampleLibs_reads sampleLibs_reads sampleLibs_reads (fun _ _ => true)
    (fun _ => 0) (fun _ => "") sampleToken sampleSub (by decide) 1790082800
  rw [hiff, halike hnear]
  intro _ _ exp hexp iat hiat _
  obtain rfl := Option.some.inj hexp
  refine ⟨fun htyp => absurd rfl htyp, fun _ => ⟨by decide, fun _ _ => ?_⟩⟩
  exact List.mem_singleton.2 rfl

/-- At the second `exp` the relay and the mod accept the sample and the engine refuses it. -/
theorem boundary_second :
    ¬ ∀ (strict : List UInt8 → Option Json) (lib : Libs), lib.Reads strict →
      ∀ (ed25519 : List UInt8 → List UInt8 → Bool) (longOfDouble : UInt64 → ℤ) (json : Json → String)
        (t : Token strict) (subject : String), isHex32 subject → ∀ now : ℤ,
        Agree (Relay.verifyAt lib ed25519 t.text now) (Mod.verify longOfDouble lib ed25519 t.text subject now)
          (Engine.verifyGrant json lib ed25519 t.text (some subject) now) subject := by
  intro hall
  have hsub : isHex32 sampleSub := by decide
  obtain ⟨-, hme, -⟩ := hall sampleJson sampleLibs sampleLibs_reads (fun _ _ => true) (fun _ => 0) (fun _ => "")
    sampleToken sampleSub hsub 1790086400
  have hwindow : ModWindow sampleToken 1790086400 := ⟨by decide, by decide⟩
  obtain ⟨p, hp⟩ := hme.1 ⟨_, (mod_ok sampleLibs_reads _ sampleToken sampleSub _ _ _ hsub).2
    ⟨sample_header, rfl, sample_payload, hwindow, rfl⟩⟩
  obtain ⟨-, -, ⟨exp, hexp, iat, -, hlt, -⟩, -⟩ := (engine_ok sampleLibs_reads _ sampleToken sampleSub _ _ _ hsub).1 hp
  obtain rfl := Option.some.inj hexp
  exact absurd hlt (by decide)

end EspectralClient.GrantVerifiers
