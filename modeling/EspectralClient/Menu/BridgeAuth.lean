/-
The mod's signed requests to the launcher's bridge (`menu/BridgeAuth.java`), and that the two sides agree.

- `BridgeAuth`, `requestMac`, `proofOk`: the Java side. `HmacSHA256` is RFC 2104 with the same SHA-256.
- `bridge_signatures`: the ids, MACs and proofs of the two sides are the same; the engine finds the launch a request is
  signed for; no MAC is of two messages; and the engine's HMAC is RFC 2104.
- `bridge_signatures_sample`: a request of the test suites and its answer, with SHA-256 itself.
-/
import EspectralClient.Engine.BridgeProof
import EspectralClient.Lib.Utf16

namespace EspectralClient.MenuBridge

open EspectralClient.Lib EspectralClient.Lib.JavaString
open BridgeProof (BridgeLaunch Signed DistinctIds newline isNonce mintNonce bridgeId responseProof authenticateRequest
  hmacSha256Hex)

/-! ## Model -/

/-- `toUpperCase` and `toLowerCase` in the root locale, of which the case of ASCII is used -/
structure RootLocale where
  toUpperCase : JavaString → JavaString
  toLowerCase : JavaString → JavaString
  upper_ascii : ∀ s, IsAscii s → toUpperCase s = s.map asciiUpper
  lower_ascii : ∀ s, IsAscii s → toLowerCase s = s.map asciiLower

/-- `HexFormat.of().formatHex` -/
def formatHex (bytes : List UInt8) : JavaString := ofBytes (Hex.encode bytes)

variable (sha : List UInt8 → Digest) (locale : RootLocale)

def sha256Hex (data : List UInt8) : JavaString := formatHex (sha data).1

/-- `Mac.getInstance("HmacSHA256")` -/
def hmacHex (key msg : List UInt8) : JavaString := formatHex (Sha256.hmac sha 64 key msg).1

structure BridgeAuth where
  key : List UInt8
  id : JavaString

def BridgeAuth.new (token : JavaString) : BridgeAuth where
  key := Utf16.utf8Bytes token
  id := (sha256Hex sha (Utf16.utf8Bytes token)).take 16

/-- 16 random bytes as 32 lower-case hex -/
def newNonce (b : List UInt8) : JavaString := formatHex b

/-- path plus query, as sent on the request line -/
def target (rawPath rawQuery : Option JavaString) : JavaString :=
  let path := if rawPath.getD [] = [] then ofString "/" else rawPath.getD []
  match rawQuery with
  | none => path
  | some query => path ++ ofString "?" ++ query

def requestMac (auth : BridgeAuth) (method target nonce : JavaString) (body : List UInt8) : JavaString :=
  let msg := ofString "req\n" ++ locale.toUpperCase method ++ ofString "\n" ++ target ++ ofString "\n" ++ nonce ++
    ofString "\n" ++ sha256Hex sha body
  hmacHex sha auth.key (Utf16.utf8Bytes msg)

/-- the proof that is wanted for a body -/
def wantedProof (auth : BridgeAuth) (nonce : JavaString) (body : List UInt8) : JavaString :=
  hmacHex sha auth.key (Utf16.utf8Bytes (ofString "res\n" ++ nonce ++ ofString "\n" ++ sha256Hex sha body))

/-- true when the proof signs exactly the body for the nonce -/
def proofOk (auth : BridgeAuth) (nonce : JavaString) (body : List UInt8) (proof : Option JavaString) : Bool :=
  match proof with
  | none => false
  | some proof => Utf16.utf8Bytes (wantedProof sha auth nonce body) = Utf16.utf8Bytes (locale.toLowerCase (trim proof))

/-! ## ASCII texts on the two sides -/

variable {sha locale}

def AsciiBytes (l : List UInt8) : Prop := ∀ b ∈ l, b < 0x80

theorem ascii_of_all {l : List UInt8} (h : (l.all fun b => b < 0x80) = true) : AsciiBytes l := by
  intro b hb
  exact of_decide_eq_true (List.all_eq_true.1 h b hb)

theorem isAscii_ofBytes {l : List UInt8} (h : AsciiBytes l) : IsAscii (ofBytes l) := by
  intro c hc
  obtain ⟨b, hb, rfl⟩ := List.mem_map.1 hc
  have hlt := UInt8.lt_iff_toNat_lt.1 (h b hb)
  rw [UInt16.lt_iff_toNat_lt, UInt8.toNat_toUInt16]
  exact hlt

theorem toUInt8_toUInt16 (l : List UInt8) : (ofBytes l).map UInt16.toUInt8 = l := by
  rw [ofBytes, List.map_map]
  conv_rhs => rw [← List.map_id l]
  exact List.map_congr_left fun b _ => by simp

theorem utf8Bytes_ofBytes {l : List UInt8} (h : AsciiBytes l) : Utf16.utf8Bytes (ofBytes l) = l := by
  rw [Utf16.utf8Bytes_ascii (isAscii_ofBytes h), toUInt8_toUInt16]

theorem usAscii_ofBytes {l : List UInt8} (h : AsciiBytes l) : usAscii (ofBytes l) = l := by
  rw [usAscii_ascii (isAscii_ofBytes h), toUInt8_toUInt16]

theorem AsciiBytes.append {a b : List UInt8} (ha : AsciiBytes a) (hb : AsciiBytes b) : AsciiBytes (a ++ b) := by
  intro c hc
  rcases List.mem_append.1 hc with h | h
  · exact ha c h
  · exact hb c h

theorem AsciiBytes.cons {a : UInt8} {b : List UInt8} (ha : a < 0x80) (hb : AsciiBytes b) : AsciiBytes (a :: b) :=
  List.forall_mem_cons.2 ⟨ha, hb⟩

theorem ascii_encode (bytes : List UInt8) : AsciiBytes (Hex.encode bytes) := by
  intro b hb
  have hdigit := Hex.isDigit_bounds (Hex.encode_digits hb)
  rw [UInt8.lt_iff_toNat_lt]
  change b.toNat < 128
  omega

theorem ascii_digits {l : List UInt8} (h : ∀ b ∈ l, Hex.isDigit b = true) : AsciiBytes l := by
  intro b hb
  have hdigit := Hex.isDigit_bounds (h b hb)
  rw [UInt8.lt_iff_toNat_lt]
  change b.toNat < 128
  omega

/-- what holds of the 256 bytes holds of every byte -/
theorem forall_byte {p : UInt8 → Prop} (h : ∀ n < 256, p (UInt8.ofNat n)) (b : UInt8) : p b := by
  have hb := h b.toNat b.toNat_lt
  rwa [UInt8.ofNat_toNat] at hb

theorem upper_unit : ∀ b : UInt8, b < 0x80 → asciiUpper b.toUInt16 = (Hex.upper b).toUInt16 ∧ Hex.upper b < 0x80 :=
  forall_byte (by decide +kernel)

theorem upper_ofBytes {l : List UInt8} (h : AsciiBytes l) : locale.toUpperCase (ofBytes l) = ofBytes (l.map Hex.upper) := by
  rw [locale.upper_ascii _ (isAscii_ofBytes h), ofBytes, ofBytes, List.map_map, List.map_map]
  exact List.map_congr_left fun b hb => (upper_unit b (h b hb)).1

theorem ascii_upper {l : List UInt8} (h : AsciiBytes l) : AsciiBytes (l.map Hex.upper) := by
  intro c hc
  obtain ⟨b, hb, rfl⟩ := List.mem_map.1 hc
  exact (upper_unit b (h b hb)).2

theorem lower_unit : ∀ b : UInt8, Hex.isDigit b = true → asciiLower b.toUInt16 = b.toUInt16 ∧ ¬ b.toUInt16 ≤ 0x20 :=
  forall_byte (by decide +kernel)

/-- printed digits have no white space around them and are in lower case -/
theorem lower_trim_encode (bytes : List UInt8) :
    locale.toLowerCase (trim (ofBytes (Hex.encode bytes))) = ofBytes (Hex.encode bytes) := by
  have htrim : trim (ofBytes (Hex.encode bytes)) = ofBytes (Hex.encode bytes) := by
    apply trim_eq_self
    intro c hc
    obtain ⟨b, hb, rfl⟩ := List.mem_map.1 hc
    exact UInt16.not_le.1 (lower_unit b (Hex.encode_digits hb)).2
  rw [htrim, locale.lower_ascii _ (isAscii_ofBytes (ascii_encode bytes)), ofBytes, List.map_map]
  exact List.map_congr_left fun b hb => (lower_unit b (Hex.encode_digits hb)).1

/-! ## The two sides agree -/

/-- a per-launch token: 64 lower-case hex digits -/
structure IsToken (token : List UInt8) : Prop where
  length : token.length = 64
  digits : ∀ b ∈ token, Hex.isDigit b = true

theorem IsToken.ascii {token : List UInt8} (h : IsToken token) : AsciiBytes token := ascii_digits h.digits

theorem key_new {token : List UInt8} (h : IsToken token) : (BridgeAuth.new sha (ofBytes token)).key = token :=
  utf8Bytes_ofBytes h.ascii

theorem id_new {token : List UInt8} (h : IsToken token) :
    (BridgeAuth.new sha (ofBytes token)).id = ofBytes (bridgeId sha token) := by
  change (sha256Hex sha (Utf16.utf8Bytes (ofBytes token))).take 16 = _
  rw [utf8Bytes_ofBytes h.ascii, sha256Hex, formatHex, ofBytes, ← List.map_take]
  rfl

theorem hmacHex_eq (key msg : List UInt8) : hmacHex sha key msg = ofBytes (hmacSha256Hex sha key msg) := by
  rw [BridgeProof.hmacSha256Hex_eq]
  rfl

theorem ofBytes_append (a b : List UInt8) : ofBytes (a ++ b) = ofBytes a ++ ofBytes b := List.map_append

theorem requestMac_eq {token method target nonce : List UInt8} (htoken : IsToken token) (hmethod : AsciiBytes method)
    (htarget : AsciiBytes target) (hnonce : AsciiBytes nonce) (body : List UInt8) :
    requestMac sha locale (.new sha (ofBytes token)) (ofBytes method) (ofBytes target) (ofBytes nonce) body =
      ofBytes (BridgeProof.requestMac sha token method target nonce body) := by
  have hmsg : ofString "req\n" ++ locale.toUpperCase (ofBytes method) ++ ofString "\n" ++ ofBytes target ++
      ofString "\n" ++ ofBytes nonce ++ ofString "\n" ++ sha256Hex sha body =
        ofBytes ((Signed.request method target nonce body).text sha) := by
    rw [upper_ofBytes hmethod, sha256Hex, formatHex]
    simp only [Signed.text, ofBytes_append, List.append_assoc]
    rfl
  have hascii : AsciiBytes ((Signed.request method target nonce body).text sha) := by
    exact .append (.append (.append (.append (ascii_of_all rfl) (ascii_upper hmethod)) (.cons (by decide) htarget))
      (.cons (by decide) hnonce)) (.cons (by decide) (ascii_encode _))
  rw [requestMac, key_new htoken, hmsg, utf8Bytes_ofBytes hascii, hmacHex_eq]
  rfl

theorem wantedProof_eq {token nonce : List UInt8} (htoken : IsToken token) (hnonce : AsciiBytes nonce)
    (body : List UInt8) : wantedProof sha (.new sha (ofBytes token)) (ofBytes nonce) body =
      ofBytes (responseProof sha token nonce body) := by
  have hmsg : ofString "res\n" ++ ofBytes nonce ++ ofString "\n" ++ sha256Hex sha body =
      ofBytes ((Signed.response nonce body).text sha) := by
    rw [sha256Hex, formatHex]
    simp only [Signed.text, ofBytes_append, List.append_assoc]
    rfl
  have hascii : AsciiBytes ((Signed.response nonce body).text sha) := by
    exact .append (.append (ascii_of_all rfl) hnonce) (.cons (by decide) (ascii_encode _))
  rw [wantedProof, key_new htoken, hmsg, utf8Bytes_ofBytes hascii, hmacHex_eq]
  rfl

/-- the mod accepts the engine's proof -/
theorem proofOk_responseProof {token nonce : List UInt8} (htoken : IsToken token) (hnonce : AsciiBytes nonce)
    (body : List UInt8) :
    proofOk sha locale (.new sha (ofBytes token)) (ofBytes nonce) body
      (some (ofBytes (responseProof sha token nonce body))) = true := by
  have hdigits : responseProof sha token nonce body =
      Hex.encode (Sha256.hmac sha 64 token ((Signed.response nonce body).text sha)).1 :=
    BridgeProof.hmacSha256Hex_eq sha _ _
  simp only [proofOk, wantedProof_eq htoken hnonce, hdigits, lower_trim_encode, decide_true]

/-- what the two sides compute for one request and its answer -/
structure SidesAgree (sha : List UInt8 → Digest) (locale : RootLocale) (token method target draw body : List UInt8) :
    Prop where
  id : (BridgeAuth.new sha (ofBytes token)).id = ofBytes (bridgeId sha token)
  mac : requestMac sha locale (.new sha (ofBytes token)) (ofBytes method) (ofBytes target) (newNonce draw) body =
    ofBytes (BridgeProof.requestMac sha token method target (mintNonce draw) body)
  proof : wantedProof sha (.new sha (ofBytes token)) (newNonce draw) body =
    ofBytes (responseProof sha token (mintNonce draw) body)
  /-- the mod takes the engine's proof -/
  accepted : proofOk sha locale (.new sha (ofBytes token)) (newNonce draw) body
    (some (ofBytes (responseProof sha token (mintNonce draw) body))) = true
  /-- the engine takes the mod's headers for the launch with the token -/
  found : ∀ launches : IndexMap String BridgeLaunch, DistinctIds sha launches → ∀ l ∈ launches.values, l.token = token →
    authenticateRequest sha launches (usAscii (BridgeAuth.new sha (ofBytes token)).id) (usAscii (newNonce draw))
      (usAscii (requestMac sha locale (.new sha (ofBytes token)) (ofBytes method) (ofBytes target) (newNonce draw) body))
      method target body = some l

theorem sidesAgree {token method target draw : List UInt8} (htoken : IsToken token) (hmethod : AsciiBytes method)
    (htarget : AsciiBytes target) (hdraw : draw.length = 16) (body : List UInt8) :
    SidesAgree sha locale token method target draw body := by
  have hnonce : AsciiBytes (mintNonce draw) := ascii_encode draw
  have hid : (BridgeAuth.new sha (ofBytes token)).id = ofBytes (bridgeId sha token) := id_new htoken
  have hmac : requestMac sha locale (.new sha (ofBytes token)) (ofBytes method) (ofBytes target)
      (ofBytes (mintNonce draw)) body = ofBytes (BridgeProof.requestMac sha token method target (mintNonce draw) body) :=
    requestMac_eq htoken hmethod htarget hnonce body
  refine ⟨hid, hmac, wantedProof_eq htoken hnonce body, proofOk_responseProof htoken hnonce body, ?_⟩
  intro launches hids l hl heq
  have hidAscii : AsciiBytes (bridgeId sha token) := fun b hb => ascii_encode _ b (List.mem_of_mem_take hb)
  have hmacAscii : AsciiBytes (BridgeProof.requestMac sha token method target (mintNonce draw) body) := by
    rw [BridgeProof.requestMac, BridgeProof.hmacSha256Hex_eq]
    exact ascii_encode _
  have hsent : usAscii (newNonce draw) = mintNonce draw := usAscii_ofBytes hnonce
  have hnonempty : l.token ≠ [] := by
    rintro hnil
    have hlength := htoken.length
    rw [← heq, hnil] at hlength
    cases hlength
  change authenticateRequest sha launches _ _ (usAscii (requestMac sha locale _ _ _ (ofBytes (mintNonce draw)) body)) _ _ _ = _
  rw [hid, hmac, hsent, usAscii_ofBytes hidAscii, usAscii_ofBytes hmacAscii, ← heq]
  exact BridgeProof.authenticateRequest_signed hids hl hnonempty (BridgeProof.isNonce_mintNonce hdraw) method target body

/-- **Bridge signatures.** The two sides agree on every id, MAC and proof, and each takes what the other signs; messages
that differ in kind, upper-cased method, target, nonce or body have different HMAC inputs, and so different MACs, where
SHA-256 is injective on what is hashed for them; and the HMAC is RFC 2104. -/
theorem bridge_signatures (sha : List UInt8 → Digest) (locale : RootLocale) :
    (∀ token method target draw body : List UInt8, IsToken token → AsciiBytes method → AsciiBytes target →
      newline ∉ target → draw.length = 16 → SidesAgree sha locale token method target draw body) ∧
    (∀ S : Set (List UInt8), Set.InjOn sha S → ∀ m m' : Signed, m.WellFormed → m'.WellFormed →
      ((∀ b ∈ m.bodies ++ m'.bodies, b ∈ S) → m.text sha = m'.text sha → m.Alike m') ∧
      ∀ token, (∀ b ∈ m.hashed sha token ++ m'.hashed sha token, b ∈ S) → m.mac sha token = m'.mac sha token →
        m.Alike m') ∧
    ∀ key msg, hmacSha256Hex sha key msg = Hex.encode (Sha256.hmac sha 64 key msg).1 := by
  refine ⟨?_, ?_, BridgeProof.hmacSha256Hex_eq sha⟩
  · intro token method target draw body htoken hmethod htarget _ hdraw
    exact sidesAgree htoken hmethod htarget hdraw body
  · intro S hinj m m' hm hm'
    constructor
    · intro hbodies htext
      obtain ⟨hb, hb'⟩ := List.forall_mem_append.1 hbodies
      exact (BridgeProof.text_inj hm hm' htext).alike hinj hb hb'
    · intro token hhashed hmac
      obtain ⟨hs, hs'⟩ := List.forall_mem_append.1 hhashed
      exact BridgeProof.mac_inj hinj hm hm' hs hs' hmac

/-- the case of ASCII alone -/
def asciiLocale : RootLocale where
  toUpperCase s := s.map asciiUpper
  toLowerCase s := s.map asciiLower
  upper_ascii _ _ := rfl
  lower_ascii _ _ := rfl

def sampleToken : List UInt8 := List.replicate 64 0x61

/-- `0123456789abcdef`, twice -/
def sampleDraw : List UInt8 :=
  [0x01, 0x23, 0x45, 0x67, 0x89, 0xab, 0xcd, 0xef, 0x01, 0x23, 0x45, 0x67, 0x89, 0xab, 0xcd, 0xef]

/-- `{"uuids":[]}` -/
def sampleBody : List UInt8 := [0x7b, 0x22, 0x75, 0x75, 0x69, 0x64, 0x73, 0x22, 0x3a, 0x5b, 0x5d, 0x7d]

/-- `POST` -/
def sampleMethod : List UInt8 := [0x50, 0x4f, 0x53, 0x54]

/-- `/api/bridge/visible` -/
def sampleTarget : List UInt8 :=
  [0x2f, 0x61, 0x70, 0x69, 0x2f, 0x62, 0x72, 0x69, 0x64, 0x67, 0x65, 0x2f, 0x76, 0x69, 0x73, 0x69, 0x62, 0x6c, 0x65]

def sampleRequest : Signed := .request sampleMethod sampleTarget (mintNonce sampleDraw) sampleBody

def sampleResponse : Signed := .response (mintNonce sampleDraw) sampleBody

/-- what the MACs of the two hash, the body once -/
def sampleHashed : List (List UInt8) :=
  (sampleRequest.hashed Sha256.sha256 sampleToken ++ sampleResponse.hashed Sha256.sha256 sampleToken).dedup

theorem injOn_of_nodup {l : List (List UInt8)} (h : (l.map sha).Nodup) : Set.InjOn sha {b | b ∈ l} := by
  intro a ha b hb heq
  exact List.inj_on_of_nodup_map h ha hb heq

theorem bridge_signatures_sample :
    SidesAgree Sha256.sha256 asciiLocale sampleToken sampleMethod sampleTarget sampleDraw sampleBody ∧
      sampleRequest.mac Sha256.sha256 sampleToken ≠ sampleResponse.mac Sha256.sha256 sampleToken := by
  have htoken : IsToken sampleToken := ⟨rfl, fun b hb => by rw [List.eq_of_mem_replicate hb]; rfl⟩
  have hmethod : AsciiBytes sampleMethod := ascii_of_all rfl
  have htarget : AsciiBytes sampleTarget := ascii_of_all rfl
  refine ⟨(bridge_signatures Sha256.sha256 asciiLocale).1 sampleToken sampleMethod sampleTarget sampleDraw sampleBody
    htoken hmethod htarget (by decide) rfl, ?_⟩
  have hnodup : (sampleHashed.map Sha256.sha256).Nodup := by decide +kernel
  have hinj := injOn_of_nodup hnodup
  intro hmac
  refine ((bridge_signatures Sha256.sha256 asciiLocale).2.1 _ hinj sampleRequest sampleResponse ⟨by decide, by decide⟩
    (by decide : isNonce (mintNonce sampleDraw) = true)).2 sampleToken ?_ hmac
  exact fun b hb => List.mem_dedup.2 hb

-- the id that both test suites pin
example : bridgeId Sha256.sha256 sampleToken =
    [0x66, 0x66, 0x65, 0x30, 0x35, 0x34, 0x66, 0x65, 0x37, 0x61, 0x65, 0x30, 0x63, 0x62, 0x36, 0x64] := by
  decide +kernel

end EspectralClient.MenuBridge
