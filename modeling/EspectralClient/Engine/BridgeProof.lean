/-
Loopback peer proofs (`native/engine/src/proof.rs`) and the lookup of the launch a request of the mod is signed for
(`bridge.rs`, `authenticate_request`). Texts are `&str`: their UTF-8 bytes.

- `hmacSha256Hex_eq`: the loop over the two pads is RFC 2104.
- `Signed`, `Signed.text`: the three kinds of signed messages.
- `text_inj`: two messages with one text are of one kind, with the same parts but for the body, which has one digest.
- `mac_inj`: two messages with one MAC, the same, unless SHA-256 collides on what the two MACs hash.
- `authenticateRequest_signed`: a request signed with a registered token finds its launch.
-/
import EspectralClient.Lib.Hex
import EspectralClient.Lib.IndexMap
import EspectralClient.Lib.Sha256

namespace EspectralClient.BridgeProof

open EspectralClient.Lib

/-! ## Model -/

variable (sha : List UInt8 → Digest)

def sha256Hex (bytes : List UInt8) : List UInt8 := Hex.encode (sha bytes).1

/-- `dst[..src.len()].copy_from_slice(src)` -/
def copyFromSlice (dst src : List UInt8) : List UInt8 := src ++ dst.drop src.length

/-- HMAC-SHA256 as lower-case hex -/
def hmacSha256Hex (key msg : List UInt8) : List UInt8 :=
  let k := copyFromSlice (List.replicate 64 0) (if 64 < key.length then (sha key).1 else key)
  let ipad := List.zipWith (· ^^^ ·) (List.replicate 64 0x36) k
  let opad := List.zipWith (· ^^^ ·) (List.replicate 64 0x5c) k
  let inner := sha (ipad ++ msg)
  Hex.encode (sha (opad ++ inner.1)).1

/-- constant-time byte comparison -/
def ctEq (a b : List UInt8) : Bool :=
  a.length = b.length ∧ (List.zip a b).foldl (fun acc p => acc ||| (p.1 ^^^ p.2)) 0 = 0

/-- 16 random bytes as 32 lower-case hex -/
def mintNonce (draw : List UInt8) : List UInt8 := Hex.encode draw

def isNonce (s : List UInt8) : Bool := s.length = 32 ∧ s.all Hex.isDigit

def bridgeId (token : List UInt8) : List UInt8 := (sha256Hex sha token).take 16

def newline : UInt8 := 0x0a

/-- `"req\n"` -/
def requestTag : List UInt8 := [0x72, 0x65, 0x71, 0x0a]

/-- `"res\n"` -/
def responseTag : List UInt8 := [0x72, 0x65, 0x73, 0x0a]

/-- `"agent-proof\n"` -/
def agentTag : List UInt8 := [0x61, 0x67, 0x65, 0x6e, 0x74, 0x2d, 0x70, 0x72, 0x6f, 0x6f, 0x66, 0x0a]

/-- the MAC the mod sends -/
def requestMac (token method target nonce body : List UInt8) : List UInt8 :=
  let msg := requestTag ++ method.map Hex.upper ++ newline :: target ++ newline :: nonce ++ newline :: sha256Hex sha body
  hmacSha256Hex sha token msg

/-- the proof the engine attaches to an answer -/
def responseProof (token nonce body : List UInt8) : List UInt8 :=
  hmacSha256Hex sha token (responseTag ++ nonce ++ newline :: sha256Hex sha body)

/-- the proof the engine gives before it is sent a bearer token -/
def agentProof (token nonce : List UInt8) : List UInt8 := hmacSha256Hex sha token (agentTag ++ nonce)

structure BridgeLaunch where
  name : String
  uuid : String
  gameDir : String
  token : List UInt8
  startedAt : ℤ
deriving DecidableEq, Repr

/-- The launch whose token signed the request. The id selects it, and the MAC proves possession of its token. -/
def authenticateRequest (launches : IndexMap String BridgeLaunch) (id nonce mac method target body : List UInt8) :
    Option BridgeLaunch :=
  if id.length ≠ 16 ∨ isNonce nonce = false ∨ mac.length ≠ 64 then none
  else
    let candidates := launches.values.filter fun l => l.token ≠ [] ∧ bridgeId sha l.token = id
    let mac := mac.map Hex.lower
    candidates.find? fun l => ctEq (requestMac sha l.token method target nonce body) mac

/-! ## RFC 2104 -/

theorem zipWith_replicate (f : UInt8 → UInt8 → UInt8) (c : UInt8) {n : ℕ} {l : List UInt8} (h : l.length ≤ n) :
    List.zipWith f (List.replicate n c) l = l.map (f c) := by
  induction l generalizing n with
  | nil => simp
  | cons x l ih =>
    obtain ⟨m, rfl⟩ : ∃ m, n = m + 1 := ⟨n - 1, by simp only [List.length_cons] at h; omega⟩
    rw [List.replicate_succ, List.zipWith_cons_cons, List.map_cons, ih (by simpa using h)]

theorem pad_eq {c : UInt8} {k : List UInt8} (h : k.length ≤ 64) :
    List.zipWith (· ^^^ ·) (List.replicate 64 c) (copyFromSlice (List.replicate 64 0) k) =
      (k ++ List.replicate (64 - k.length) 0).map (· ^^^ c) := by
  rw [copyFromSlice, List.drop_replicate, zipWith_replicate _ _ (by simp; omega)]
  exact List.map_congr_left fun x _ => UInt8.xor_comm c x

/-- **RFC 2104.** For every key and message, of any length. -/
theorem hmacSha256Hex_eq (key msg : List UInt8) :
    hmacSha256Hex sha key msg = Hex.encode (Sha256.hmac sha 64 key msg).1 := by
  have hk : (if 64 < key.length then (sha key).1 else key).length ≤ 64 := by
    split_ifs with h
    · rw [(sha key).2]
      omega
    · omega
  simp only [hmacSha256Hex, pad_eq hk, Sha256.hmac, Sha256.outerText, Sha256.innerText, Sha256.keyBlock]

/-! ## Lengths and digits -/

theorem length_sha256Hex (bytes : List UInt8) : (sha256Hex sha bytes).length = 64 := by
  rw [sha256Hex, Hex.length_encode, (sha bytes).2]

theorem length_hmac (key msg : List UInt8) : (hmacSha256Hex sha key msg).length = 64 := by
  rw [hmacSha256Hex_eq, Hex.length_encode, (Sha256.hmac sha 64 key msg).2]

theorem lower_hmac (key msg : List UInt8) : (hmacSha256Hex sha key msg).map Hex.lower = hmacSha256Hex sha key msg := by
  rw [hmacSha256Hex_eq, Hex.lower_encode]

theorem length_bridgeId (token : List UInt8) : (bridgeId sha token).length = 16 := by
  rw [bridgeId, List.length_take, length_sha256Hex]
  rfl

theorem isNonce_mintNonce {draw : List UInt8} (h : draw.length = 16) : isNonce (mintNonce draw) = true := by
  have hall : (mintNonce draw).all Hex.isDigit = true := List.all_eq_true.2 fun _ hd => Hex.encode_digits hd
  have hlength : (mintNonce draw).length = 32 := by rw [mintNonce, Hex.length_encode, h]
  simp [isNonce, hall, hlength]

theorem foldl_or_xor (l : List UInt8) (acc : UInt8) :
    (List.zip l l).foldl (fun acc p => acc ||| (p.1 ^^^ p.2)) acc = acc := by
  induction l generalizing acc with
  | nil => rfl
  | cons x l ih => rw [List.zip_cons_cons, List.foldl_cons, UInt8.xor_self, UInt8.or_zero, ih]

theorem ctEq_self (a : List UInt8) : ctEq a a = true := by
  simp [ctEq, foldl_or_xor]

/-! ## The lookup -/

variable {sha}

/-- no two launches share an id, and so no two share a token -/
def DistinctIds (sha : List UInt8 → Digest) (launches : IndexMap String BridgeLaunch) : Prop :=
  ∀ l ∈ launches.values, ∀ l' ∈ launches.values, bridgeId sha l.token = bridgeId sha l'.token → l = l'

/-- **A signed request finds its launch.** -/
theorem authenticateRequest_signed {launches : IndexMap String BridgeLaunch} (hids : DistinctIds sha launches)
    {l : BridgeLaunch} (hl : l ∈ launches.values) (htoken : l.token ≠ []) {nonce : List UInt8}
    (hnonce : isNonce nonce = true) (method target body : List UInt8) :
    authenticateRequest sha launches (bridgeId sha l.token) nonce (requestMac sha l.token method target nonce body)
      method target body = some l := by
  have hmac : (requestMac sha l.token method target nonce body).length = 64 := length_hmac sha _ _
  have hlower : (requestMac sha l.token method target nonce body).map Hex.lower =
      requestMac sha l.token method target nonce body := lower_hmac sha _ _
  have hguard : ¬ ((bridgeId sha l.token).length ≠ 16 ∨ isNonce nonce = false ∨
      (requestMac sha l.token method target nonce body).length ≠ 64) := by
    simp [length_bridgeId, hnonce, hmac]
  have hmem : l ∈ launches.values.filter fun x => x.token ≠ [] ∧ bridgeId sha x.token = bridgeId sha l.token :=
    List.mem_filter.2 ⟨hl, by simp [htoken]⟩
  simp only [authenticateRequest, if_neg hguard, hlower]
  -- the only candidate is the launch itself
  cases hfind : (launches.values.filter fun x => x.token ≠ [] ∧ bridgeId sha x.token = bridgeId sha l.token).find?
      fun x => ctEq (requestMac sha x.token method target nonce body)
        (requestMac sha l.token method target nonce body) with
  | none =>
    have hrefused := List.find?_eq_none.1 hfind l hmem
    exact absurd (ctEq_self _) hrefused
  | some found =>
    obtain ⟨hfound, hid⟩ := List.mem_filter.1 (List.mem_of_find?_eq_some hfind)
    rw [decide_eq_true_eq] at hid
    rw [hids found hfound l hl hid.2]

/-! ## What is signed -/

/-- a message that is signed under a token -/
inductive Signed where
  | request (method target nonce body : List UInt8)
  | response (nonce body : List UInt8)
  | agent (nonce : List UInt8)

/-- the input of the HMAC -/
def Signed.text (sha : List UInt8 → Digest) : Signed → List UInt8
  | .request method target nonce body =>
    requestTag ++ method.map Hex.upper ++ newline :: target ++ newline :: nonce ++ newline :: sha256Hex sha body
  | .response nonce body => responseTag ++ nonce ++ newline :: sha256Hex sha body
  | .agent nonce => agentTag ++ nonce

def Signed.mac (sha : List UInt8 → Digest) (token : List UInt8) : Signed → List UInt8
  | .request method target nonce body => requestMac sha token method target nonce body
  | .response nonce body => responseProof sha token nonce body
  | .agent nonce => agentProof sha token nonce

/-- the target is one line, and the nonce is one -/
def Signed.WellFormed : Signed → Prop
  | .request _ target nonce _ => newline ∉ target ∧ isNonce nonce = true
  | .response nonce _ => isNonce nonce = true
  | .agent nonce => isNonce nonce = true

/-- one kind, upper-cased method, target and nonce, and one digest of the bodies -/
def Signed.Similar (sha : List UInt8 → Digest) : Signed → Signed → Prop
  | .request method target nonce body, .request method' target' nonce' body' =>
    method.map Hex.upper = method'.map Hex.upper ∧ target = target' ∧ nonce = nonce' ∧ sha body = sha body'
  | .response nonce body, .response nonce' body' => nonce = nonce' ∧ sha body = sha body'
  | .agent nonce, .agent nonce' => nonce = nonce'
  | _, _ => False

/-- one kind, upper-cased method, target, nonce and body -/
def Signed.Alike : Signed → Signed → Prop
  | .request method target nonce body, .request method' target' nonce' body' =>
    method.map Hex.upper = method'.map Hex.upper ∧ target = target' ∧ nonce = nonce' ∧ body = body'
  | .response nonce body, .response nonce' body' => nonce = nonce' ∧ body = body'
  | .agent nonce, .agent nonce' => nonce = nonce'
  | _, _ => False

def Signed.bodies : Signed → List (List UInt8)
  | .request _ _ _ body | .response _ body => [body]
  | .agent _ => []

/-- what computing the MAC hashes -/
def Signed.hashed (sha : List UInt8 → Digest) (token : List UInt8) (m : Signed) : List (List UInt8) :=
  Sha256.innerText sha 64 token (m.text sha) :: Sha256.outerText sha 64 token (m.text sha) :: m.bodies

theorem Signed.mac_eq (token : List UInt8) (m : Signed) :
    m.mac sha token = Hex.encode (Sha256.hmac sha 64 token (m.text sha)).1 := by
  cases m <;> exact hmacSha256Hex_eq sha _ _

theorem sha256Hex_inj {a b : List UInt8} (h : sha256Hex sha a = sha256Hex sha b) : sha a = sha b :=
  Subtype.ext (Hex.encode_injective h)

theorem length_nonce {nonce : List UInt8} (h : isNonce nonce = true) : nonce.length = 32 := by
  simp only [isNonce, decide_eq_true_eq] at h
  exact h.1

/-- the last part of a line-separated text, when it has a fixed length -/
theorem last_part {a a' b b' : List UInt8} (hlength : b.length = b'.length)
    (h : a ++ newline :: b = a' ++ newline :: b') : a = a' ∧ b = b' := by
  obtain ⟨ha, hb⟩ := List.append_inj' h (by simp [hlength])
  exact ⟨ha, (List.cons.inj hb).2⟩

/-- the last part of a line-separated text, when it is one line -/
theorem last_line {a a' b b' : List UInt8} (hb : newline ∉ b) (hb' : newline ∉ b')
    (h : a ++ newline :: b = a' ++ newline :: b') : a = a' ∧ b = b' := by
  have hlast : ∀ {a b : List UInt8}, newline ∉ b → ((a ++ newline :: b).reverse.takeWhile (· ≠ newline)).reverse = b := by
    intro a b hb
    have hall : ∀ x ∈ b.reverse, decide (x ≠ newline) = true := by
      intro x hx
      apply decide_eq_true
      rintro rfl
      exact hb (List.mem_reverse.1 hx)
    rw [List.reverse_append, List.reverse_cons, List.append_assoc, List.takeWhile_append_of_pos hall]
    simp
  have heq : b = b' := by rw [← hlast (a := a) hb, h, hlast hb']
  exact last_part (by rw [heq]) h

/-- **The messages are unambiguous.** A method may hold newlines: the parts after it do not. -/
theorem text_inj {m m' : Signed} (hm : m.WellFormed) (hm' : m'.WellFormed) (h : m.text sha = m'.text sha) :
    m.Similar sha m' := by
  cases m with
  | request method target nonce body =>
    cases m' with
    | request method' target' nonce' body' =>
      obtain ⟨hrest, hdigest⟩ := last_part (by rw [length_sha256Hex, length_sha256Hex]) h
      obtain ⟨hrest, hnonce⟩ := last_part (by rw [length_nonce hm.2, length_nonce hm'.2]) hrest
      obtain ⟨hmethod, htarget⟩ := last_line hm.1 hm'.1 hrest
      exact ⟨List.append_cancel_left hmethod, htarget, hnonce, sha256Hex_inj hdigest⟩
    | response nonce' body' => simp [Signed.text, requestTag, responseTag] at h
    | agent nonce' => simp [Signed.text, requestTag, agentTag] at h
  | response nonce body =>
    cases m' with
    | request method' target' nonce' body' => simp [Signed.text, requestTag, responseTag] at h
    | response nonce' body' =>
      obtain ⟨hrest, hdigest⟩ := last_part (by rw [length_sha256Hex, length_sha256Hex]) h
      exact ⟨List.append_cancel_left hrest, sha256Hex_inj hdigest⟩
    | agent nonce' => simp [Signed.text, responseTag, agentTag] at h
  | agent nonce =>
    cases m' with
    | request method' target' nonce' body' => simp [Signed.text, requestTag, agentTag] at h
    | response nonce' body' => simp [Signed.text, responseTag, agentTag] at h
    | agent nonce' => exact List.append_cancel_left h

/-- similar messages are alike where SHA-256 is injective on their bodies -/
theorem Signed.Similar.alike {S : Set (List UInt8)} (hinj : Set.InjOn sha S) {m m' : Signed} (h : m.Similar sha m')
    (hm : ∀ b ∈ m.bodies, b ∈ S) (hm' : ∀ b ∈ m'.bodies, b ∈ S) : m.Alike m' := by
  cases m with
  | request method target nonce body =>
    cases m' with
    | request method' target' nonce' body' =>
      obtain ⟨hmethod, htarget, hnonce, hbody⟩ := h
      exact ⟨hmethod, htarget, hnonce, hinj (hm body (by simp [bodies])) (hm' body' (by simp [bodies])) hbody⟩
    | response nonce' body' => exact h.elim
    | agent nonce' => exact h.elim
  | response nonce body =>
    cases m' with
    | request method' target' nonce' body' => exact h.elim
    | response nonce' body' =>
      obtain ⟨hnonce, hbody⟩ := h
      exact ⟨hnonce, hinj (hm body (by simp [bodies])) (hm' body' (by simp [bodies])) hbody⟩
    | agent nonce' => exact h.elim
  | agent nonce =>
    cases m' with
    | request method' target' nonce' body' => exact h.elim
    | response nonce' body' => exact h.elim
    | agent nonce' => exact h

/-- **A MAC is of one message.** -/
theorem mac_inj {S : Set (List UInt8)} (hinj : Set.InjOn sha S) {token : List UInt8} {m m' : Signed}
    (hm : m.WellFormed) (hm' : m'.WellFormed) (hs : ∀ b ∈ m.hashed sha token, b ∈ S)
    (hs' : ∀ b ∈ m'.hashed sha token, b ∈ S) (h : m.mac sha token = m'.mac sha token) : m.Alike m' := by
  rw [Signed.mac_eq, Signed.mac_eq] at h
  simp only [Signed.hashed, List.forall_mem_cons] at hs hs'
  obtain ⟨hinner, houter, hbodies⟩ := hs
  obtain ⟨hinner', houter', hbodies'⟩ := hs'
  have htext : m.text sha = m'.text sha :=
    Sha256.hmac_injective hinj ⟨hinner, houter⟩ ⟨hinner', houter'⟩ (Subtype.ext (Hex.encode_injective h))
  exact (text_inj hm hm' htext).alike hinj hbodies hbodies'

end EspectralClient.BridgeProof
