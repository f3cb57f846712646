/-
SHA-256 and HMAC.

- `sha256`: FIPS 180-4 on byte strings.
- `hmac`: RFC 2104, for any hash function and block size.
- `hmac_injective`: under one key, two texts have one MAC only where the hash function takes two different strings to one
  digest, among those that computing the two MACs hashes.
-/
import EspectralClient.Lib.Bytes

namespace EspectralClient.Lib

abbrev Digest := { bytes : List UInt8 // bytes.length = 32 }

namespace Sha256

/-! ## SHA-256 -/

/-- eight words, each below `2 ^ 32` -/
structure Words where
  a : ℕ
  b : ℕ
  c : ℕ
  d : ℕ
  e : ℕ
  f : ℕ
  g : ℕ
  h : ℕ

def word (n : ℕ) : ℕ := n % 2 ^ 32

def rotr (n x : ℕ) : ℕ := word (x >>> n ||| x <<< (32 - n))

def ch (x y z : ℕ) : ℕ := x &&& y ^^^ (2 ^ 32 - 1 - x) &&& z

def maj (x y z : ℕ) : ℕ := x &&& y ^^^ x &&& z ^^^ y &&& z

def bigSigma0 (x : ℕ) : ℕ := rotr 2 x ^^^ rotr 13 x ^^^ rotr 22 x

def bigSigma1 (x : ℕ) : ℕ := rotr 6 x ^^^ rotr 11 x ^^^ rotr 25 x

def sigma0 (x : ℕ) : ℕ := rotr 7 x ^^^ rotr 18 x ^^^ x >>> 3

def sigma1 (x : ℕ) : ℕ := rotr 17 x ^^^ rotr 19 x ^^^ x >>> 10

def constants : List ℕ := [
  0x428a2f98, 0x71374491, 0xb5c0fbcf, 0xe9b5dba5, 0x3956c25b, 0x59f111f1, 0x923f82a4, 0xab1c5ed5,
  0xd807aa98, 0x12835b01, 0x243185be, 0x550c7dc3, 0x72be5d74, 0x80deb1fe, 0x9bdc06a7, 0xc19bf174,
  0xe49b69c1, 0xefbe4786, 0x0fc19dc6, 0x240ca1cc, 0x2de92c6f, 0x4a7484aa, 0x5cb0a9dc, 0x76f988da,
  0x983e5152, 0xa831c66d, 0xb00327c8, 0xbf597fc7, 0xc6e00bf3, 0xd5a79147, 0x06ca6351, 0x14292967,
  0x27b70a85, 0x2e1b2138, 0x4d2c6dfc, 0x53380d13, 0x650a7354, 0x766a0abb, 0x81c2c92e, 0x92722c85,
  0xa2bfe8a1, 0xa81a664b, 0xc24b8b70, 0xc76c51a3, 0xd192e819, 0xd6990624, 0xf40e3585, 0x106aa070,
  0x19a4c116, 0x1e376c08, 0x2748774c, 0x34b0bcb5, 0x391c0cb3, 0x4ed8aa4a, 0x5b9cca4f, 0x682e6ff3,
  0x748f82ee, 0x78a5636f, 0x84c87814, 0x8cc70208, 0x90befffa, 0xa4506ceb, 0xbef9a3f7, 0xc67178f2]

def initial : Words :=
  ⟨0x6a09e667, 0xbb67ae85, 0x3c6ef372, 0xa54ff53a, 0x510e527f, 0x9b05688c, 0x1f83d9ab, 0x5be0cd19⟩

def round (s : Words) (k w : ℕ) : Words :=
  let t1 := s.h + bigSigma1 s.e + ch s.e s.f s.g + k + w
  let t2 := bigSigma0 s.a + maj s.a s.b s.c
  ⟨word (t1 + t2), s.a, s.b, s.c, word (s.d + t1), s.e, s.f, s.g⟩

/-- the word of the schedule that follows sixteen others -/
def nextWord (window : List ℕ) : ℕ :=
  word (sigma1 (window.getD 14 0) + window.getD 9 0 + sigma0 (window.getD 1 0) + window.getD 0 0)

/-- the rounds with these constants; the window holds the next sixteen words of the schedule -/
def rounds : List ℕ → Words → List ℕ → Words
  | [], s, _ => s
  | k :: ks, s, window => rounds ks (round s k (window.headD 0)) (window.tail ++ [nextWord window])

def compress (s : Words) (block : List ℕ) : Words :=
  let r := rounds constants s block
  ⟨word (s.a + r.a), word (s.b + r.b), word (s.c + r.c), word (s.d + r.d), word (s.e + r.e), word (s.f + r.f),
    word (s.g + r.g), word (s.h + r.h)⟩

/-- a one bit, zeros to 8 bytes short of a block, and the number of bits -/
def padding (length : ℕ) : List UInt8 :=
  0x80 :: (List.replicate ((119 - length % 64) % 64) 0 ++ Bytes.toBe 8 (8 * length))

/-- the words of a block -/
def wordsOf (block : List UInt8) : List ℕ := (block.toChunks 4).map Bytes.fromBe

def output (s : Words) : List UInt8 :=
  Bytes.toBe 4 s.a ++ Bytes.toBe 4 s.b ++ Bytes.toBe 4 s.c ++ Bytes.toBe 4 s.d ++ Bytes.toBe 4 s.e ++ Bytes.toBe 4 s.f ++
    Bytes.toBe 4 s.g ++ Bytes.toBe 4 s.h

theorem length_output (s : Words) : (output s).length = 32 := by
  simp [output]

def sha256 (message : List UInt8) : Digest :=
  let blocks := (message ++ padding message.length).toChunks 64
  let s := blocks.foldl (fun s block => compress s (wordsOf block)) initial
  ⟨output s, length_output s⟩

/-! ## HMAC -/

section Hmac

-- the hash function, and the length of its blocks
variable (hash : List UInt8 → Digest) (block : ℕ)

/-- the key as a block: a longer key is hashed, a shorter one is filled up with zeros -/
def keyBlock (key : List UInt8) : List UInt8 :=
  let k := if block < key.length then (hash key).1 else key
  k ++ List.replicate (block - k.length) 0

/-- what the inner hash takes -/
def innerText (key text : List UInt8) : List UInt8 := (keyBlock hash block key).map (· ^^^ 0x36) ++ text

/-- what the outer hash takes -/
def outerText (key text : List UInt8) : List UInt8 :=
  (keyBlock hash block key).map (· ^^^ 0x5c) ++ (hash (innerText hash block key text)).1

/-- RFC 2104 -/
def hmac (key text : List UInt8) : Digest := hash (outerText hash block key text)

variable {hash block}

/-- Two texts with one MAC are one text, where the hash function is injective on what the two MACs hash. -/
theorem hmac_injective {S : Set (List UInt8)} (hinj : Set.InjOn hash S) {key x y : List UInt8}
    (hx : innerText hash block key x ∈ S ∧ outerText hash block key x ∈ S)
    (hy : innerText hash block key y ∈ S ∧ outerText hash block key y ∈ S)
    (h : hmac hash block key x = hmac hash block key y) : x = y := by
  have houter : outerText hash block key x = outerText hash block key y := hinj hx.2 hy.2 h
  have hdigest : hash (innerText hash block key x) = hash (innerText hash block key y) :=
    Subtype.ext (List.append_cancel_left houter)
  have hinner : innerText hash block key x = innerText hash block key y := hinj hx.1 hy.1 hdigest
  exact List.append_cancel_left hinner

end Hmac

end Sha256

end EspectralClient.Lib
