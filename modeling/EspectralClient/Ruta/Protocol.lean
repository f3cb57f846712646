/-
The mod's half of the relay protocol (`branding-mod/.../ruta/RutaProtocol.java`): the handshake line it writes and the
one-line reply it reads. Strings are Java strings; the line goes out through the US-ASCII encoder.

- `handshakeLine`, `parseReply`: the two functions.
- `handshakeLine_ok`: what a line that is built looks like.
- `handshakeLine_grammar`: on ASCII fields its bytes are the relay's grammar, below the relay's cap.
- `parseReply_ok`: the reply lines it knows.
-/
import EspectralClient.Lib.JavaString
import EspectralClient.Relay.Proto

namespace EspectralClient.RutaProtocol

open EspectralClient.Lib EspectralClient.Lib.JavaString

/-! ## Model -/

/-- longest accepted reply line -/
def maxReplyBytes : ℕ := 64

/-- protocol cap for the whole handshake line -/
def maxLineBytes : ℕ := 4096

def codes : List JavaString :=
  ["proto", "auth", "expired", "notmvp", "dest", "limit", "connect", "busy"].map ofString

inductive Reply where
  | ok
  | err (code : JavaString)
deriving DecidableEq, Repr

def lf : UInt16 := 0x0a

def cr : UInt16 := 0x0d

def tab : UInt16 := 0x09

def blank : UInt16 := 0x20

/-- the line, or the message of the exception; `none` is a null reference -/
def handshakeLine (grant destIp : Option JavaString) (destPort : ℤ) : Except String JavaString :=
  match grant with
  | none => .error "bad grant for ERT1"
  | some grant =>
    if grant = [] ∨ 3400 < grant.length then .error "bad grant for ERT1"
    else if ∃ c ∈ grant, c ≤ blank ∨ c = lf ∨ c = cr then .error "bad grant for ERT1"
    else
      match destIp with
      | none => .error "bad destination for ERT1"
      | some destIp =>
        if destIp = [] ∨ destPort < 1 ∨ 65535 < destPort then .error "bad destination for ERT1"
        else if ∃ c ∈ destIp, c ≤ blank ∨ c = 0x5b ∨ c = 0x5d ∨ c = lf ∨ c = cr then
          .error "bad destination ip for ERT1"
        else
          let line := ofString "ERT1 " ++ grant ++ ofString " " ++ destIp ++ ofString " " ++
            decimal destPort.toNat ++ ofString "\n"
          if maxLineBytes < line.length then .error "ERT1 line too long" else .ok line

def isKnownCode (code : JavaString) : Bool := codes.contains code

def parseReply (line : JavaString) : Reply :=
  let text := List.rdropWhile (fun c => c = lf ∨ c = cr ∨ c = blank ∨ c = tab) line
  if text = ofString "OK" then .ok
  else if (ofString "ERR ").isPrefixOf text = false then .err (ofString "proto")
  else
    let code := trim (text.drop 4)
    .err (if isKnownCode code then code else ofString "proto")

/-! ## The handshake line -/

theorem handshakeLine_ok {grant destIp line : JavaString} {destPort : ℤ}
    (h : handshakeLine (some grant) (some destIp) destPort = .ok line) :
    grant ≠ [] ∧ (∀ c ∈ grant, blank < c) ∧ (∀ c ∈ destIp, blank < c) ∧ (1 ≤ destPort ∧ destPort ≤ 65535) ∧
      line = ofString "ERT1 " ++ grant ++ ofString " " ++ destIp ++ ofString " " ++ decimal destPort.toNat ++
        ofString "\n" ∧ line.length ≤ maxLineBytes := by
  unfold handshakeLine at h
  dsimp only at h
  split_ifs at h with h1 h2 h3 h4 h5
  cases h
  refine ⟨fun hn => h1 (.inl hn), ?_, ?_, ⟨by omega, by omega⟩, rfl, not_lt.1 h5⟩
  · intro c hc
    by_contra hle
    exact h2 ⟨c, hc, .inl (UInt16.not_lt.1 hle)⟩
  · intro c hc
    by_contra hle
    exact h4 ⟨c, hc, .inl (UInt16.not_lt.1 hle)⟩

/-- what is past the blank has no blank byte -/
theorem space_not_mem_usAscii {s : JavaString} (h : IsAscii s) (hblank : ∀ c ∈ s, blank < c) :
    Proto.space ∉ usAscii s := by
  rw [usAscii_ascii h]
  intro hmem
  obtain ⟨c, hc, hspace⟩ := List.mem_map.1 hmem
  have hlt := hblank c hc
  rw [(toUInt8_inj (h c hc) (by decide : blank < 0x80)).1 hspace] at hlt
  exact absurd hlt (by decide)

theorem newline_not_mem_usAscii {s : JavaString} (h : IsAscii s) (hblank : ∀ c ∈ s, blank ≤ c) :
    Proto.newline ∉ usAscii s := by
  rw [usAscii_ascii h]
  intro hmem
  obtain ⟨c, hc, hnewline⟩ := List.mem_map.1 hmem
  have hle := hblank c hc
  rw [(toUInt8_inj (h c hc) (by decide : lf < 0x80)).1 hnewline] at hle
  exact absurd hle (by decide)

/-- the port field of the line, as the relay reads it -/
theorem decimal_port (n : ℕ) : usAscii (decimal n) ≠ [] ∧ (∀ b ∈ usAscii (decimal n), Proto.isAsciiDigit b) ∧
    Proto.decimal (usAscii (decimal n)) = n := by
  rw [usAscii_ascii (decimal_isAscii n)]
  refine ⟨by simpa using decimal_ne_nil n, ?_, ?_⟩
  · intro b hb
    obtain ⟨c, hc, rfl⟩ := List.mem_map.1 hb
    have hd := decimal_digits hc
    have hbyte := toNat_toUInt8 (decimal_isAscii n c hc)
    simp only [Proto.isAsciiDigit, UInt8.le_iff_toNat_le, hbyte, decide_eq_true_eq]
    exact hd
  · have hfold : ∀ (l : JavaString) (v : ℕ), IsAscii l →
        (l.map UInt16.toUInt8).foldl (fun v b => v * 10 + (b.toNat - 0x30)) v =
          l.foldl (fun v c => v * 10 + (c.toNat - 0x30)) v := by
      intro l
      induction l with
      | nil => intro v _; rfl
      | cons c l ih =>
        intro v hl
        rw [List.map_cons, List.foldl_cons, List.foldl_cons, toNat_toUInt8 (hl c List.mem_cons_self)]
        exact ih _ fun d hd => hl d (List.mem_cons_of_mem c hd)
    rw [Proto.decimal, hfold _ _ (decimal_isAscii n)]
    exact decimal_value n

/-- **The line is the relay's grammar.** The bytes of a line that is built are one newline-free line below the relay's
cap, with exactly the fields it was built from. -/
theorem handshakeLine_grammar {grant destIp line : JavaString} {destPort : ℤ} {addr : IpAddr}
    (h : handshakeLine (some grant) (some destIp) destPort = .ok line) (hgrant : IsAscii grant)
    (hdest : IsAscii destIp) (haddr : IpAddr.fromStr (usAscii destIp) = some addr) :
    ∃ text, usAscii line = text ++ [Proto.newline] ∧ Proto.newline ∉ text ∧ text.length < Proto.maxHeaderLine ∧
      Proto.Grammar text (usAscii grant) (usAscii destIp) (usAscii (decimal destPort.toNat))
        ⟨usAscii grant, addr, UInt16.ofNat destPort.toNat⟩ := by
  obtain ⟨hne, hgb, hdb, hport, rfl, hlen⟩ := handshakeLine_ok h
  obtain ⟨hpne, hpd, hpv⟩ := decimal_port destPort.toNat
  have hpb : ∀ c ∈ decimal destPort.toNat, blank < c := by
    intro c hc
    exact UInt16.lt_iff_toNat_lt.2 (lt_of_lt_of_le (by decide) (decimal_digits hc).1)
  have hascii : IsAscii (ofString "ERT1 " ++ grant ++ ofString " " ++ destIp ++ ofString " " ++
      decimal destPort.toNat) := by
    simp only [isAscii_append]
    exact ⟨⟨⟨⟨⟨by decide, hgrant⟩, by decide⟩, hdest⟩, by decide⟩, decimal_isAscii _⟩
  have htext : usAscii (ofString "ERT1 " ++ grant ++ ofString " " ++ destIp ++ ofString " " ++
      decimal destPort.toNat) = Proto.version ++ Proto.space :: (usAscii grant ++ Proto.space ::
        (usAscii destIp ++ Proto.space :: usAscii (decimal destPort.toNat))) := by
    rw [usAscii_ascii hascii, usAscii_ascii hgrant, usAscii_ascii hdest, usAscii_ascii (decimal_isAscii _)]
    have hhead : (ofString "ERT1 ").map UInt16.toUInt8 = Proto.version ++ [Proto.space] := by decide
    have hsep : (ofString " ").map UInt16.toUInt8 = [Proto.space] := by decide
    simp only [List.map_append, hhead, hsep, List.append_assoc, List.singleton_append]
  refine ⟨_, ?_, ?_, ?_, htext, ?_, ?_, ?_, space_not_mem_usAscii hgrant hgb, hpne, hpd, ?_, rfl, haddr, ?_⟩
  · have hwhole : IsAscii (ofString "ERT1 " ++ grant ++ ofString " " ++ destIp ++ ofString " " ++
        decimal destPort.toNat ++ ofString "\n") := isAscii_append.2 ⟨hascii, by decide⟩
    rw [usAscii_ascii hwhole, usAscii_ascii hascii, List.map_append]
    rfl
  · refine newline_not_mem_usAscii hascii ?_
    have hle : ∀ (s : JavaString), (∀ c ∈ s, blank < c) → ∀ c ∈ s, blank ≤ c := fun s hs c hc => UInt16.le_of_lt (hs c hc)
    simp only [List.mem_append, or_imp, forall_and]
    have hall : ∀ s : JavaString, s.all (fun c => blank ≤ c) = true → ∀ c ∈ s, blank ≤ c :=
      fun s h c hc => of_decide_eq_true (List.all_eq_true.1 h c hc)
    exact ⟨⟨⟨⟨⟨hall _ (by decide), hle _ hgb⟩, hall _ (by decide)⟩, hle _ hdb⟩, hall _ (by decide)⟩, hle _ hpb⟩
  · rw [usAscii_ascii hascii, List.length_map]
    rw [List.length_append] at hlen
    have hone : (ofString "\n").length = 1 := by decide
    rw [hone] at hlen
    exact hlen
  · exact usAscii_lt hascii
  · rw [htext, Proto.count_of_fields (by decide)]
    exact ⟨space_not_mem_usAscii hgrant hgb, space_not_mem_usAscii hdest hdb,
      space_not_mem_usAscii (decimal_isAscii _) hpb⟩
  · rw [usAscii_ascii hgrant]
    simpa using hne
  · rw [hpv]
    omega
  · rw [hpv, UInt16.toNat_ofNat']
    omega

/-! ## The reply line -/

theorem parseReply_ok : parseReply (ofString "OK") = .ok := by decide

end EspectralClient.RutaProtocol
