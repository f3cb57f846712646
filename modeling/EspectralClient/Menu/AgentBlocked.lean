/-
What the agent's classifier takes for an Espectral server.

- `Blocked`: the server is one: the host of its address, whatever its case, port, scheme and trailing dot, is at or below
  a blocked host, or the live socket leads to one of their addresses.
- `Seen`: what the classifier sees of that: hosts with their dots as they are written, IPv4 sockets, and literal
  addresses typed as the host.
- `espectral_refused`: a blocked server is Espectral's, and its tools refused, exactly when it is seen.
- `alias_not_seen`: a trailing dot, and a socket over IPv6, are not.
-/
import EspectralClient.Menu.AgentPolicy

namespace EspectralClient.Menu.AgentPolicy

open EspectralClient.Lib EspectralClient.Lib.JavaString

/-- `toLowerCase(Locale.ROOT)` on ASCII text -/
structure LowerCase (lower : JavaString → JavaString) : Prop where
  ascii : ∀ s, IsAscii s → lower s = s.map asciiLower

variable {lower : JavaString → JavaString}

/-! ## Blocked and seen -/

/-- at the domain or below it -/
def Under (host domain : JavaString) : Prop := host = domain ∨ dot :: domain <:+ host

/-- without a trailing dot -/
def undot (host : JavaString) : JavaString := if host.getLast? = some dot then host.dropLast else host

def Policy.addresses (p : Policy) : List InetAddress := p.resolved.getD []

/-- the client talks to one of Espectral's servers; `live` is the socket: address, host text and port -/
def Blocked (lower : JavaString → JavaString) (p : Policy) (c : Client)
    (live : Option (InetAddress × JavaString × UInt16)) : Prop :=
  (∃ text host entry domain, address c = some text ∧ Host lower text host ∧ entry ∈ p.blockedHosts ∧
    Host lower entry domain ∧ undot domain ≠ [] ∧ Under (undot host) (undot domain)) ∨
  ∃ a rest, live = some (a, rest) ∧ a ∈ p.addresses

/-- the classifier sees it: by the host as it is written (and read twice), by an IPv4 socket, or by a literal address in
the host's place -/
def Seen (lower : JavaString → JavaString) (p : Policy) (c : Client)
    (live : Option (InetAddress × JavaString × UInt16)) : Prop :=
  (∃ text host bare entry domain, address c = some text ∧ Host lower text host ∧ Host lower host bare ∧
    entry ∈ p.blockedHosts ∧ Host lower entry domain ∧ domain ≠ [] ∧ Under bare domain) ∨
  (∃ o₁ o₂ o₃ o₄ rest, live = some (.inet4 o₁ o₂ o₃ o₄, rest) ∧ .inet4 o₁ o₂ o₃ o₄ ∈ p.addresses) ∨
  ∃ text host a, address c = some text ∧ Host lower text host ∧ a ∈ p.addresses ∧
    normalizeIp lower (some host) = some (getHostAddress a)

/-- Espectral's, with acting and the camera refused -/
def Refused (context : Option Context) : Prop :=
  context = some .espectral ∧ AgentTier.act.allows context = false ∧ AgentTier.camera.allows context = false

theorem refused_iff {context : Option Context} : Refused context ↔ context = some .espectral := by
  constructor
  · exact fun h => h.1
  · rintro rfl
    exact ⟨rfl, rfl, rfl⟩

/-! ## The classifier -/

theorem isBlockedDomain_iff {p : Policy} {host : JavaString} :
    isBlockedDomain lower p (some host) = true ↔ ∃ bare entry domain, Host lower host bare ∧ entry ∈ p.blockedHosts ∧
      Host lower entry domain ∧ domain ≠ [] ∧ Under bare domain := by
  unfold isBlockedDomain
  constructor
  · intro h
    cases hbare : bareHost lower (some host) with
    | none =>
      rw [hbare] at h
      cases h
    | some bare =>
      rw [hbare] at h
      obtain ⟨entry, hentry, hmatch⟩ := List.any_eq_true.1 h
      cases hdomain : bareHost lower (some entry) with
      | none =>
        rw [hdomain] at hmatch
        cases hmatch
      | some domain =>
        rw [hdomain] at hmatch
        obtain ⟨hne, hunder⟩ := of_decide_eq_true hmatch
        exact ⟨bare, entry, domain, bareHost_eq.1 hbare, hentry, bareHost_eq.1 hdomain, hne, hunder⟩
  · rintro ⟨bare, entry, domain, hbare, hentry, hdomain, hne, hunder⟩
    rw [bareHost_eq.2 hbare]
    refine List.any_eq_true.2 ⟨entry, hentry, ?_⟩
    rw [bareHost_eq.2 hdomain]
    exact decide_eq_true ⟨hne, hunder⟩

theorem containsIp_some {p : Policy} {ip : Option JavaString} :
    p.containsIp lower ip = some true ↔ ∃ i, ip = some i ∧ i ∈ p.blockedIps lower := by
  unfold Policy.containsIp
  cases ip with
  | none =>
    dsimp only
    split_ifs <;> simp
  | some i => simp

/-- **What is Espectral's.** -/
theorem classify_espectral {p : Policy} {address remoteIp : Option JavaString} :
    classify lower p address remoteIp = some .espectral ↔
      (∃ host, bareHost lower address = some host ∧ isBlockedDomain lower p (some host) = true) ∨
      (∃ i, normalizeIp lower remoteIp = some i ∧ i ∈ p.blockedIps lower) ∨
      ∃ host i, bareHost lower address = some host ∧ normalizeIp lower (some host) = some i ∧
        i ∈ p.blockedIps lower := by
  have hrest : ∀ (host liveIp port : Option JavaString),
      (if (if liveIp ≠ none then isLoopback lower liveIp else isLoopback lower host) then some Context.localhost
        else if host ≠ none ∧ isAllowlisted lower p host port then some .allowlisted
        else some .server) ≠ some .espectral := by
    intro host liveIp port
    split_ifs <;> decide
  unfold classify
  dsimp only
  generalize bareHost lower address = host
  generalize normalizeIp lower remoteIp = live
  cases host with
  | none =>
    have hip : (live <|> normalizeIp lower none) = live := by cases live <;> rfl
    rw [if_neg fun h => h.1 rfl, hip, if_pos rfl]
    dsimp only
    by_cases hlive : live ≠ none ∧ p.containsIp lower live = some true
    · obtain ⟨i, hi, hmem⟩ := containsIp_some.1 hlive.2
      rw [if_pos hlive]
      exact iff_of_true rfl (.inr (.inl ⟨i, hi, hmem⟩))
    · rw [if_neg hlive]
      refine iff_of_false (hrest none live _) ?_
      rintro (⟨host, hnone, -⟩ | ⟨i, hi, hmem⟩ | ⟨host, i, hnone, -⟩)
      · cases hnone
      · exact hlive ⟨by simp [hi], containsIp_some.2 ⟨i, hi, hmem⟩⟩
      · cases hnone
  | some host =>
    rw [if_neg (Option.some_ne_none host)]
    by_cases hdomain : isBlockedDomain lower p (some host) = true
    · rw [if_pos ⟨Option.some_ne_none host, hdomain⟩]
      exact iff_of_true rfl (.inl ⟨host, rfl, hdomain⟩)
    rw [if_neg fun h => hdomain h.2]
    by_cases hip : (live <|> normalizeIp lower (some host)) ≠ none ∧
        p.containsIp lower (live <|> normalizeIp lower (some host)) = some true
    · obtain ⟨i, hi, hmem⟩ := containsIp_some.1 hip.2
      rw [if_pos hip]
      refine iff_of_true rfl (.inr ?_)
      cases live with
      | none => exact .inr ⟨host, i, rfl, hi, hmem⟩
      | some j => exact .inl ⟨i, hi, hmem⟩
    rw [if_neg hip]
    have hlive : ¬ ∃ i, live = some i ∧ i ∈ p.blockedIps lower := by
      rintro ⟨i, rfl, hmem⟩
      exact hip ⟨Option.some_ne_none i, containsIp_some.2 ⟨i, rfl, hmem⟩⟩
    have hhost : (∃ i, normalizeIp lower (some host) = some i ∧ i ∈ p.blockedIps lower) ↔
        p.containsIp lower (normalizeIp lower (some host)) = some true := containsIp_some.symm
    constructor
    · intro h
      refine .inr (.inr ?_)
      obtain ⟨i, hi, hmem⟩ : ∃ i, normalizeIp lower (some host) = some i ∧ i ∈ p.blockedIps lower := by
        refine hhost.2 ?_
        cases hthird : p.containsIp lower (normalizeIp lower (some host)) with
        | none =>
          rw [hthird] at h
          cases h
        | some b =>
          cases b with
          | true => rfl
          | false =>
            rw [hthird] at h
            exact absurd h (hrest (some host) live _)
      exact ⟨host, i, rfl, hi, hmem⟩
    · rintro (⟨other, hother, hblocked⟩ | hmem | ⟨other, i, hother, hi, hmem⟩)
      · cases hother
        exact absurd hblocked hdomain
      · exact absurd hmem hlive
      · cases hother
        rw [hhost.1 ⟨i, hi, hmem⟩]

/-! ## The text of a socket -/

/-- what addresses and ports are written with -/
def Plain (c : UInt16) : Prop := (0x30 ≤ c.toNat ∧ c.toNat ≤ 0x3a) ∨ (0x61 ≤ c.toNat ∧ c.toNat ≤ 0x66) ∨ c = dot

theorem Plain.bounds {c : UInt16} (h : Plain c) :
    0x2e ≤ c.toNat ∧ c.toNat ≤ 0x66 ∧ c.toNat ≠ 0x2f ∧ (c.toNat ≤ 0x3a ∨ 0x61 ≤ c.toNat) := by
  rcases h with h | h | rfl
  · omega
  · omega
  · decide

theorem plain_getHostAddress (a : InetAddress) : ∀ c ∈ getHostAddress a, Plain c := by
  have hdecimal : ∀ n, ∀ c ∈ decimal n, Plain c := fun n c hc => by
    have h := decimal_digits hc
    exact .inl ⟨h.1, by omega⟩
  cases a with
  | inet4 a b c d =>
    intro x hx
    simp only [getHostAddress, List.mem_append, List.mem_cons] at hx
    rcases hx with h | rfl | h | rfl | h | rfl | h
    · exact hdecimal _ x h
    · exact .inr (.inr rfl)
    · exact hdecimal _ x h
    · exact .inr (.inr rfl)
    · exact hdecimal _ x h
    · exact .inr (.inr rfl)
    · exact hdecimal _ x h
  | inet6 groups =>
    intro x hx
    rcases mem_intercalate hx with rfl | ⟨part, hpart, hc⟩
    · exact .inl (by decide)
    · obtain ⟨g, -, rfl⟩ := List.mem_map.1 hpart
      rcases hex_digits hc with h | h
      · exact .inl ⟨h.1, by omega⟩
      · exact .inr (.inl h)

theorem dot_not_mem_decimal (n : ℕ) : dot ∉ decimal n := fun h => absurd (decimal_digits h).1 (by decide)

theorem colon_not_mem_decimal (n : ℕ) : colon ∉ decimal n := fun h => absurd (decimal_digits h).2 (by decide)

theorem colon_not_mem_hex (n : ℕ) : colon ∉ hex n := fun h => absurd (hex_digits h) (by decide)

theorem colon_not_mem_inet4 (a b c d : UInt8) : colon ∉ getHostAddress (.inet4 a b c d) := by
  have hne : colon ≠ dot := by decide
  simp only [getHostAddress, List.mem_append, List.mem_cons, colon_not_mem_decimal, hne, or_false, not_false_eq_true]

theorem count_colon_inet6 (groups : Vector UInt16 8) : (getHostAddress (.inet6 groups)).count colon = 7 := by
  rw [getHostAddress, count_intercalate]
  · simp
  · intro part hpart
    obtain ⟨g, -, rfl⟩ := List.mem_map.1 hpart
    exact colon_not_mem_hex _

theorem decimal_inj {m n : ℕ} (h : decimal m = decimal n) : m = n := by
  rw [← decimal_value m, h, decimal_value]

theorem octet_eq {a b : UInt8} (h : decimal a.toNat = decimal b.toNat) : a = b := UInt8.toNat_inj.1 (decimal_inj h)

/-- an IPv4 address is known by its text -/
theorem getHostAddress_inet4_inj {x : InetAddress} {a b c d : UInt8}
    (h : getHostAddress x = getHostAddress (.inet4 a b c d)) : x = .inet4 a b c d := by
  cases x with
  | inet4 a' b' c' d' =>
    have hdot := dot_not_mem_decimal
    obtain ⟨ha, h⟩ := split_inj (hdot _) (hdot _) h
    obtain ⟨hb, h⟩ := split_inj (hdot _) (hdot _) h
    obtain ⟨hc, hd⟩ := split_inj (hdot _) (hdot _) h
    rw [octet_eq ha, octet_eq hb, octet_eq hc, octet_eq hd]
  | inet6 groups =>
    have hcount := count_colon_inet6 groups
    rw [h, List.count_eq_zero.2 (colon_not_mem_inet4 a b c d)] at hcount
    cases hcount

/-! ## Reading the text of a socket -/

/-- nothing to trim and nothing to lower in text of this kind -/
theorem lower_trim_plain (hlower : LowerCase lower) {s : JavaString} (h : ∀ c ∈ s, Plain c) : lower (trim s) = s := by
  have htrim : trim s = s := trim_eq_self fun c hc => by
    have hb := (h c hc).bounds
    rw [UInt16.lt_iff_toNat_lt]
    have h20 : (0x20 : UInt16).toNat = 0x20 := rfl
    omega
  have hascii : IsAscii s := fun c hc => by
    have hb := (h c hc).bounds
    rw [UInt16.lt_iff_toNat_lt]
    have h80 : (0x80 : UInt16).toNat = 0x80 := rfl
    omega
  rw [htrim, hlower.ascii s hascii]
  refine (List.map_congr_left fun c hc => ?_).trans (List.map_id s)
  have hb := (h c hc).bounds
  unfold asciiLower
  rw [if_neg]
  · rfl
  · rw [UInt16.le_iff_toNat_le, UInt16.le_iff_toNat_le]
    have h41 : (0x41 : UInt16).toNat = 0x41 := rfl
    have h5a : (0x5a : UInt16).toNat = 0x5a := rfl
    omega

theorem slash_not_mem_plain {s : JavaString} (h : ∀ c ∈ s, Plain c) : slash ∉ s := fun hmem =>
  absurd (h slash hmem).bounds (by decide)

theorem host_plain (hlower : LowerCase lower) {s h : JavaString} (hs : ∀ c ∈ s, Plain c) (hne : s ≠ [])
    (hauth : Authority s h) : Host lower s h := by
  have hread := lower_trim_plain hlower hs
  have hslash := slash_not_mem_plain hs
  refine ⟨hread.symm ▸ hne, [], s, [], by rw [hread]; simp, .inl ⟨rfl, fun hin => hslash ?_⟩, hslash, .inl rfl, hauth⟩
  rw [List.append_nil] at hin
  exact hin.subset (by decide)

theorem normalizeIp_plain (hlower : LowerCase lower) {s : JavaString} (hs : ∀ c ∈ s, Plain c) (hne : s ≠ []) :
    normalizeIp lower (some s) = some (if ofString "::ffff:" <+: s then s.drop 7 else s) := by
  have hread := lower_trim_plain hlower hs
  unfold normalizeIp
  dsimp only
  rw [hread, if_neg hne]

theorem mem_blockedIps (hlower : LowerCase lower) {p : Policy} {i : JavaString} :
    i ∈ p.blockedIps lower ↔ ∃ a ∈ p.addresses, getHostAddress a = i := by
  unfold Policy.blockedIps Policy.addresses
  rw [List.mem_map]
  refine exists_congr fun a => and_congr_right fun _ => ?_
  have hplain := plain_getHostAddress a
  have htrim := lower_trim_plain hlower hplain
  rw [trim_eq_self fun c hc => ?_] at htrim
  · rw [htrim]
  · have hb := (hplain c hc).bounds
    rw [UInt16.lt_iff_toNat_lt]
    have h20 : (0x20 : UInt16).toNat = 0x20 := rfl
    omega

/-- the text of a socket -/
def socketText (a : InetAddress) (port : UInt16) : JavaString :=
  getHostAddress a ++ colon :: decimal port.toNat

theorem socketText_plain (a : InetAddress) (port : UInt16) : ∀ c ∈ socketText a port, Plain c := by
  intro c hc
  rw [socketText, List.mem_append, List.mem_cons] at hc
  rcases hc with hc | rfl | hc
  · exact plain_getHostAddress a c hc
  · exact .inl (by decide)
  · have h := decimal_digits hc
    exact .inl ⟨h.1, by omega⟩

theorem remoteAddress_inet {c : Client} {a : InetAddress} {hostString : JavaString} {port : UInt16}
    (h : c.remote = some (.inet (some a) hostString port)) : remoteAddress c = some (socketText a port) := by
  rw [remoteAddress, h]
  dsimp only
  rw [List.append_assoc]
  rfl

theorem blank_not_mem_plain {s : JavaString} (h : ∀ c ∈ s, Plain c) : blank ∉ s := fun hmem =>
  absurd (h blank hmem).bounds (by decide)

theorem head_plain {s : JavaString} (h : ∀ c ∈ s, Plain c) : s.head? ≠ some openBracket := fun hhead =>
  absurd (h openBracket (List.mem_of_head? hhead)).bounds (by decide)

/-- an IPv4 socket is seen by its address -/
theorem remoteIp_inet4 (hlower : LowerCase lower) {c : Client} {o₁ o₂ o₃ o₄ : UInt8} {hostString : JavaString}
    {port : UInt16} (h : c.remote = some (.inet (some (.inet4 o₁ o₂ o₃ o₄)) hostString port)) :
    normalizeIp lower (remoteIp lower c) = some (getHostAddress (.inet4 o₁ o₂ o₃ o₄)) := by
  have hcolon := colon_not_mem_inet4 o₁ o₂ o₃ o₄
  have hplain := plain_getHostAddress (.inet4 o₁ o₂ o₃ o₄)
  have hne : getHostAddress (.inet4 o₁ o₂ o₃ o₄) ≠ [] := by simp [getHostAddress]
  have hnorm : normalizeIp lower (some (getHostAddress (.inet4 o₁ o₂ o₃ o₄))) =
      some (getHostAddress (.inet4 o₁ o₂ o₃ o₄)) := by
    rw [normalizeIp_plain hlower hplain hne, if_neg fun hpre => hcolon (hpre.subset (by decide))]
  have hhost : bareHost lower (remoteAddress c) = some (getHostAddress (.inet4 o₁ o₂ o₃ o₄)) := by
    rw [remoteAddress_inet h]
    refine bareHost_eq.2 (host_plain hlower (socketText_plain _ port) (by simp [socketText]) ?_)
    exact .port hne (head_plain hplain) hcolon (colon_not_mem_decimal _)
  rw [remoteIp, hhost]
  dsimp only
  rw [if_pos ⟨by rw [hnorm]; exact Option.some_ne_none _, blank_not_mem_plain hplain⟩, hnorm]

/-- an IPv6 socket is read with its port, which no address is written like -/
theorem remoteIp_inet6 (hlower : LowerCase lower) {p : Policy} {c : Client} {groups : Vector UInt16 8}
    {hostString : JavaString} {port : UInt16} (h : c.remote = some (.inet (some (.inet6 groups)) hostString port)) :
    ∃ i, normalizeIp lower (remoteIp lower c) = some i ∧ i ∉ p.blockedIps lower := by
  have hplain := socketText_plain (.inet6 groups) port
  have hne : socketText (.inet6 groups) port ≠ [] := by simp [socketText]
  have hcount : (socketText (.inet6 groups) port).count colon = 8 := by
    rw [socketText, List.count_append, count_colon_inet6, List.count_cons_self,
      List.count_eq_zero.2 (colon_not_mem_decimal _)]
  have hauth : Authority (socketText (.inet6 groups) port) (socketText (.inet6 groups) port) := by
    refine .plain (head_plain hplain) fun a b hs _ => ?_
    by_contra hnone
    rw [not_or] at hnone
    rw [hs, List.count_append, List.count_cons_self, List.count_eq_zero.2 hnone.1, List.count_eq_zero.2 hnone.2] at hcount
    cases hcount
  have hhost : bareHost lower (remoteAddress c) = some (socketText (.inet6 groups) port) := by
    rw [remoteAddress_inet h]
    exact bareHost_eq.2 (host_plain hlower hplain hne hauth)
  have hnorm := normalizeIp_plain hlower hplain hne
  have hremote : remoteIp lower c = some (socketText (.inet6 groups) port) := by
    rw [remoteIp, hhost]
    dsimp only
    rw [if_pos ⟨by rw [hnorm]; exact Option.some_ne_none _, blank_not_mem_plain hplain⟩]
  rw [hremote]
  refine ⟨_, hnorm, ?_⟩
  · intro hmem
    obtain ⟨a, -, ha⟩ := (mem_blockedIps hlower).1 hmem
    have hcolons : (getHostAddress a).count colon = 0 ∨ (getHostAddress a).count colon = 7 := by
      cases a with
      | inet4 o₁ o₂ o₃ o₄ => exact .inl (List.count_eq_zero.2 (colon_not_mem_inet4 o₁ o₂ o₃ o₄))
      | inet6 groups => exact .inr (count_colon_inet6 groups)
    rw [ha] at hcolons
    split_ifs at hcolons with hmapped
    · obtain ⟨rest, hrest⟩ := hmapped
      have hthree : (ofString "::ffff:").count colon = 3 := by decide
      have hdrop : (ofString "::ffff:" ++ rest).drop 7 = rest := rfl
      rw [← hrest, List.count_append, hthree] at hcount
      rw [← hrest, hdrop] at hcolons
      omega
    · omega

/-! ## Blocked servers -/

/-- the client is known by an address once a socket is there or a server is named -/
theorem classifyClient_outside {p : Policy} {c : Client} {lastServer : Option JavaString} (hreplay : c.replayActive = false)
    (hsingle : c.hasSingleplayerServer = false) :
    (classifyClient lower p lastServer (some c)).1 = some .espectral ↔
      classify lower p (address c) (remoteIp lower c) = some .espectral := by
  unfold classifyClient
  dsimp only
  rw [hreplay, hsingle, if_neg Bool.false_ne_true, if_neg Bool.false_ne_true]
  by_cases hmenu : address c = none ∧ remoteIp lower c = none
  · rw [if_pos hmenu, hmenu.1, hmenu.2]
    refine iff_of_false (fun h => nomatch h) fun h => ?_
    rcases classify_espectral.1 h with ⟨host, hnone, -⟩ | ⟨i, hnone, -⟩ | ⟨host, i, hnone, -⟩
    · cases hnone
    · cases hnone
    · cases hnone
  · rw [if_neg hmenu]

theorem bareHost_option {text : Option JavaString} {host : JavaString} :
    bareHost lower text = some host ↔ ∃ t, text = some t ∧ Host lower t host := by
  cases text with
  | none => simp [bareHost]
  | some t => simp [bareHost_eq]

/-- what the live socket adds -/
theorem live_seen (hlower : LowerCase lower) {p : Policy} {c : Client}
    {live : Option (InetAddress × JavaString × UInt16)}
    (hremote : c.remote = live.map fun s => .inet (some s.1) s.2.1 s.2.2) :
    (∃ i, normalizeIp lower (remoteIp lower c) = some i ∧ i ∈ p.blockedIps lower) ↔
      ∃ o₁ o₂ o₃ o₄ rest, live = some (.inet4 o₁ o₂ o₃ o₄, rest) ∧ .inet4 o₁ o₂ o₃ o₄ ∈ p.addresses := by
  rcases live with _ | ⟨a, hostString, port⟩
  · have hnone : remoteIp lower c = none := by
      rw [remoteIp, remoteAddress, hremote]
      rfl
    rw [hnone]
    simp [normalizeIp]
  cases a with
  | inet4 o₁ o₂ o₃ o₄ =>
    rw [remoteIp_inet4 hlower hremote]
    constructor
    · rintro ⟨i, hi, hmem⟩
      cases hi
      obtain ⟨a, ha, heq⟩ := (mem_blockedIps hlower).1 hmem
      exact ⟨o₁, o₂, o₃, o₄, _, rfl, getHostAddress_inet4_inj heq ▸ ha⟩
    · rintro ⟨p₁, p₂, p₃, p₄, rest, hlive, hmem⟩
      cases hlive
      exact ⟨_, rfl, (mem_blockedIps hlower).2 ⟨_, hmem, rfl⟩⟩
  | inet6 groups =>
    obtain ⟨i, hi, hnot⟩ := remoteIp_inet6 hlower (p := p) hremote
    rw [hi]
    constructor
    · rintro ⟨j, hj, hmem⟩
      cases hj
      exact absurd hmem hnot
    · rintro ⟨p₁, p₂, p₃, p₄, rest, hlive, -⟩
      cases hlive

/-- **What the classifier calls Espectral's** is what it sees, for every policy, text and socket. -/
theorem espectral_iff (hlower : LowerCase lower) {p : Policy} {c : Client} {lastServer : Option JavaString}
    {live : Option (InetAddress × JavaString × UInt16)}
    (hremote : c.remote = live.map fun s => .inet (some s.1) s.2.1 s.2.2) (hreplay : c.replayActive = false)
    (hsingle : c.hasSingleplayerServer = false) :
    (classifyClient lower p lastServer (some c)).1 = some .espectral ↔ Seen lower p c live := by
  rw [classifyClient_outside hreplay hsingle, classify_espectral, live_seen hlower hremote, Seen]
  refine or_congr ?_ (or_congr Iff.rfl ?_)
  · constructor
    · rintro ⟨host, hhost, hblocked⟩
      obtain ⟨text, htext, hread⟩ := bareHost_option.1 hhost
      obtain ⟨bare, entry, domain, hbare, hentry, hdomain, hne, hunder⟩ := isBlockedDomain_iff.1 hblocked
      exact ⟨text, host, bare, entry, domain, htext, hread, hbare, hentry, hdomain, hne, hunder⟩
    · rintro ⟨text, host, bare, entry, domain, htext, hread, hbare, hentry, hdomain, hne, hunder⟩
      exact ⟨host, bareHost_option.2 ⟨text, htext, hread⟩,
        isBlockedDomain_iff.2 ⟨bare, entry, domain, hbare, hentry, hdomain, hne, hunder⟩⟩
  · constructor
    · rintro ⟨host, i, hhost, hi, hmem⟩
      obtain ⟨text, htext, hread⟩ := bareHost_option.1 hhost
      obtain ⟨a, ha, rfl⟩ := (mem_blockedIps hlower).1 hmem
      exact ⟨text, host, a, htext, hread, ha, hi⟩
    · rintro ⟨text, host, a, htext, hread, ha, hi⟩
      exact ⟨host, _, bareHost_option.2 ⟨text, htext, hread⟩, hi, (mem_blockedIps hlower).2 ⟨a, ha, rfl⟩⟩

/-- **A blocked server is refused exactly when it is seen**, for every policy, whatever is allowlisted, every address
text, and every socket over IPv4 or IPv6, outside replays and singleplayer. -/
theorem espectral_refused (hlower : LowerCase lower) (p : Policy) (c : Client) (lastServer : Option JavaString)
    (live : Option (InetAddress × JavaString × UInt16))
    (hremote : c.remote = live.map fun s => .inet (some s.1) s.2.1 s.2.2) (hreplay : c.replayActive = false)
    (hsingle : c.hasSingleplayerServer = false) :
    (Blocked lower p c live → Refused (classifyClient lower p lastServer (some c)).1) ↔
      (Blocked lower p c live → Seen lower p c live) :=
  forall_congr' fun _ => refused_iff.trans (espectral_iff hlower hremote hreplay hsingle)

def sampleLower (s : JavaString) : JavaString := s.map asciiLower

theorem sampleLower_lowerCase : LowerCase sampleLower := ⟨fun _ _ => rfl⟩

/-- every host of Espectral allowlisted, and one of its addresses of each kind known -/
def samplePolicy : Policy where
  allowedServers := [ofString "play.uhce.top", ofString "play.uhce.top."]
  blockedHosts := [ofString "uhce.top"]
  resolved := some [.inet4 45 9 8 7, .inet6 #v[0x2001, 0xdb8, 0, 0, 0, 0, 0, 1]]

/-- a client of the server named `ip`, behind the socket -/
def sampleClient (ip : String) (live : Option (InetAddress × JavaString × UInt16)) : Client where
  replayActive := false
  hasSingleplayerServer := false
  currentServer := some (some (ofString ip))
  remote := live.map fun s => .inet (some s.1) s.2.1 s.2.2

/-- a blocked name with port and capitals, and an alias of a blocked IPv4 address -/
theorem espectral_refused_sample :
    (Blocked sampleLower samplePolicy (sampleClient "Play.UHCE.top:25565" none) none ∧
      Refused (classifyClient sampleLower samplePolicy none (some (sampleClient "Play.UHCE.top:25565" none))).1) ∧
    Blocked sampleLower samplePolicy (sampleClient "alias.example" (some (.inet4 45 9 8 7, [], 25565)))
      (some (.inet4 45 9 8 7, [], 25565)) ∧
    Refused (classifyClient sampleLower samplePolicy none
      (some (sampleClient "alias.example" (some (.inet4 45 9 8 7, [], 25565))))).1 := by
  have hname : Blocked sampleLower samplePolicy (sampleClient "Play.UHCE.top:25565" none) none :=
    .inl ⟨ofString "Play.UHCE.top:25565", ofString "play.uhce.top", ofString "uhce.top", ofString "uhce.top",
      by decide, bareHost_eq.1 (by decide), by decide, bareHost_eq.1 (by decide), by decide, .inr (by decide)⟩
  have halias : Blocked sampleLower samplePolicy (sampleClient "alias.example" (some (.inet4 45 9 8 7, [], 25565)))
      (some (.inet4 45 9 8 7, [], 25565)) := .inr ⟨_, _, rfl, by decide⟩
  refine ⟨⟨hname, ?_⟩, halias, ?_⟩
  · refine (espectral_refused sampleLower_lowerCase samplePolicy _ none none rfl rfl rfl).2 (fun _ => ?_) hname
    exact .inl ⟨ofString "Play.UHCE.top:25565", ofString "play.uhce.top", ofString "play.uhce.top", ofString "uhce.top",
      ofString "uhce.top", by decide, bareHost_eq.1 (by decide), bareHost_eq.1 (by decide), by decide,
      bareHost_eq.1 (by decide), by decide, .inr (by decide)⟩
  · refine (espectral_refused sampleLower_lowerCase samplePolicy _ none (some (.inet4 45 9 8 7, [], 25565)) rfl rfl
      rfl).2 (fun _ => ?_) halias
    exact .inr (.inl ⟨45, 9, 8, 7, _, rfl, by decide⟩)

/-- A trailing dot hides a blocked name, here from the allowlist even; and a socket over IPv6 hides a blocked address. -/
theorem alias_not_seen :
    (Blocked sampleLower samplePolicy (sampleClient "play.uhce.top." none) none ∧
      classifyClient sampleLower samplePolicy none (some (sampleClient "play.uhce.top." none)) =
        (some .allowlisted, some (ofString "play.uhce.top."))) ∧
    Blocked sampleLower samplePolicy
      (sampleClient "alias.example" (some (.inet6 #v[0x2001, 0xdb8, 0, 0, 0, 0, 0, 1], [], 25565)))
      (some (.inet6 #v[0x2001, 0xdb8, 0, 0, 0, 0, 0, 1], [], 25565)) ∧
    classifyClient sampleLower samplePolicy none
      (some (sampleClient "alias.example" (some (.inet6 #v[0x2001, 0xdb8, 0, 0, 0, 0, 0, 1], [], 25565)))) =
        (some .server, some (ofString "alias.example")) := by
  refine ⟨⟨?_, by decide⟩, ?_, by decide⟩
  · exact .inl ⟨ofString "play.uhce.top.", ofString "play.uhce.top.", ofString "uhce.top", ofString "uhce.top",
      by decide, bareHost_eq.1 (by decide), by decide, bareHost_eq.1 (by decide), by decide, .inr (by decide)⟩
  · exact .inr ⟨_, _, rfl, by decide⟩

end EspectralClient.Menu.AgentPolicy
