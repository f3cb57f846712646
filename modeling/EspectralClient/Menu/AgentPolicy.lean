/-
Where the agent may act (`branding-mod/.../agent/AgentPolicy.java`, `AgentTier.java`): the classifier of the current
connection, with its own readers of hosts, ports and addresses, and the tier table that is evaluated against it.

Strings are Java strings; `toLowerCase(Locale.ROOT)` is the parameter `lower`. The resolver thread publishes addresses
and nothing else, so the policy keeps the addresses and the set of their texts is computed.

- `bareHost`, `portOf`, `normalizeIp`, `isLoopback`: the readers.
- `classify`: the pure classifier; `classifyClient`: the one that reads the client.
- `bareHost_eq`: `bareHost` reads the host of the grammar `Host`.
- `classify_espectral`: what is classified as Espectral's.
-/
import EspectralClient.Lib.JavaString

namespace EspectralClient.Menu.AgentPolicy

open EspectralClient.Lib EspectralClient.Lib.JavaString

/-! ## Model -/

inductive Context where
  | menu
  | singleplayer
  | replay
  | localhost
  | allowlisted
  | espectral
  | server
deriving DecidableEq, Repr

inductive AgentTier where
  | observe
  | capture
  | camera
  | act
deriving DecidableEq, Repr

/-- `context` may run tools of the tier; `none` is a null reference -/
def AgentTier.allows (tier : AgentTier) (context : Option Context) : Bool :=
  match context with
  | none => false
  | some context =>
    if tier = .observe ∨ tier = .capture then true
    else
      match context with
      | .menu | .singleplayer | .replay | .localhost | .allowlisted => true
      | .espectral | .server => false

/-- an address as `InetAddress` keeps it: octets, or eight groups -/
inductive InetAddress where
  | inet4 (a b c d : UInt8)
  | inet6 (groups : Vector UInt16 8)
deriving DecidableEq, Repr

def dot : UInt16 := 0x2e

def colon : UInt16 := 0x3a

def slash : UInt16 := 0x2f

def openBracket : UInt16 := 0x5b

def closeBracket : UInt16 := 0x5d

def blank : UInt16 := 0x20

/-- `getHostAddress`: dotted decimal, or the eight groups in full -/
def getHostAddress : InetAddress → JavaString
  | .inet4 a b c d =>
    decimal a.toNat ++ dot :: (decimal b.toNat ++ dot :: (decimal c.toNat ++ dot :: decimal d.toNat))
  | .inet6 groups => [colon].intercalate (groups.toList.map fun g => hex g.toNat)

/-- `Inet4Address` or `Inet6Address` with a port, possibly unresolved, or any other `SocketAddress` by its text -/
inductive SocketAddress where
  | inet (address : Option InetAddress) (hostString : JavaString) (port : UInt16)
  | other (text : JavaString)
deriving DecidableEq, Repr

/-- the policy of the last poll reply, and the addresses of the blocked hosts; `none` until they are first published -/
structure Policy where
  allowedServers : List JavaString
  blockedHosts : List JavaString
  resolved : Option (List InetAddress)
deriving DecidableEq, Repr

/-- what the classifier reads of the client; `remote` is `none` where a reference on the way is null or an exception
was thrown -/
structure Client where
  replayActive : Bool
  hasSingleplayerServer : Bool
  currentServer : Option (Option JavaString)
  remote : Option SocketAddress
deriving DecidableEq, Repr

section

variable (lower : JavaString → JavaString)

/-- the published texts, without a port -/
def Policy.blockedIps (p : Policy) : List JavaString :=
  (p.resolved.getD []).map fun a => lower (getHostAddress a)

/-- strips port and brackets -/
def hostPart (v : JavaString) : JavaString :=
  if v.head? = some openBracket then
    match indexOf closeBracket v with
    | some close => (v.take close).drop 1
    | none => v.drop 1
  else
    match lastIndexOf colon v with
    | some i => if 0 < i ∧ indexOf colon v = some i then v.take i else v
    | none => v

/-- strips scheme, path, port and IPv6 brackets, lowercased -/
def bareHost (address : Option JavaString) : Option JavaString :=
  match address with
  | none => none
  | some address =>
    let v := lower (trim address)
    if v = [] then none
    else
      let v := match indexOfText (ofString "://") v with
        | some scheme => v.drop (scheme + 3)
        | none => v
      let v := match indexOf slash v with
        | some i => v.take i
        | none => v
      some (hostPart v)

/-- port of `host:port` or `[v6]:port` -/
def portOf (address : Option JavaString) : Option JavaString :=
  match address with
  | none => none
  | some address =>
    let v := trim address
    let v := match indexOf slash v with
      | some i => v.take i
      | none => v
    if v.head? = some openBracket then
      match indexOf closeBracket v with
      | some close => if v[close + 1]? = some colon then some (v.drop (close + 2)) else none
      | none => none
    else
      match lastIndexOf colon v with
      | some i => if 0 < i ∧ indexOf colon v = some i then some (v.drop (i + 1)) else none
      | none => none

def normalizeIp (raw : Option JavaString) : Option JavaString :=
  match raw with
  | none => none
  | some raw =>
    let v := lower (trim raw)
    if v = [] then none
    else some (if ofString "::ffff:" <+: v then v.drop 7 else v)

/-- one to three decimal digits, at most 255 -/
def isOctet (part : JavaString) : Bool :=
  part ≠ [] ∧ part.length ≤ 3 ∧ part.all (fun c => 0x30 ≤ c ∧ c ≤ 0x39) ∧
    part.foldl (fun v c => v * 10 + (c.toNat - 0x30)) 0 ≤ 255

def isLoopback (host : Option JavaString) : Bool :=
  match normalizeIp lower host with
  | none => false
  | some h =>
    if h = ofString "localhost" ∨ h = ofString "::1" ∨ h = ofString "0:0:0:0:0:0:0:1" then true
    else
      let parts := h.splitOn dot
      parts.length = 4 ∧ (∀ part ∈ parts, isOctet part) ∧
        (parts.headD []).foldl (fun v c => v * 10 + (c.toNat - 0x30)) 0 = 127

/-- `main.uhce.top` is below `uhce.top`; `notuhce.top` is not -/
def isBlockedDomain (p : Policy) (host : Option JavaString) : Bool :=
  match bareHost lower host with
  | none => false
  | some bare => p.blockedHosts.any fun blocked =>
    match bareHost lower (some blocked) with
    | none => false
    | some domain => domain ≠ [] ∧ (bare = domain ∨ dot :: domain <:+ bare)

def isAllowlisted (p : Policy) (host : Option JavaString) (port : Option JavaString) : Bool :=
  match host with
  | none => false
  | some host => p.allowedServers.any fun entry =>
    bareHost lower (some entry) = some (lower host) ∧
      (portOf (some entry) = none ∨ portOf (some entry) = some [] ∨ portOf (some entry) = port)

/-- `contains` of the published set; the set before the first publication refuses null with an exception, which is
the outer `none` -/
def Policy.containsIp (p : Policy) (ip : Option JavaString) : Option Bool :=
  match ip with
  | none => if p.resolved = none then none else some false
  | some ip => some (ip ∈ p.blockedIps lower)

/-- the context of one endpoint; `none` is an exception -/
def classify (p : Policy) (address remoteIp : Option JavaString) : Option Context :=
  let host := bareHost lower address
  let portPart := portOf address
  let ip := normalizeIp lower remoteIp <|> normalizeIp lower host
  if host ≠ none ∧ isBlockedDomain lower p host then some .espectral
  else if ip ≠ none ∧ p.containsIp lower ip = some true then some .espectral
  else
    match if host = none then some false else p.containsIp lower (normalizeIp lower host) with
    | none => none
    | some true => some .espectral
    | some false =>
      let liveIp := normalizeIp lower remoteIp
      if (if liveIp ≠ none then isLoopback lower liveIp else isLoopback lower host) then some .localhost
      else if host ≠ none ∧ isAllowlisted lower p host portPart then some .allowlisted
      else some .server

/-- host and port of the live socket -/
def remoteAddress (c : Client) : Option JavaString :=
  match c.remote with
  | none => none
  | some (.inet address hostString port) =>
    let host := match address with
      | some address => getHostAddress address
      | none => hostString
    some (host ++ ofString ":" ++ decimal port.toNat)
  | some (.other text) => some text

/-- literal address of the live socket -/
def remoteIp (c : Client) : Option JavaString :=
  match bareHost lower (remoteAddress c) with
  | none => none
  | some host => if normalizeIp lower (some host) ≠ none ∧ blank ∉ host then some host else none

/-- the address the client is known by: the server's, or else the socket's -/
def address (c : Client) : Option JavaString :=
  match c.currentServer with
  | some (some ip) => if ip ≠ [] then some ip else remoteAddress c
  | _ => remoteAddress c

/-- `noteServer`: the address that stays latched -/
def noteServer (lastServer : Option JavaString) (address : Option JavaString) : Option JavaString :=
  match address with
  | some address => if address ≠ [] then some address else lastServer
  | none => lastServer

/-- the context of the client (`none` of `client` is a null reference), and the latched server -/
def classifyClient (p : Policy) (lastServer : Option JavaString) (client : Option Client) :
    Option Context × Option JavaString :=
  match client with
  | none => (some .menu, lastServer)
  | some c =>
    if c.replayActive then (some .replay, lastServer)
    else if c.hasSingleplayerServer then (some .singleplayer, lastServer)
    else if address c = none ∧ remoteIp lower c = none then (some .menu, lastServer)
    else
      (classify lower p (address c) (remoteIp lower c),
        noteServer lastServer (if address c ≠ none then address c else remoteIp lower c))

end

/-! ## The host of a text -/

/-- host, brackets and port, between the scheme and the path -/
inductive Authority : JavaString → JavaString → Prop
  | bracketed {h : JavaString} (rest : JavaString) (hh : closeBracket ∉ h) :
      Authority (openBracket :: (h ++ closeBracket :: rest)) h
  | unclosed {h : JavaString} (hh : closeBracket ∉ h) : Authority (openBracket :: h) h
  | port {h port : JavaString} (hne : h ≠ []) (hopen : h.head? ≠ some openBracket) (hh : colon ∉ h)
      (hport : colon ∉ port) : Authority (h ++ colon :: port) h
  | plain {h : JavaString} (hopen : h.head? ≠ some openBracket)
      (hcolon : ∀ a b, h = a ++ colon :: b → a ≠ [] → colon ∈ a ∨ colon ∈ b) : Authority h h

def schemeEnd : JavaString := ofString "://"

/-- a text in front of which nothing is dropped, or what ends in the first `://` -/
def Scheme (scheme rest : JavaString) : Prop :=
  scheme = [] ∧ ¬ schemeEnd <:+: rest ∨ ∃ s, scheme = s ++ schemeEnd ∧ ¬ schemeEnd <:+: s ++ schemeEnd.dropLast

/-- the host that an address text names, in lower case: `[scheme://]host[:port][/path]` -/
def Host (lower : JavaString → JavaString) (text h : JavaString) : Prop :=
  lower (trim text) ≠ [] ∧ ∃ scheme authority path, lower (trim text) = scheme ++ (authority ++ path) ∧
    Scheme scheme (authority ++ path) ∧ slash ∉ authority ∧ (path = [] ∨ path.head? = some slash) ∧ Authority authority h

theorem hostPart_authority (v : JavaString) : Authority v (hostPart v) := by
  unfold hostPart
  split_ifs with hopen
  · obtain ⟨w, rfl⟩ : ∃ w, v = openBracket :: w := by
      cases v with
      | nil => cases hopen
      | cons c w =>
        cases hopen
        exact ⟨w, rfl⟩
    cases hclose : indexOf closeBracket (openBracket :: w) with
    | none =>
      rw [indexOf_eq_none, List.mem_cons, not_or] at hclose
      exact .unclosed hclose.2
    | some i =>
      obtain ⟨a, b, hs, ha, rfl⟩ := indexOf_eq_some.1 hclose
      cases a with
      | nil => cases hs
      | cons c a =>
        cases hs
        rw [List.mem_cons, not_or] at ha
        simpa using Authority.bracketed b ha.2
  · cases hlast : lastIndexOf colon v with
    | none =>
      rw [lastIndexOf_eq_none] at hlast
      refine .plain hopen fun a b hv _ => absurd ?_ hlast
      rw [hv]
      exact List.mem_append_right a List.mem_cons_self
    | some i =>
      dsimp only
      split_ifs with hi
      · obtain ⟨a, b, rfl, ha, hb, rfl⟩ := lastIndexOf_eq_indexOf.1 ⟨hlast, hi.2⟩
        rw [List.take_left]
        have hne : a ≠ [] := List.ne_nil_of_length_pos hi.1
        refine .port hne ?_ ha hb
        rwa [List.head?_append_of_ne_nil _ hne] at hopen
      · refine .plain hopen fun a b hv hne => ?_
        by_contra hnone
        rw [not_or] at hnone
        obtain ⟨hl, hf⟩ := lastIndexOf_eq_indexOf.2 ⟨a, b, hv, hnone.1, hnone.2, rfl⟩
        rw [hlast, Option.some.injEq] at hl
        exact hi ⟨by rw [hl]; exact List.length_pos_iff.2 hne, by rw [hl]; exact hf⟩

theorem hostPart_eq {v h : JavaString} (hv : Authority v h) : hostPart v = h := by
  unfold hostPart
  cases hv with
  | bracketed rest hh =>
    have hi : indexOf closeBracket (openBracket :: (h ++ closeBracket :: rest)) = some (h.length + 1) := by
      refine indexOf_eq_some.2 ⟨openBracket :: h, rest, rfl, ?_, rfl⟩
      rw [List.mem_cons, not_or]
      exact ⟨by decide, hh⟩
    rw [if_pos List.head?_cons, hi]
    simp
  | unclosed hh =>
    have hi : indexOf closeBracket (openBracket :: h) = none := by
      rw [indexOf_eq_none, List.mem_cons, not_or]
      exact ⟨by decide, hh⟩
    rw [if_pos List.head?_cons, hi]
    rfl
  | @port _ port hne hopen hh hport =>
    obtain ⟨hl, hf⟩ := lastIndexOf_eq_indexOf.2 ⟨h, port, rfl, hh, hport, rfl⟩
    rw [List.head?_append_of_ne_nil _ hne, if_neg hopen, hl]
    dsimp only
    rw [if_pos ⟨List.length_pos_iff.2 hne, hf⟩, List.take_left]
  | plain hopen hcolon =>
    rw [if_neg hopen]
    cases hl : lastIndexOf colon v with
    | none => rfl
    | some i =>
      dsimp only
      split_ifs with hi
      · obtain ⟨a, b, rfl, ha, hb, rfl⟩ := lastIndexOf_eq_indexOf.1 ⟨hl, hi.2⟩
        rcases hcolon a b rfl (List.ne_nil_of_length_pos hi.1) with hm | hm
        · exact absurd hm ha
        · exact absurd hm hb
      · rfl

theorem schemeEnd_ne_nil : schemeEnd ≠ [] := by decide

theorem dropScheme_eq {scheme rest : JavaString} (h : Scheme scheme rest) :
    (match indexOfText (ofString "://") (scheme ++ rest) with
      | some i => (scheme ++ rest).drop (i + 3)
      | none => scheme ++ rest) = rest := by
  change (match indexOfText schemeEnd (scheme ++ rest) with
      | some i => (scheme ++ rest).drop (i + 3)
      | none => scheme ++ rest) = rest
  rcases h with ⟨rfl, hrest⟩ | ⟨s, rfl, hfirst⟩
  · rw [List.nil_append, indexOfText_eq_none.2 hrest]
  · rw [(indexOfText_eq_some schemeEnd_ne_nil).2 ⟨s, rest, rfl, hfirst, rfl⟩]
    have hlen : s.length + 3 = (s ++ schemeEnd).length := by
      rw [List.length_append]
      rfl
    dsimp only
    rw [hlen, List.drop_left]

theorem scheme_exists (v : JavaString) : ∃ scheme rest, v = scheme ++ rest ∧ Scheme scheme rest := by
  cases hi : indexOfText schemeEnd v with
  | none => exact ⟨[], v, rfl, .inl ⟨rfl, indexOfText_eq_none.1 hi⟩⟩
  | some i =>
    obtain ⟨s, rest, hv, hfirst, -⟩ := (indexOfText_eq_some schemeEnd_ne_nil).1 hi
    exact ⟨s ++ schemeEnd, rest, hv, .inr ⟨s, rfl, hfirst⟩⟩

theorem dropPath_eq {authority path : JavaString} (hslash : slash ∉ authority)
    (hpath : path = [] ∨ path.head? = some slash) :
    (match indexOf slash (authority ++ path) with
      | some i => (authority ++ path).take i
      | none => authority ++ path) = authority := by
  cases path with
  | nil =>
    rw [List.append_nil, indexOf_eq_none.2 hslash]
  | cons c path =>
    obtain rfl : c = slash := by simpa using hpath
    rw [indexOf_append hslash]
    dsimp only
    rw [List.take_left]

theorem path_exists (v : JavaString) : ∃ authority path, v = authority ++ path ∧ slash ∉ authority ∧
    (path = [] ∨ path.head? = some slash) := by
  cases hi : indexOf slash v with
  | none => exact ⟨v, [], (List.append_nil v).symm, indexOf_eq_none.1 hi, .inl rfl⟩
  | some i =>
    obtain ⟨a, b, hv, ha, -⟩ := indexOf_eq_some.1 hi
    exact ⟨a, slash :: b, hv, ha, .inr rfl⟩

/-- **`bareHost` reads the host.** -/
theorem bareHost_eq {lower : JavaString → JavaString} {text h : JavaString} :
    bareHost lower (some text) = some h ↔ Host lower text h := by
  have hread : ∀ {scheme authority path : JavaString}, lower (trim text) = scheme ++ (authority ++ path) →
      lower (trim text) ≠ [] → Scheme scheme (authority ++ path) → slash ∉ authority →
      (path = [] ∨ path.head? = some slash) → bareHost lower (some text) = some (hostPart authority) := by
    intro scheme authority path hv hne hscheme hslash hpath
    unfold bareHost
    dsimp only
    rw [if_neg hne, hv, dropScheme_eq hscheme, dropPath_eq hslash hpath]
  constructor
  · intro h
    have hne : lower (trim text) ≠ [] := by
      intro hnil
      unfold bareHost at h
      dsimp only at h
      rw [if_pos hnil] at h
      cases h
    obtain ⟨scheme, rest, hv, hscheme⟩ := scheme_exists (lower (trim text))
    obtain ⟨authority, path, rfl, hslash, hpath⟩ := path_exists rest
    have heq := hread hv hne hscheme hslash hpath
    rw [h, Option.some.injEq] at heq
    exact ⟨hne, scheme, authority, path, hv, hscheme, hslash, hpath, heq ▸ hostPart_authority authority⟩
  · rintro ⟨hne, scheme, authority, path, hv, hscheme, hslash, hpath, hauth⟩
    rw [hread hv hne hscheme hslash hpath, hostPart_eq hauth]

end EspectralClient.Menu.AgentPolicy
