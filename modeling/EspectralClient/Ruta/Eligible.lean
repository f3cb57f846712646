/-
Which servers are offered the relay (`RutaProtocol.isEligible`).

- `isEligible`: the function; an exception is an error with its name.
- `Overflows`: the addresses on which it throws. `isEligible_error`: on no other.
- `isEligible_literal`, `Under.refused`: a private literal and a name that is refused.
- `Sound`: what is promised of it. `sound_iff`: when it holds.
-/
import EspectralClient.Lib.Split
import EspectralClient.Ruta.ServerKey
import EspectralClient.Relay.DestRanges

namespace EspectralClient.RutaProtocol

open EspectralClient.Lib EspectralClient.Lib.JavaString

/-! ## Model -/

def percent : UInt16 := 0x25

/-- `host.equals(name) || host.endsWith("." + name)` -/
def isOrUnder (host : JavaString) (name : String) : Bool := host = ofString name || (dot :: ofString name).isSuffixOf host

/-- digits with three dots -/
def isIpv4 (host : JavaString) : Bool := host.all (fun c => c = dot || isDigit c) && host.count dot = 3

/-- `Integer.parseInt` of digits -/
def parseInt (text : JavaString) : Except String ℕ :=
  if 2147483647 < digitsValue text then .error "NumberFormatException" else .ok (digitsValue text)

/-- the octets; `none` is an empty part -/
def readOctets : List JavaString → Except String (Option (List ℕ))
  | [] => .ok (some [])
  | part :: parts =>
    if part = [] then .ok none
    else do
      let octet ← parseInt part
      let octets ← readOctets parts
      return octets.map fun octets => octet :: octets

def publicV4 (a b c : ℕ) : Bool :=
  if a = 0 ∨ a = 10 ∨ a = 127 then false
  else if a = 169 ∧ b = 254 then false
  else if a = 172 ∧ 16 ≤ b ∧ b ≤ 31 then false
  else if a = 192 ∧ b = 168 then false
  else if a = 100 ∧ 64 ≤ b ∧ b ≤ 127 then false
  else if a = 198 ∧ (b = 18 ∨ b = 19) then false
  else if a = 192 ∧ b = 0 ∧ (c = 0 ∨ c = 2) then false
  else if a = 198 ∧ b = 51 ∧ c = 100 then false
  else if a = 203 ∧ b = 0 ∧ c = 113 then false
  else if 224 ≤ a then false
  else true

def eligibleV4 (host : JavaString) : Except String Bool :=
  if (host.splitOn dot).length ≠ 4 then .ok true
  else do
    match ← readOctets (host.splitOn dot) with
    | none => return true
    | some octets => return publicV4 (octets.getD 0 0) (octets.getD 1 0) (octets.getD 2 0)

/-- the literal without its zone -/
def cutZone (host : JavaString) : JavaString :=
  match indexOf percent host with
  | some zone => host.take zone
  | none => host

def eligibleV6 (host : JavaString) : Except String Bool :=
  let h := cutZone host
  if h = ofString "::" ∨ h = ofString "::1" then .ok false
  else if ofString "fe8" <+: h ∨ ofString "fe9" <+: h ∨ ofString "fea" <+: h ∨ ofString "feb" <+: h then .ok false
  else if ofString "fc" <+: h ∨ ofString "fd" <+: h then .ok false
  else if ofString "ff" <+: h then .ok false
  else if ofString "2001:db8" <+: h then .ok false
  else if ofString "::ffff:" <+: h ∨ ofString "::FFFF:" <+: h then
    if isIpv4 (h.drop 7) then eligibleV4 (h.drop 7) else .ok true
  else .ok true

/-- the servers and the local names -/
def refusedName (host : JavaString) : Bool :=
  isOrUnder host "localhost" || isOrUnder host "local" || isOrUnder host "lan" || isOrUnder host "uhce.top" ||
    isOrUnder host "espectral.es"

/-- what is said of a host that is not null -/
def judgeHost (host : JavaString) : Except String Bool :=
  if host = [] then .ok false
  else if refusedName host then .ok false
  else if colon ∈ host then eligibleV6 host
  else if isIpv4 host then eligibleV4 host
  else .ok true

def isEligible (L : LowerCase) (serverAddress : Option JavaString) : Except String Bool :=
  match normalize L serverAddress with
  | none => .ok false
  | some key => do
    match ← hostOf (some key) with
    | none => return false
    | some host => judgeHost host

/-! ## What is promised -/

/-- an IPv4 literal -/
def Quad (q : JavaString) (o : Vector UInt8 4) : Prop :=
  ∃ a b c d : JavaString, q = a ++ dot :: (b ++ dot :: (c ++ dot :: d)) ∧
    (∀ part ∈ [a, b, c, d], part ≠ [] ∧ part.all isDigit = true) ∧
    [a, b, c, d].map digitsValue = [(Dest.octet o 0).toNat, (Dest.octet o 1).toNat, (Dest.octet o 2).toNat, (Dest.octet o 3).toNat]

/-- bare or mapped, with dots at its end -/
def Literal (h : JavaString) (o : Vector UInt8 4) : Prop :=
  ∃ q n, Quad q o ∧ (h = q ++ List.replicate n dot ∨ h = ofString "::ffff:" ++ q ++ List.replicate n dot)

/-- the networks that are not offered, with their lengths -/
def listedNetworks : List (ℕ × ℕ) :=
  [(0x00000000, 8), (0x0a000000, 8), (0x7f000000, 8), (0xa9fe0000, 16), (0xac100000, 12), (0xc0a80000, 16),
    (0x64400000, 10), (0xc6120000, 15), (0xc0000000, 24), (0xc0000200, 24), (0xc6336400, 24), (0xcb007100, 24),
    (0xe0000000, 3)]

def Listed (o : Vector UInt8 4) : Prop := ∃ r ∈ listedNetworks, Dest.num4 o / 2 ^ (32 - r.2) = r.1 / 2 ^ (32 - r.2)

def refusedDomains : List String := ["uhce.top", "espectral.es", "localhost", "local", "lan"]

/-- a domain or a subdomain of it, with dots at its end -/
def Under (domain : String) (h : JavaString) : Prop :=
  ∃ label n, h = label ++ ofString domain ++ List.replicate n dot ∧ (label = [] ∨ label.getLast? = some dot) ∧
    colon ∉ label ∧ lbracket ∉ label ∧ rbracket ∉ label

structure Sound (L : LowerCase) (s : JavaString) : Prop where
  total : ∃ b, isEligible L (some s) = .ok b
  named : ∀ domain ∈ refusedDomains, ∀ H p, Parts (trim s) H p → Under domain (L.lower H) →
    isEligible L (some s) = .ok false
  literal : ∀ H p o, Parts (trim s) H p → Literal (L.lower H) o → Listed o →
    isEligible L (some s) = .ok false ∧ Dest.addressAllowed (.v4 o) false = false ∧
      ∀ x, Dest.IsMapped (Dest.num6 x) → Dest.lowV4 (Dest.num6 x) = Dest.num4 o → Dest.addressAllowed (.v6 x) false = false

/-- an IPv4 literal with a part that is no `int`, and no empty part before it -/
def TooLong (q : JavaString) : Prop :=
  isIpv4 q = true ∧ ∃ before part after, q.splitOn dot = before ++ part :: after ∧ [] ∉ before ∧
    2147483647 < digitsValue part

/-- bare, or behind `::ffff:` -/
def LiteralTooLong (h : JavaString) : Prop :=
  (colon ∉ h ∧ TooLong h) ∨ (refusedName h = false ∧ ∃ q, cutZone h = ofString "::ffff:" ++ q ∧ TooLong q)

/-- a host as far as it is looked at: an IPv6 literal up to a bracket in it -/
def looked (h : JavaString) : JavaString := if colon ∈ h then h.takeWhile (fun c => c ≠ rbracket) else h

def Overflows (L : LowerCase) (s : JavaString) : Prop :=
  ∃ H port, Addressed s H port ∧ LiteralTooLong (looked (trimDots (L.lower H)))

/-! ## IPv4 literals -/

theorem readOctets_error {parts : List JavaString} : (∃ e, readOctets parts = .error e) ↔
    ∃ before part after, parts = before ++ part :: after ∧ [] ∉ before ∧ 2147483647 < digitsValue part := by
  induction parts with
  | nil =>
    refine iff_of_false ?_ ?_
    · rintro ⟨e, he⟩
      cases he
    · rintro ⟨before, part, after, h, -⟩
      simp at h
  | cons part parts ih =>
    unfold readOctets
    by_cases hempty : part = []
    · rw [if_pos hempty]
      refine iff_of_false ?_ ?_
      · rintro ⟨e, he⟩
        cases he
      · rintro ⟨before, part', after, h, hbefore, hlarge⟩
        cases before with
        | nil =>
          rw [List.nil_append, List.cons.injEq] at h
          rw [← h.1, hempty] at hlarge
          exact absurd hlarge (by decide)
        | cons first before =>
          rw [List.cons_append, List.cons.injEq] at h
          rw [← h.1, hempty] at hbefore
          exact hbefore List.mem_cons_self
    · rw [if_neg hempty]
      by_cases hlarge : 2147483647 < digitsValue part
      · refine iff_of_true ⟨"NumberFormatException", ?_⟩ ⟨[], part, parts, rfl, List.not_mem_nil, hlarge⟩
        unfold parseInt
        rw [if_pos hlarge]
        rfl
      · unfold parseInt
        rw [if_neg hlarge]
        have hstep : (∃ e, readOctets parts = .error e) ↔
            ∃ e, (do let octet ← Except.ok (digitsValue part)
                     let octets ← readOctets parts
                     return octets.map fun octets => octet :: octets : Except String (Option (List ℕ))) = .error e := by
          cases hrest : readOctets parts with
          | error e => exact iff_of_true ⟨e, rfl⟩ ⟨e, rfl⟩
          | ok octets =>
            refine iff_of_false ?_ ?_
            · rintro ⟨e, he⟩
              cases he
            · rintro ⟨e, he⟩
              cases he
        rw [← hstep, ih]
        constructor
        · rintro ⟨before, part', after, h, hbefore, hlarge'⟩
          refine ⟨part :: before, part', after, by rw [h, List.cons_append], ?_, hlarge'⟩
          rw [List.mem_cons, not_or]
          exact ⟨Ne.symm hempty, hbefore⟩
        · rintro ⟨before, part', after, h, hbefore, hlarge'⟩
          cases before with
          | nil =>
            rw [List.nil_append, List.cons.injEq] at h
            rw [← h.1] at hlarge'
            exact absurd hlarge' hlarge
          | cons first before =>
            rw [List.cons_append, List.cons.injEq] at h
            exact ⟨before, part', after, h.2, fun hmem => hbefore (List.mem_cons_of_mem _ hmem), hlarge'⟩

theorem eligibleV4_error {q : JavaString} (h : isIpv4 q = true) : (∃ e, eligibleV4 q = .error e) ↔ TooLong q := by
  have hlength : (q.splitOn dot).length = 4 := by
    unfold isIpv4 at h
    rw [Bool.and_eq_true, decide_eq_true_eq] at h
    rw [Split.length_splitOn, h.2]
  unfold TooLong eligibleV4
  rw [← readOctets_error, and_iff_right h, if_neg (not_not.2 hlength)]
  cases hread : readOctets (q.splitOn dot) with
  | error e => exact iff_of_true ⟨e, rfl⟩ ⟨e, rfl⟩
  | ok octets =>
    refine iff_of_false ?_ ?_
    · rintro ⟨e, he⟩
      cases octets with
      | none => cases he
      | some octets => cases he
    · rintro ⟨e, he⟩
      cases he

theorem isIpv4_mem {q : JavaString} (h : isIpv4 q = true) {c : UInt16} (hc : c ∈ q) : c = dot ∨ isDigit c = true := by
  unfold isIpv4 at h
  rw [Bool.and_eq_true, List.all_eq_true] at h
  simpa using h.1 c hc

theorem last_mem {host : JavaString} {name : String} (hne : ofString name ≠ []) (h : isOrUnder host name = true) :
    (ofString name).getLast hne ∈ host := by
  have hmem := List.getLast_mem hne
  unfold isOrUnder at h
  rw [Bool.or_eq_true, decide_eq_true_eq, List.isSuffixOf_iff_suffix] at h
  rcases h with rfl | hsuffix
  · exact hmem
  · exact hsuffix.subset (List.mem_cons_of_mem _ hmem)

/-- no name that is refused is an IPv4 literal -/
theorem refusedName_isIpv4 {q : JavaString} (h : isIpv4 q = true) : refusedName q = false := by
  have hnot : ∀ name (hne : ofString name ≠ []), (ofString name).getLast hne ≠ dot →
      isDigit ((ofString name).getLast hne) = false → isOrUnder q name = false := by
    intro name hne hdot hdigit
    rw [← Bool.not_eq_true]
    intro hunder
    rcases isIpv4_mem h (last_mem hne hunder) with heq | heq
    · exact hdot heq
    · rw [hdigit] at heq
      exact Bool.false_ne_true heq
  unfold refusedName
  rw [hnot "localhost" (by decide) (by decide) (by decide), hnot "local" (by decide) (by decide) (by decide),
    hnot "lan" (by decide) (by decide) (by decide), hnot "uhce.top" (by decide) (by decide) (by decide),
    hnot "espectral.es" (by decide) (by decide) (by decide)]
  rfl

/-! ## Totality -/

theorem cutZone_start (h : JavaString) : cutZone h <+: h := by
  unfold cutZone
  cases indexOf percent h with
  | none => exact List.prefix_rfl
  | some zone => exact List.take_prefix zone h

/-- a literal that is read to its end -/
theorem eligibleV6_error {h : JavaString} (hupper : 0x46 ∉ h) : (∃ e, eligibleV6 h = .error e) ↔
    ∃ q, cutZone h = ofString "::ffff:" ++ q ∧ TooLong q := by
  have hno : ¬ ofString "::FFFF:" <+: cutZone h := by
    intro hstart
    exact hupper ((cutZone_start h).subset (hstart.subset (by decide)))
  by_cases hmapped : ofString "::ffff:" <+: cutZone h
  · obtain ⟨q, hq⟩ := hmapped
    have hread : eligibleV6 h = if isIpv4 q then eligibleV4 q else .ok true := by
      have hdrop : (cutZone h).drop 7 = q := by
        rw [← hq]
        rfl
      have hhead : ∀ p : JavaString, ¬ p <+: ofString "::ffff:" → p.length ≤ 7 → ¬ p <+: cutZone h := by
        intro p hnot hlength hstart
        rw [← hq] at hstart
        exact hnot (List.prefix_of_prefix_length_le hstart (List.prefix_append _ q) hlength)
      unfold eligibleV6
      dsimp only
      rw [if_neg, if_neg, if_neg, if_neg, if_neg, if_pos, hdrop]
      · rw [← hq]
        exact Or.inl (List.prefix_append _ q)
      · intro hstart
        rw [← hq] at hstart
        obtain ⟨rest, hrest⟩ := hstart
        cases hrest
      · exact hhead _ (by decide) (by decide)
      · rw [not_or]
        exact ⟨hhead _ (by decide) (by decide), hhead _ (by decide) (by decide)⟩
      · simp only [not_or]
        exact ⟨hhead _ (by decide) (by decide), hhead _ (by decide) (by decide), hhead _ (by decide) (by decide),
          hhead _ (by decide) (by decide)⟩
      · rw [← hq, not_or]
        refine ⟨fun heq => ?_, fun heq => ?_⟩
        · have hlength := congrArg List.length heq
          rw [List.length_append] at hlength
          have h7 : (ofString "::ffff:").length = 7 := by decide
          have h2 : (ofString "::").length = 2 := by decide
          omega
        · have hlength := congrArg List.length heq
          rw [List.length_append] at hlength
          have h7 : (ofString "::ffff:").length = 7 := by decide
          have h3 : (ofString "::1").length = 3 := by decide
          omega
    rw [hread]
    by_cases hq4 : isIpv4 q = true
    · rw [if_pos hq4, eligibleV4_error hq4]
      constructor
      · exact fun hlong => ⟨q, hq.symm, hlong⟩
      · rintro ⟨q', hq', hlong⟩
        rw [← hq] at hq'
        rw [List.append_cancel_left hq']
        exact hlong
    · rw [if_neg hq4]
      refine iff_of_false ?_ ?_
      · rintro ⟨e, he⟩
        cases he
      · rintro ⟨q', hq', hlong⟩
        rw [← hq] at hq'
        rw [List.append_cancel_left hq'] at hq4
        exact hq4 hlong.1
  · refine iff_of_false ?_ ?_
    · rintro ⟨e, he⟩
      unfold eligibleV6 at he
      dsimp only at he
      have hneither : ¬ (ofString "::ffff:" <+: cutZone h ∨ ofString "::FFFF:" <+: cutZone h) := by
        rw [not_or]
        exact ⟨hmapped, hno⟩
      rw [if_neg hneither] at he
      split_ifs at he
    · rintro ⟨q, hq, -⟩
      rw [hq] at hmapped
      exact hmapped (List.prefix_append _ q)

theorem judgeHost_error {host : JavaString} (hupper : 0x46 ∉ host) :
    (∃ e, judgeHost host = .error e) ↔ LiteralTooLong host := by
  have hok : ∀ b : Bool, ¬ ∃ e, (Except.ok b : Except String Bool) = .error e := by
    rintro b ⟨e, he⟩
    cases he
  unfold judgeHost LiteralTooLong
  by_cases hempty : host = []
  · rw [if_pos hempty]
    refine iff_of_false (hok _) ?_
    rw [hempty]
    rintro (⟨-, hlong⟩ | ⟨-, q, hq, -⟩)
    · exact absurd hlong.1 (by decide)
    · cases hq
  · rw [if_neg hempty]
    by_cases hrefused : refusedName host = true
    · rw [if_pos hrefused]
      refine iff_of_false (hok _) ?_
      rintro (⟨-, hlong⟩ | ⟨hnot, -⟩)
      · rw [refusedName_isIpv4 hlong.1] at hrefused
        exact Bool.false_ne_true hrefused
      · rw [hnot] at hrefused
        exact Bool.false_ne_true hrefused
    · rw [if_neg hrefused, Bool.not_eq_true] at *
      rw [and_iff_right hrefused]
      by_cases hcolon : colon ∈ host
      · rw [if_pos hcolon, eligibleV6_error hupper]
        exact (or_iff_right fun h => h.1 hcolon).symm
      · have hno : ¬ ∃ q, cutZone host = ofString "::ffff:" ++ q ∧ TooLong q := by
          rintro ⟨q, hq, -⟩
          refine hcolon ((cutZone_start host).subset ?_)
          rw [hq]
          exact List.mem_append_left _ (by decide)
        rw [if_neg hcolon, or_iff_left hno, and_iff_right hcolon]
        by_cases hv4 : isIpv4 host = true
        · rw [if_pos hv4]
          exact eligibleV4_error hv4
        · rw [if_neg hv4]
          exact iff_of_false (hok _) fun hlong => hv4 hlong.1

/-- nothing in a lower-case text is the upper-case letter -/
theorem Lowers.upper {s t : JavaString} (h : Lowers s t) : 0x46 ∉ t := by
  induction h with
  | nil => exact List.not_mem_nil
  | @ascii c _ _ _ _ ih =>
    rw [List.mem_cons, not_or]
    refine ⟨?_, ih⟩
    unfold asciiLower
    split
    · next hupper =>
      intro heq
      have hnat := congrArg UInt16.toNat heq
      simp only [UInt16.le_iff_toNat_le, UInt16.toNat_add] at hupper hnat
      have h1 : (0x41 : UInt16).toNat = 0x41 := rfl
      have h2 : (0x5a : UInt16).toNat = 0x5a := rfl
      have h3 : (0x20 : UInt16).toNat = 0x20 := rfl
      have h4 : (0x46 : UInt16).toNat = 0x46 := rfl
      omega
    · next hnot =>
      rintro rfl
      exact hnot (by decide)
  | other _ _ hother _ ih =>
    rw [List.mem_append, not_or]
    refine ⟨?_, ih⟩
    intro hmem
    rcases hother _ hmem with hge | hletter
    · exact absurd hge (by decide)
    · exact absurd hletter (by decide)

variable {L : LowerCase}

theorem isEligible_addressed {s H : JavaString} {port : ℤ} (h : Addressed s H port) (hne : trimDots (L.lower H) ≠ []) :
    isEligible L (some s) = judgeHost (hostPart (keyText (trimDots (L.lower H)) port)) := by
  have hkey : normalize L (some s) = some (keyText (trimDots (L.lower H)) port) := normalize_iff.2 ⟨H, port, h, hne, rfl⟩
  unfold isEligible
  rw [hkey]
  unfold hostOf
  dsimp only
  rw [if_neg (keyText_ne_nil hne port)]
  rfl

theorem isEligible_none {s : JavaString} (h : normalize L (some s) = none) : isEligible L (some s) = .ok false := by
  unfold isEligible
  rw [h]

/-- an address with its parts is refused, or has a port and a host that is judged -/
theorem isEligible_parts {s H : JavaString} {p : Option JavaString} (h : Parts (trim s) H p) :
    isEligible L (some s) = .ok false ∨ (Addressed s H (portFrom p) ∧ trimDots (L.lower H) ≠ [] ∧
      isEligible L (some s) = judgeHost (hostPart (keyText (trimDots (L.lower H)) (portFrom p)))) := by
  cases hkey : normalize L (some s) with
  | none => exact .inl (isEligible_none hkey)
  | some k =>
    obtain ⟨H', port, haddressed, hne, -⟩ := normalize_iff.1 hkey
    obtain ⟨p', hparts, hport⟩ := haddressed.parts
    obtain ⟨rfl, rfl⟩ := h.unique hparts
    subst hport
    exact .inr ⟨haddressed, hne, isEligible_addressed haddressed hne⟩

/-- a host that begins with a bracket is no literal that is read -/
theorem not_literalTooLong {h : JavaString} (hhead : h.head? = some lbracket) : ¬ LiteralTooLong h := by
  obtain ⟨rest, rfl⟩ := List.head?_eq_some_iff.1 hhead
  rintro (⟨-, hlong⟩ | ⟨-, q, hq, -⟩)
  · rcases isIpv4_mem hlong.1 List.mem_cons_self with heq | heq
    · exact absurd heq (by decide)
    · exact absurd heq (by decide)
  · have hstart := cutZone_start (lbracket :: rest)
    rw [hq] at hstart
    obtain ⟨tail, htail⟩ := hstart
    cases htail

theorem isEligible_error {s : JavaString} : (∃ e, isEligible L (some s) = .error e) ↔ Overflows L s := by
  have hjudge : ∀ H port, Addressed s H port → trimDots (L.lower H) ≠ [] →
      ((∃ e, isEligible L (some s) = .error e) ↔ LiteralTooLong (looked (trimDots (L.lower H)))) := by
    intro H port haddressed hne
    have hupper : 0x46 ∉ trimDots (L.lower H) := fun hmem => (L.lowers H).upper ((trimDots_part _).subset hmem)
    rw [isEligible_addressed haddressed hne]
    unfold looked
    by_cases hcolon : colon ∈ trimDots (L.lower H)
    · rw [if_pos hcolon, hostPart_v6 hcolon]
      exact judgeHost_error fun hmem => hupper ((List.takeWhile_prefix _).subset hmem)
    · rw [if_neg hcolon]
      by_cases hhead : (trimDots (L.lower H)).head? = some lbracket
      · -- the whole key is read, and begins with the bracket
        have hkeep : ∀ k : JavaString, k.head? = some lbracket → rbracket ∉ k → hostPart k = k := by
          intro k hk hclose
          unfold hostPart
          rw [if_pos hk, indexOf_eq_none.2 hclose]
        have hkeyHead : (keyText (trimDots (L.lower H)) port).head? = some lbracket := by
          unfold keyText
          rw [if_neg hcolon, if_neg hcolon]
          split
          · exact hhead
          · rw [head_append hne]
            exact hhead
        have hclose : rbracket ∉ keyText (trimDots (L.lower H)) port := by
          have hhost := haddressed.unclosed hhead
          unfold keyText
          rw [if_neg hcolon, if_neg hcolon]
          split
          · exact hhost
          · rw [List.mem_append, not_or, List.mem_cons, not_or]
            exact ⟨hhost, by decide, fun hmem => absurd (decimal_digits hmem).2 (by decide)⟩
        have hupperKey : 0x46 ∉ keyText (trimDots (L.lower H)) port := by
          unfold keyText
          rw [if_neg hcolon, if_neg hcolon]
          split
          · exact hupper
          · rw [List.mem_append, not_or, List.mem_cons, not_or]
            exact ⟨hupper, by decide, fun hmem => absurd (decimal_digits hmem).2 (by decide)⟩
        rw [hkeep _ hkeyHead hclose, judgeHost_error hupperKey]
        exact iff_of_false (not_literalTooLong hkeyHead) (not_literalTooLong hhead)
      · rw [hostPart_keyText hcolon hne hhead]
        exact judgeHost_error hupper
  constructor
  · rintro ⟨e, he⟩
    cases hkey : normalize L (some s) with
    | none =>
      rw [isEligible_none hkey] at he
      cases he
    | some k =>
      obtain ⟨H, port, haddressed, hne, -⟩ := normalize_iff.1 hkey
      exact ⟨H, port, haddressed, (hjudge H port haddressed hne).1 ⟨e, he⟩⟩
  · rintro ⟨H, port, haddressed, hlong⟩
    refine (hjudge H port haddressed ?_).2 hlong
    intro hempty
    rw [hempty] at hlong
    rcases hlong with ⟨-, hlong⟩ | ⟨-, q, hq, -⟩
    · exact absurd hlong.1 (by decide)
    · cases hq

/-! ## Refused names and literals -/

theorem trimDots_replicate {h : JavaString} (n : ℕ) (hlast : ∀ c, h.getLast? = some c → c ≠ dot) :
    trimDots (h ++ List.replicate n dot) = h := by
  induction n with
  | zero =>
    rw [List.replicate_zero, List.append_nil]
    refine List.rdropWhile_eq_self_iff.2 ?_
    intro hne
    simpa using hlast _ (List.getLast?_eq_some_getLast hne)
  | succ n ih =>
    rw [List.replicate_succ', ← List.append_assoc]
    unfold trimDots at ih ⊢
    rw [List.rdropWhile_concat_pos _ _ _ (by decide)]
    exact ih

theorem Under.refused {domain : String} (hdomain : domain ∈ refusedDomains) {h : JavaString} (hunder : Under domain h) :
    trimDots h ≠ [] ∧ colon ∉ trimDots h ∧ (trimDots h).head? ≠ some lbracket ∧ refusedName (trimDots h) = true := by
  obtain ⟨label, n, rfl, hlabel, hcolon, hopen, -⟩ := hunder
  have hshape : ofString domain ≠ [] ∧ (∀ c, (ofString domain).getLast? = some c → c ≠ dot) ∧ colon ∉ ofString domain ∧
      lbracket ∉ ofString domain := by
    revert domain
    have hall : ∀ domain ∈ refusedDomains, ofString domain ≠ [] ∧
        ((ofString domain).getLast?.all fun c => c ≠ dot) = true ∧ colon ∉ ofString domain ∧ lbracket ∉ ofString domain := by
      decide
    intro domain hdomain
    obtain ⟨h1, h2, h3⟩ := hall domain hdomain
    refine ⟨h1, ?_, h3⟩
    intro c hc
    rw [hc] at h2
    simpa using h2
  obtain ⟨hne, hlast, hcolon', hopen'⟩ := hshape
  have hdots : trimDots (label ++ ofString domain ++ List.replicate n dot) = label ++ ofString domain := by
    refine trimDots_replicate n ?_
    intro c hc
    rw [List.getLast?_append, List.getLast?_eq_some_getLast hne, Option.some_or] at hc
    exact hlast c ((List.getLast?_eq_some_getLast hne).trans hc)
  rw [hdots]
  refine ⟨by simp [hne], by simp [hcolon, hcolon'], ?_, ?_⟩
  · intro hhead
    rcases List.mem_append.1 (List.mem_of_head? hhead) with hmem | hmem
    · exact hopen hmem
    · exact hopen' hmem
  · have hunder : isOrUnder (label ++ ofString domain) domain = true := by
      unfold isOrUnder
      rw [Bool.or_eq_true, decide_eq_true_eq, List.isSuffixOf_iff_suffix]
      rcases hlabel with rfl | hdot
      · exact .inl (List.nil_append _)
      · obtain ⟨front, rfl⟩ := List.getLast?_eq_some_iff.1 hdot
        refine .inr ⟨front, ?_⟩
        simp
    unfold refusedName
    simp only [refusedDomains, List.mem_cons, List.not_mem_nil, or_false] at hdomain
    rcases hdomain with rfl | rfl | rfl | rfl | rfl <;> simp [hunder]

theorem publicV4_eq_false {a b c : ℕ} (h : (a = 0 ∨ a = 10 ∨ a = 127) ∨ (a = 169 ∧ b = 254) ∨
    (a = 172 ∧ 16 ≤ b ∧ b ≤ 31) ∨ (a = 192 ∧ b = 168) ∨ (a = 100 ∧ 64 ≤ b ∧ b ≤ 127) ∨
    (a = 198 ∧ (b = 18 ∨ b = 19)) ∨ (a = 192 ∧ b = 0 ∧ (c = 0 ∨ c = 2)) ∨ (a = 198 ∧ b = 51 ∧ c = 100) ∨
    (a = 203 ∧ b = 0 ∧ c = 113) ∨ 224 ≤ a) : publicV4 a b c = false := by
  unfold publicV4
  split_ifs with h1 h2 h3 h4 h5 h6 h7 h8 h9 h10
  all_goals first
    | rfl
    | exact absurd h (by simp only [h1, h2, h3, h4, h5, h6, h7, h8, h9, h10, or_self, not_false_eq_true])

theorem Listed.notPublic {o : Vector UInt8 4} (h : Listed o) :
    publicV4 (Dest.octet o 0).toNat (Dest.octet o 1).toNat (Dest.octet o 2).toNat = false := by
  obtain ⟨r, hr, hin⟩ := h
  have ha := (Dest.octet o 0).toNat_lt
  have hb := (Dest.octet o 1).toNat_lt
  have hc := (Dest.octet o 2).toNat_lt
  have hd := (Dest.octet o 3).toNat_lt
  unfold Dest.num4 at hin
  generalize (Dest.octet o 0).toNat = a at *
  generalize (Dest.octet o 1).toNat = b at *
  generalize (Dest.octet o 2).toNat = c at *
  generalize (Dest.octet o 3).toNat = d at *
  apply publicV4_eq_false
  simp only [listedNetworks, List.mem_cons, List.not_mem_nil, or_false] at hr
  rcases hr with rfl | rfl | rfl | rfl | rfl | rfl | rfl | rfl | rfl | rfl | rfl | rfl | rfl
  · exact .inl (.inl (by norm_num at hin; omega))
  · exact .inl (.inr (.inl (by norm_num at hin; omega)))
  · exact .inl (.inr (.inr (by norm_num at hin; omega)))
  · exact .inr (.inl (by norm_num at hin; omega))
  · exact .inr (.inr (.inl (by norm_num at hin; omega)))
  · exact .inr (.inr (.inr (.inl (by norm_num at hin; omega))))
  · exact .inr (.inr (.inr (.inr (.inl (by norm_num at hin; omega)))))
  · exact .inr (.inr (.inr (.inr (.inr (.inl (by norm_num at hin; omega))))))
  · exact .inr (.inr (.inr (.inr (.inr (.inr (.inl (by norm_num at hin; omega)))))))
  · exact .inr (.inr (.inr (.inr (.inr (.inr (.inl (by norm_num at hin; omega)))))))
  · exact .inr (.inr (.inr (.inr (.inr (.inr (.inr (.inl (by norm_num at hin; omega))))))))
  · exact .inr (.inr (.inr (.inr (.inr (.inr (.inr (.inr (.inl (by norm_num at hin; omega)))))))))
  · exact .inr (.inr (.inr (.inr (.inr (.inr (.inr (.inr (.inr (by norm_num at hin; omega)))))))))

theorem Listed.within {o : Vector UInt8 4} (h : Listed o) : Dest.Within Dest.v4Ranges (Dest.num4 o) := by
  obtain ⟨r, hr, hin⟩ := h
  have hnum : Dest.num4 o < 2 ^ 32 := by
    have ha := (Dest.octet o 0).toNat_lt
    have hb := (Dest.octet o 1).toNat_lt
    have hc := (Dest.octet o 2).toNat_lt
    have hd := (Dest.octet o 3).toNat_lt
    unfold Dest.num4
    omega
  generalize Dest.num4 o = n at *
  unfold Dest.Within Dest.v4Ranges
  simp only [List.mem_cons, List.not_mem_nil, or_false, exists_eq_or_imp, exists_eq_left]
  simp only [listedNetworks, List.mem_cons, List.not_mem_nil, or_false] at hr
  rcases hr with rfl | rfl | rfl | rfl | rfl | rfl | rfl | rfl | rfl | rfl | rfl | rfl | rfl <;>
    · norm_num at hin
      omega

theorem Listed.relayRefuses {o : Vector UInt8 4} (h : Listed o) : Dest.addressAllowed (.v4 o) false = false ∧
    ∀ x, Dest.IsMapped (Dest.num6 x) → Dest.lowV4 (Dest.num6 x) = Dest.num4 o →
      Dest.addressAllowed (.v6 x) false = false := by
  refine ⟨?_, ?_⟩
  · rw [← Bool.not_eq_true, Dest.addressAllowed_iff, not_not]
    exact h.within
  · intro x hmapped hlow
    rw [← Bool.not_eq_true, Dest.addressAllowed_iff, not_not]
    refine .inl ⟨hmapped, ?_⟩
    rw [hlow]
    exact h.within

/-- what is read of an IPv4 literal -/
structure ReadQuad (q : JavaString) (o : Vector UInt8 4) : Prop where
  units : ∀ c ∈ q, c = dot ∨ isDigit c = true
  last : q ≠ [] ∧ ∀ c, q.getLast? = some c → c ≠ dot
  shape : isIpv4 q = true
  octets : eligibleV4 q =
    .ok (publicV4 (Dest.octet o 0).toNat (Dest.octet o 1).toNat (Dest.octet o 2).toNat)

theorem readOctets_cons {part : JavaString} {parts : List JavaString} {octets : List ℕ} (hne : part ≠ [])
    (hsmall : digitsValue part ≤ 2147483647) (h : readOctets parts = .ok (some octets)) :
    readOctets (part :: parts) = .ok (some (digitsValue part :: octets)) := by
  unfold readOctets parseInt
  rw [if_neg hne, if_neg (not_lt.2 hsmall), h]
  rfl

theorem Quad.read {q : JavaString} {o : Vector UInt8 4} (h : Quad q o) : ReadQuad q o := by
  obtain ⟨a, b, c, d, rfl, hparts, hvalues⟩ := h
  simp only [List.mem_cons, List.not_mem_nil, or_false, forall_eq_or_imp, forall_eq, List.all_eq_true] at hparts
  obtain ⟨⟨hane, ha⟩, ⟨hbne, hb⟩, ⟨hcne, hc⟩, ⟨hdne, hd⟩⟩ := hparts
  simp only [List.map_cons, List.map_nil, List.cons.injEq, and_true] at hvalues
  obtain ⟨hva, hvb, hvc, hvd⟩ := hvalues
  have hfree : ∀ part : JavaString, (∀ c ∈ part, isDigit c = true) → dot ∉ part := by
    intro part hdigits hmem
    exact absurd (hdigits _ hmem) (by decide)
  have hbyte : ∀ i, (Dest.octet o i).toNat ≤ 2147483647 := fun i => le_trans (Nat.le_of_lt (Dest.octet o i).toNat_lt) (by decide)
  have hsplit : (a ++ dot :: (b ++ dot :: (c ++ dot :: d))).splitOn dot = [a, b, c, d] := by
    rw [List.splitOn_append_cons_self_of_not_mem (hfree a ha), List.splitOn_append_cons_self_of_not_mem (hfree b hb),
      List.splitOn_append_cons_self_of_not_mem (hfree c hc), List.splitOn_eq_singleton (hfree d hd)]
  have hunits : ∀ u ∈ a ++ dot :: (b ++ dot :: (c ++ dot :: d)), u = dot ∨ isDigit u = true := by
    intro u hu
    simp only [List.mem_append, List.mem_cons] at hu
    rcases hu with hu | rfl | hu | rfl | hu | rfl | hu
    · exact .inr (ha u hu)
    · exact .inl rfl
    · exact .inr (hb u hu)
    · exact .inl rfl
    · exact .inr (hc u hu)
    · exact .inl rfl
    · exact .inr (hd u hu)
  refine { units := hunits, last := ⟨by simp, ?_⟩, shape := ?_, octets := ?_ }
  · intro u hu heq
    have hgroup : a ++ dot :: (b ++ dot :: (c ++ dot :: d)) = (a ++ dot :: (b ++ dot :: (c ++ [dot]))) ++ d := by simp
    rw [hgroup, List.getLast?_append, List.getLast?_eq_some_getLast hdne, Option.some_or] at hu
    have hmem := List.mem_of_getLast? ((List.getLast?_eq_some_getLast hdne).trans hu)
    rw [heq] at hmem
    exact hfree d hd hmem
  · have hcount : (a ++ dot :: (b ++ dot :: (c ++ dot :: d))).count dot = 3 := by
      have hlength := Split.length_splitOn dot (a ++ dot :: (b ++ dot :: (c ++ dot :: d)))
      rw [hsplit] at hlength
      exact (Nat.succ_injective hlength).symm
    unfold isIpv4
    rw [Bool.and_eq_true, List.all_eq_true, decide_eq_true_eq]
    refine ⟨?_, hcount⟩
    intro u hu
    simpa using hunits u hu
  · have hread : readOctets [a, b, c, d] = .ok (some [digitsValue a, digitsValue b, digitsValue c, digitsValue d]) :=
      readOctets_cons hane (hva ▸ hbyte 0) (readOctets_cons hbne (hvb ▸ hbyte 1) (readOctets_cons hcne (hvc ▸ hbyte 2)
        (readOctets_cons hdne (hvd ▸ hbyte 3) rfl)))
    unfold eligibleV4
    have hlength : ¬ [a, b, c, d].length ≠ 4 := not_not.2 rfl
    rw [hsplit, if_neg hlength, hread, ← hva, ← hvb, ← hvc]
    rfl

theorem ReadQuad.free {q : JavaString} {o : Vector UInt8 4} (h : ReadQuad q o) {u : UInt16} (hdot : u ≠ dot)
    (hdigit : isDigit u = false) : u ∉ q := by
  intro hu
  rcases h.units u hu with heq | heq
  · exact hdot heq
  · rw [hdigit] at heq
    exact Bool.false_ne_true heq

/-- a listed literal is refused where it is judged -/
theorem judgeHost_literal {q : JavaString} {o : Vector UInt8 4} (h : ReadQuad q o) (hlisted : Listed o) :
    judgeHost q = .ok false := by
  unfold judgeHost
  split_ifs with hempty hrefused hcolon hv4
  · rfl
  · rfl
  · exact absurd hcolon (h.free (by decide) (by decide))
  · rw [h.octets, hlisted.notPublic]
  · exact absurd h.shape hv4

theorem judgeHost_mapped {q : JavaString} {o : Vector UInt8 4} (h : ReadQuad q o) (hlisted : Listed o) :
    judgeHost (ofString "::ffff:" ++ q) = .ok false := by
  have hzone : cutZone (ofString "::ffff:" ++ q) = ofString "::ffff:" ++ q := by
    have hnone : indexOf percent (ofString "::ffff:" ++ q) = none := by
      rw [indexOf_eq_none, List.mem_append, not_or]
      exact ⟨by decide, h.free (by decide) (by decide)⟩
    unfold cutZone
    rw [hnone]
  have hdrop : (ofString "::ffff:" ++ q).drop 7 = q := rfl
  have hstart : ofString "::ffff:" <+: ofString "::ffff:" ++ q := List.prefix_append _ q
  unfold judgeHost
  split_ifs with hempty hrefused hcolon hv4
  · rfl
  · rfl
  · unfold eligibleV6
    dsimp only
    rw [hzone, hdrop, if_pos (Or.inl hstart), if_pos h.shape, h.octets, hlisted.notPublic]
    split_ifs <;> rfl
  · exact absurd (List.mem_append_left q (by decide : colon ∈ ofString "::ffff:")) hcolon
  · exact absurd (List.mem_append_left q (by decide : colon ∈ ofString "::ffff:")) hcolon

theorem isEligible_literal {s H : JavaString} {p : Option JavaString} {o : Vector UInt8 4} (hparts : Parts (trim s) H p)
    (hliteral : Literal (L.lower H) o) (hlisted : Listed o) : isEligible L (some s) = .ok false := by
  obtain ⟨q, n, hquad, hshape⟩ := hliteral
  have hread := hquad.read
  rcases isEligible_parts (L := L) hparts with hfalse | ⟨-, -, hjudge⟩
  · exact hfalse
  rw [hjudge]
  rcases hshape with hbare | hmapped
  · have hhost : trimDots (L.lower H) = q := by
      rw [hbare]
      exact trimDots_replicate n hread.last.2
    have hhead : q.head? ≠ some lbracket := fun hhead =>
      hread.free (by decide) (by decide) (List.mem_of_head? hhead)
    rw [hhost, hostPart_keyText (hread.free (by decide) (by decide)) hread.last.1 hhead]
    exact judgeHost_literal hread hlisted
  · have hhost : trimDots (L.lower H) = ofString "::ffff:" ++ q := by
      rw [hmapped]
      refine trimDots_replicate n ?_
      intro c hc
      rw [List.getLast?_append, List.getLast?_eq_some_getLast hread.last.1, Option.some_or] at hc
      exact hread.last.2 c ((List.getLast?_eq_some_getLast hread.last.1).trans hc)
    have hwhole : (ofString "::ffff:" ++ q).takeWhile (fun c => c ≠ rbracket) = ofString "::ffff:" ++ q := by
      rw [List.takeWhile_eq_self_iff]
      intro c hc
      have hclose : rbracket ∉ ofString "::ffff:" ++ q := by
        rw [List.mem_append, not_or]
        exact ⟨by decide, hread.free (by decide) (by decide)⟩
      simpa using fun heq : c = rbracket => hclose (heq ▸ hc)
    rw [hhost, hostPart_v6 (List.mem_append_left q (by decide)), hwhole]
    exact judgeHost_mapped hread hlisted

/-- **When eligibility is sound.** It is refused wherever it should be, and it throws exactly on an IPv4 literal with a part
that is no `int`. -/
theorem sound_iff (L : LowerCase) (s : JavaString) : Sound L s ↔ ¬ Overflows L s := by
  constructor
  · intro h hoverflows
    obtain ⟨e, he⟩ := isEligible_error.2 hoverflows
    obtain ⟨b, hb⟩ := h.total
    rw [hb] at he
    cases he
  · intro h
    refine
      { total := ?_
        named := ?_
        literal := fun H p o hparts hliteral hlisted => ⟨isEligible_literal hparts hliteral hlisted, hlisted.relayRefuses⟩ }
    · cases hresult : isEligible L (some s) with
      | error e => exact absurd (isEligible_error.1 ⟨e, hresult⟩) h
      | ok b => exact ⟨b, rfl⟩
    · intro domain hdomain H p hparts hunder
      obtain ⟨hne, hcolon, hhead, hrefused⟩ := hunder.refused hdomain
      rcases isEligible_parts (L := L) hparts with hfalse | ⟨-, -, hjudge⟩
      · exact hfalse
      · rw [hjudge, hostPart_keyText hcolon hne hhead]
        unfold judgeHost
        rw [if_neg hne, if_pos hrefused]

theorem octet_overflow : ¬ ∀ (L : LowerCase) (s : JavaString), Sound L s := by
  intro h
  refine (sound_iff asciiCase (ofString "99999999999.1.1.1")).1 (h _ _) ?_
  refine ⟨ofString "99999999999.1.1.1", 25565, ⟨⟨none, ?_, rfl⟩, by decide⟩, ?_⟩
  · exact parts_of_splitAddress (by decide)
  · refine .inl ⟨by decide, by decide, [], ofString "99999999999", [ofString "1", ofString "1", ofString "1"],
      by decide, List.not_mem_nil, by decide⟩

end EspectralClient.RutaProtocol
