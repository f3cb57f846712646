/-
The relay's destination policy as intervals of addresses.

- `v4Ranges`, `v6Ranges`: the documented ranges, each by its first and last address.
- `Refused`: an address in one of them, an IPv4-mapped address judged by the IPv4 address in it, and a 6to4 address also
  by the IPv4 address in its bits 16 to 48.
- `v4Allowed_iff`, `v6Allowed_iff`: the masks of the code are these intervals.
- `destination_policy`: the policy, what it says of addresses that embed another, and what the loopback seam changes.
-/
import EspectralClient.Lib.Cidr
import EspectralClient.Relay.Dest

namespace EspectralClient.Dest

open EspectralClient.Lib

/-! ## The documented ranges -/

/-- first and last address of each denied IPv4 range -/
def v4Ranges : List (ℕ × ℕ) :=
  [(0x00000000, 0x00ffffff), (0x0a000000, 0x0affffff), (0x64400000, 0x647fffff), (0x7f000000, 0x7fffffff),
    (0xa9fe0000, 0xa9feffff), (0xac100000, 0xac1fffff), (0xc0000000, 0xc00000ff), (0xc0000200, 0xc00002ff),
    (0xc0586300, 0xc05863ff), (0xc0a80000, 0xc0a8ffff), (0xc6120000, 0xc613ffff), (0xc6336400, 0xc63364ff),
    (0xcb007100, 0xcb0071ff), (0xe0000000, 0xefffffff), (0xf0000000, 0xffffffff)]

/-- first and last address of each denied IPv6 range -/
def v6Ranges : List (ℕ × ℕ) :=
  [(0, 0), (1, 1),
    (0xfc000000000000000000000000000000, 0xfdffffffffffffffffffffffffffffff),
    (0xfe800000000000000000000000000000, 0xfebfffffffffffffffffffffffffffff),
    (0xff000000000000000000000000000000, 0xffffffffffffffffffffffffffffffff),
    (0x20010db8000000000000000000000000, 0x20010db8ffffffffffffffffffffffff),
    (0x0064ff9b000000000000000000000000, 0x0064ff9b0000000000000000ffffffff),
    (0x01000000000000000000000000000000, 0x0100000000000000ffffffffffffffff),
    (0xfec00000000000000000000000000000, 0xfeffffffffffffffffffffffffffffff),
    (0x0064ff9b000100000000000000000000, 0x0064ff9b0001ffffffffffffffffffff)]

def Within (ranges : List (ℕ × ℕ)) (n : ℕ) : Prop := ∃ r ∈ ranges, r.1 ≤ n ∧ n ≤ r.2

/-- the integer of an IPv4 address -/
def num4 (o : Vector UInt8 4) : ℕ :=
  (octet o 0).toNat * 2 ^ 24 + (octet o 1).toNat * 2 ^ 16 + (octet o 2).toNat * 2 ^ 8 + (octet o 3).toNat

def segment (s : Vector UInt16 8) (i : ℕ) : UInt16 := s.toList.getD i 0

/-- the integer of an IPv6 address -/
def num6 (s : Vector UInt16 8) : ℕ :=
  (segment s 0).toNat * 2 ^ 112 + (segment s 1).toNat * 2 ^ 96 + (segment s 2).toNat * 2 ^ 80 +
    (segment s 3).toNat * 2 ^ 64 + (segment s 4).toNat * 2 ^ 48 + (segment s 5).toNat * 2 ^ 32 +
    (segment s 6).toNat * 2 ^ 16 + (segment s 7).toNat

/-- `::ffff:a.b.c.d` -/
def IsMapped (n : ℕ) : Prop := n / 2 ^ 32 = 0xffff

/-- `2002:ab:cd::/48` -/
def Is6to4 (n : ℕ) : Prop := n / 2 ^ 112 = 0x2002

/-- `64:ff9b::/96` -/
def IsNat64 (n : ℕ) : Prop := n / 2 ^ 32 = 0x64ff9b * 2 ^ 64

/-- the IPv4 address in the last 32 bits -/
def lowV4 (n : ℕ) : ℕ := n % 2 ^ 32

/-- the IPv4 address in bits 16 to 48 -/
def sixToFourV4 (n : ℕ) : ℕ := n / 2 ^ 80 % 2 ^ 32

/-- what the policy refuses -/
def Refused : IpAddr → Prop
  | .v4 o => Within v4Ranges (num4 o)
  | .v6 s =>
    (IsMapped (num6 s) ∧ Within v4Ranges (lowV4 (num6 s))) ∨
      (¬ IsMapped (num6 s) ∧
        (Within v6Ranges (num6 s) ∨ (Is6to4 (num6 s) ∧ Within v4Ranges (sixToFourV4 (num6 s)))))

/-! ## Masks and intervals -/

theorem inCidr_iff {w len : ℕ} (x net : BitVec w) :
    inCidr x net len = true ↔ x &&& Cidr.prefixMask w len = net &&& Cidr.prefixMask w len := by
  have hmask : (if len = 0 then 0 else if len = w then .allOnes w else BitVec.allOnes w <<< (w - len) : BitVec w) =
      Cidr.prefixMask w len := by
    split_ifs with hzero hfull
    · rw [hzero, Cidr.prefixMask_zero]
      rfl
    · rw [hfull, Cidr.prefixMask_full]
    · rfl
  unfold inCidr
  rw [hmask]
  exact decide_eq_true_iff

/-- a table of networks and a table of intervals that say the same, line by line -/
theorem any_inCidr_iff {w : ℕ} (table : List (BitVec w × ℕ)) (x : BitVec w) :
    table.any (fun r => inCidr x r.1 r.2) = true ↔
      Within (table.map fun r => (r.1.toNat / 2 ^ (w - r.2) * 2 ^ (w - r.2),
        r.1.toNat / 2 ^ (w - r.2) * 2 ^ (w - r.2) + (2 ^ (w - r.2) - 1))) x.toNat := by
  simp only [List.any_eq_true, Within, List.mem_map, exists_exists_and_eq_and, inCidr_iff, Cidr.mem_block_iff]

theorem v4Deny_ranges : v4Deny.map (fun r => (r.1.toNat / 2 ^ (32 - r.2) * 2 ^ (32 - r.2),
    r.1.toNat / 2 ^ (32 - r.2) * 2 ^ (32 - r.2) + (2 ^ (32 - r.2) - 1))) = v4Ranges := by
  decide

theorem v6Deny_ranges : v6Deny.map (fun r => (r.1.toNat / 2 ^ (128 - r.2) * 2 ^ (128 - r.2),
    r.1.toNat / 2 ^ (128 - r.2) * 2 ^ (128 - r.2) + (2 ^ (128 - r.2) - 1))) = v6Ranges := by
  decide

theorem v4Allowed_iff (n : BitVec 32) : v4Allowed n = true ↔ ¬ Within v4Ranges n.toNat := by
  rw [← v4Deny_ranges, ← any_inCidr_iff]
  unfold v4Allowed inCidr4
  rw [decide_eq_true_iff, Bool.not_eq_true]

/-! ## The integers of addresses -/

theorem segment_eq (s : Vector UInt16 8) (i : ℕ) (hi : i < 8) : segment s i = s[i] := by
  simp [segment, hi]

theorem toNat_u32From (o : Vector UInt8 4) : (u32From o).toNat = num4 o := by
  unfold u32From num4
  simp only [Cidr.toNat_append_add, UInt8.toNat_toBitVec]
  ring

theorem toNat_u128From (s : Vector UInt16 8) : (u128From s).toNat = num6 s := by
  unfold u128From num6
  rw [segment_eq s 0 (by decide), segment_eq s 1 (by decide), segment_eq s 2 (by decide), segment_eq s 3 (by decide),
    segment_eq s 4 (by decide), segment_eq s 5 (by decide), segment_eq s 6 (by decide), segment_eq s 7 (by decide)]
  simp only [Cidr.toNat_append_add, UInt16.toNat_toBitVec]
  ring

/-- the segments of an IPv4-mapped address, and the IPv4 address in it -/
theorem toIpv4Mapped_eq (s : Vector UInt16 8) :
    (IsMapped (num6 s) → ∃ v4, toIpv4Mapped s = some v4 ∧ v4.toNat = lowV4 (num6 s)) ∧
      (¬ IsMapped (num6 s) → toIpv4Mapped s = none) := by
  have h0 := s[0].toNat_lt
  have h1 := s[1].toNat_lt
  have h2 := s[2].toNat_lt
  have h3 := s[3].toNat_lt
  have h4 := s[4].toNat_lt
  have h5 := s[5].toNat_lt
  have h6 := s[6].toNat_lt
  have h7 := s[7].toNat_lt
  have hnum : num6 s = s[0].toNat * 2 ^ 112 + s[1].toNat * 2 ^ 96 + s[2].toNat * 2 ^ 80 + s[3].toNat * 2 ^ 64 +
      s[4].toNat * 2 ^ 48 + s[5].toNat * 2 ^ 32 + s[6].toNat * 2 ^ 16 + s[7].toNat := by
    rw [num6, segment_eq s 0 (by decide), segment_eq s 1 (by decide), segment_eq s 2 (by decide),
      segment_eq s 3 (by decide), segment_eq s 4 (by decide), segment_eq s 5 (by decide), segment_eq s 6 (by decide),
      segment_eq s 7 (by decide)]
  have hsegments : (s[0] = 0 ∧ s[1] = 0 ∧ s[2] = 0 ∧ s[3] = 0 ∧ s[4] = 0 ∧ s[5] = 0xffff) ↔ IsMapped (num6 s) := by
    simp only [← UInt16.toNat_inj, UInt16.toNat_ofNat, IsMapped]
    omega
  unfold toIpv4Mapped
  constructor
  · intro hmapped
    rw [if_pos (hsegments.2 hmapped)]
    refine ⟨_, rfl, ?_⟩
    rw [Cidr.toNat_append_add, UInt16.toNat_toBitVec, UInt16.toNat_toBitVec, lowV4]
    omega
  · intro hmapped
    rw [if_neg (fun h => hmapped (hsegments.1 h))]

theorem is6to4_iff (n : BitVec 128) : inCidr6 n (0x2002#128 <<< 112) 16 = true ↔ Is6to4 n.toNat := by
  have hnet : (0x2002#128 <<< 112).toNat / 2 ^ (128 - 16) = 0x2002 := by decide
  unfold inCidr6 Is6to4
  rw [inCidr_iff, Cidr.masked_eq_iff, hnet]

theorem toNat_embedded (n : BitVec 128) : ((n >>> 80).truncate 32).toNat = sixToFourV4 n.toNat := by
  rw [BitVec.truncate_eq_setWidth, BitVec.toNat_setWidth, BitVec.toNat_ushiftRight, Nat.shiftRight_eq_div_pow,
    sixToFourV4]

theorem v6Allowed_iff (s : Vector UInt16 8) : v6Allowed s = true ↔ ¬ Refused (.v6 s) := by
  obtain ⟨hmappedEq, hplainEq⟩ := toIpv4Mapped_eq s
  unfold v6Allowed
  by_cases hmapped : IsMapped (num6 s)
  · obtain ⟨v4, hv4, hlow⟩ := hmappedEq hmapped
    rw [hv4]
    dsimp only
    rw [v4Allowed_iff, hlow]
    simp [Refused, hmapped]
  · rw [hplainEq hmapped]
    have htable : v6Deny.any (fun r => inCidr6 (u128From s) r.1 r.2) = true ↔ Within v6Ranges (num6 s) := by
      rw [← toNat_u128From, ← v6Deny_ranges, ← any_inCidr_iff]
      rfl
    have hembedded : v4Allowed (((u128From s) >>> 80).truncate 32) = false ↔
        Within v4Ranges (sixToFourV4 (num6 s)) := by
      rw [← Bool.not_eq_true, v4Allowed_iff, toNat_embedded, toNat_u128From, not_not]
    have hsixto4 : inCidr6 (u128From s) (0x2002#128 <<< 112) 16 = true ↔ Is6to4 (num6 s) := by
      rw [is6to4_iff, toNat_u128From]
    dsimp only
    split_ifs with hsix
    · have hrefused : Refused (.v6 s) := .inr ⟨hmapped, .inr ⟨hsixto4.1 hsix.1, hembedded.1 hsix.2⟩⟩
      exact iff_of_false not_false (not_not.2 hrefused)
    · rw [hsixto4, hembedded] at hsix
      rw [decide_eq_true_iff, ← Bool.not_eq_true, htable]
      simp [Refused, hmapped, hsix]

/-! ## The policy -/

/-- `127.0.0.0/8` and `::1` -/
def Loopback : IpAddr → Prop
  | .v4 o => num4 o / 2 ^ 24 = 127
  | .v6 s => num6 s = 1

theorem isLoopback_iff (ip : IpAddr) : isLoopback ip = true ↔ Loopback ip := by
  cases ip with
  | v4 o =>
    have h1 := (octet o 1).toNat_lt
    have h2 := (octet o 2).toNat_lt
    have h3 := (octet o 3).toNat_lt
    simp only [isLoopback, Loopback, decide_eq_true_eq, ← UInt8.toNat_inj, UInt8.toNat_ofNat, num4]
    omega
  | v6 s =>
    simp only [isLoopback, Loopback, decide_eq_true_eq, ← BitVec.toNat_inj, toNat_u128From]
    rfl

theorem addressAllowed_iff (ip : IpAddr) : addressAllowed ip false = true ↔ ¬ Refused ip := by
  unfold addressAllowed
  cases ip with
  | v4 o =>
    simp only [Bool.false_eq_true, false_and, if_false]
    rw [v4Allowed_iff, toNat_u32From]
    rfl
  | v6 s =>
    simp only [Bool.false_eq_true, false_and, if_false]
    exact v6Allowed_iff s

theorem portAllowed_iff (port : UInt16) : portAllowed port = true ↔ 1024 ≤ port.toNat ∧ port ∉ denyPorts := by
  unfold portAllowed
  rw [decide_eq_true_iff, UInt16.le_iff_toNat_le]
  rfl

theorem allowedWith_iff (ip : IpAddr) (port : UInt16) :
    allowedWith ip port false = true ↔ 1024 ≤ port.toNat ∧ port ∉ denyPorts ∧ ¬ Refused ip := by
  unfold allowedWith
  rw [decide_eq_true_iff, portAllowed_iff, addressAllowed_iff, and_assoc]

/-- every address of the NAT64 prefix is in a range of its own -/
theorem nat64_refused {n : ℕ} (h : IsNat64 n) : Within v6Ranges n := by
  refine ⟨(0x0064ff9b000000000000000000000000, 0x0064ff9b0000000000000000ffffffff), by decide, ?_, ?_⟩
  · unfold IsNat64 at h
    dsimp only
    omega
  · unfold IsNat64 at h
    dsimp only
    omega

/-- **The destination policy.** An address and a port are allowed exactly when the port is a game port and the address
is in none of the ranges; an IPv4-mapped address gets the verdict of the IPv4 address in it; no address that embeds a
refused IPv4 address is allowed; and the loopback seam changes the verdict of loopback addresses alone, on ports that are
allowed anyway. -/
theorem destination_policy (ip : IpAddr) (port : UInt16) :
    (allowedWith ip port false = true ↔ 1024 ≤ port.toNat ∧ port ∉ denyPorts ∧ ¬ Refused ip) ∧
      (∀ s o, ip = .v6 s → IsMapped (num6 s) → num4 o = lowV4 (num6 s) →
        allowedWith ip port false = allowedWith (.v4 o) port false) ∧
      (∀ s, ip = .v6 s → allowedWith ip port false = true →
        (IsMapped (num6 s) ∨ IsNat64 (num6 s) → ¬ Within v4Ranges (lowV4 (num6 s))) ∧
          (Is6to4 (num6 s) → ¬ Within v4Ranges (sixToFourV4 (num6 s)))) ∧
      (allowedWith ip port true ≠ allowedWith ip port false →
        Loopback ip ∧ 1024 ≤ port.toNat ∧ port ∉ denyPorts) := by
  refine ⟨allowedWith_iff ip port, ?_, ?_, ?_⟩
  · rintro s o rfl hmapped hlow
    have hsame : Refused (.v6 s) ↔ Refused (.v4 o) := by
      simp [Refused, hmapped, hlow]
    rw [Bool.eq_iff_iff, allowedWith_iff, allowedWith_iff, hsame]
  · rintro s rfl hallowed
    have hfree := ((allowedWith_iff (.v6 s) port).1 hallowed).2.2
    refine ⟨?_, ?_⟩
    · rintro (hmapped | hnat64) hin
      · exact hfree (.inl ⟨hmapped, hin⟩)
      · have hplain : ¬ IsMapped (num6 s) := by
          unfold IsNat64 at hnat64
          unfold IsMapped
          omega
        exact hfree (.inr ⟨hplain, .inl (nat64_refused hnat64)⟩)
    · intro hsix hin
      have hplain : ¬ IsMapped (num6 s) := by
        unfold Is6to4 at hsix
        unfold IsMapped
        omega
      exact hfree (.inr ⟨hplain, .inr ⟨hsix, hin⟩⟩)
  · intro hdiffer
    have hloopback : isLoopback ip = true := by
      by_contra hno
      refine hdiffer ?_
      unfold allowedWith addressAllowed
      simp [hno]
    have hport : portAllowed port = true := by
      by_contra hno
      refine hdiffer ?_
      unfold allowedWith
      simp [hno]
    exact ⟨(isLoopback_iff ip).1 hloopback, (portAllowed_iff port).1 hport⟩

end EspectralClient.Dest
