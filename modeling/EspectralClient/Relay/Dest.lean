/-
The relay's destination policy (`services/ruta-relay/src/dest.rs`): only public unicast addresses, only game ports.
Addresses are the 32 and 128 bits that `u32::from` and `u128::from` give.
-/
import EspectralClient.Relay.IpAddr

namespace EspectralClient.Dest

/-- denied IPv4 ranges as network and prefix length -/
def v4Deny : List (BitVec 32 × ℕ) :=
  [(0x00000000, 8), (0x0a000000, 8), (0x64400000, 10), (0x7f000000, 8), (0xa9fe0000, 16), (0xac100000, 12),
    (0xc0000000, 24), (0xc0000200, 24), (0xc0586300, 24), (0xc0a80000, 16), (0xc6120000, 15), (0xc6336400, 24),
    (0xcb007100, 24), (0xe0000000, 4), (0xf0000000, 4)]

/-- denied IPv6 ranges as network and prefix length -/
def v6Deny : List (BitVec 128 × ℕ) :=
  [(0, 128), (1, 128), (0xfc00#128 <<< 112, 7), (0xfe80#128 <<< 112, 10), (0xff00#128 <<< 112, 8), (0x20010db8#128 <<< 96, 32),
    (0x0064ff9b#128 <<< 96, 96), (0x0100#128 <<< 112, 64), (0xfec0#128 <<< 112, 10), (0x0064ff9b0001#128 <<< 80, 48)]

def denyPorts : List UInt16 := [3306, 3389, 4567, 5432, 5900, 6379, 6380, 9200, 11211, 27017]

def portAllowed (port : UInt16) : Bool := 1024 ≤ port ∧ port ∉ denyPorts

/-- the two widths of `in_cidr` -/
def inCidr {w : ℕ} (ip net : BitVec w) (len : ℕ) : Bool :=
  let mask : BitVec w := if len = 0 then 0 else if len = w then .allOnes w else BitVec.allOnes w <<< (w - len)
  ip &&& mask = net &&& mask

def inCidr4 (ip net : BitVec 32) (len : ℕ) : Bool := inCidr ip net len

def inCidr6 (ip net : BitVec 128) (len : ℕ) : Bool := inCidr ip net len

def octet (o : Vector UInt8 4) (i : ℕ) : UInt8 := o.toArray.getD i 0

def u32From (o : Vector UInt8 4) : BitVec 32 :=
  (octet o 0).toBitVec ++ (octet o 1).toBitVec ++ (octet o 2).toBitVec ++ (octet o 3).toBitVec

def u128From (s : Vector UInt16 8) : BitVec 128 :=
  s[0].toBitVec ++ s[1].toBitVec ++ s[2].toBitVec ++ s[3].toBitVec ++ s[4].toBitVec ++ s[5].toBitVec ++
    s[6].toBitVec ++ s[7].toBitVec

def v4Allowed (n : BitVec 32) : Bool := v4Deny.any (fun r => inCidr4 n r.1 r.2) = false

/-- `Ipv6Addr::to_ipv4_mapped`, as the 32 bits of the IPv4 address -/
def toIpv4Mapped (s : Vector UInt16 8) : Option (BitVec 32) :=
  if s[0] = 0 ∧ s[1] = 0 ∧ s[2] = 0 ∧ s[3] = 0 ∧ s[4] = 0 ∧ s[5] = 0xffff then
    some (s[6].toBitVec ++ s[7].toBitVec)
  else none

def v6Allowed (s : Vector UInt16 8) : Bool :=
  match toIpv4Mapped s with
  | some v4 => v4Allowed v4
  | none =>
    let n := u128From s
    -- 6to4 carries an IPv4 address in bits 16..48
    if inCidr6 n (0x2002#128 <<< 112) 16 ∧ v4Allowed ((n >>> 80).truncate 32) = false then false
    else v6Deny.any (fun r => inCidr6 n r.1 r.2) = false

def isLoopback : IpAddr → Bool
  | .v4 o => octet o 0 = 127
  | .v6 s => u128From s = 1

def addressAllowed (ip : IpAddr) (allowLoopback : Bool) : Bool :=
  if allowLoopback ∧ isLoopback ip then true
  else
    match ip with
    | .v4 o => v4Allowed (u32From o)
    | .v6 s => v6Allowed s

def allowedWith (ip : IpAddr) (port : UInt16) (allowLoopback : Bool) : Bool :=
  portAllowed port ∧ addressAllowed ip allowLoopback

end EspectralClient.Dest
