/-
IP addresses and `IpAddr::from_str`, as the standard library's address parser defines it: a byte cursor, numbers with
a digit limit and a leading-zero rule, four dotted decimal groups for IPv4, and for IPv6 up to eight colon-separated
hexadecimal groups with at most one `::` and an optional dotted tail.

A parser takes the bytes that are left and answers a value with the bytes after it; `none` consumes nothing, which is
how `read_atomically` restores the cursor.
-/
import Mathlib.Tactic

namespace EspectralClient

inductive IpAddr where
  | v4 (octets : Vector UInt8 4)
  | v6 (segments : Vector UInt16 8)
deriving DecidableEq, Repr

structure SocketAddr where
  ip : IpAddr
  port : UInt16
deriving DecidableEq, Repr

namespace IpAddr

/-- the value of an ASCII digit in `radix` (10 or 16) -/
def toDigit (radix : ℕ) (b : UInt8) : Option ℕ :=
  let d :=
    if 0x30 ≤ b ∧ b ≤ 0x39 then some (b.toNat - 0x30)
    else if 0x61 ≤ b ∧ b ≤ 0x7a then some (b.toNat - 0x61 + 10)
    else if 0x41 ≤ b ∧ b ≤ 0x5a then some (b.toNat - 0x41 + 10)
    else none
  d.filter (· < radix)

def readGivenChar (c : UInt8) : List UInt8 → Option (List UInt8)
  | [] => none
  | b :: s => if b = c then some s else none

/-- the digit loop of `read_number`: the value, the number of digits, and the bytes after them -/
def readDigits (radix maxDigits : ℕ) : ℕ → ℕ → List UInt8 → Option (ℕ × ℕ × List UInt8)
  | result, count, [] => some (result, count, [])
  | result, count, b :: s =>
    match toDigit radix b with
    | none => some (result, count, b :: s)
    | some d => if maxDigits < count + 1 then none else readDigits radix maxDigits (result * radix + d) (count + 1) s

/-- a number of at most `maxDigits` digits that fits its type (`bound` is the type's maximum) -/
def readNumber (radix maxDigits : ℕ) (allowZeroPrefix : Bool) (bound : ℕ) (s : List UInt8) :
    Option (ℕ × List UInt8) := do
  let hasLeadingZero := s.head? = some 0x30
  let (result, count, rest) ← readDigits radix maxDigits 0 0 s
  if count = 0 then none
  else if allowZeroPrefix = false ∧ hasLeadingZero ∧ 1 < count then none
  else if result ≤ bound then some (result, rest)
  else none

/-- `inner`, after the separator when it is not the first group -/
def readSeparator {α : Type} (sep : UInt8) (index : ℕ) (inner : List UInt8 → Option (α × List UInt8))
    (s : List UInt8) : Option (α × List UInt8) :=
  if 0 < index then (readGivenChar sep s).bind inner else inner s

def readIpv4Addr (s : List UInt8) : Option (Vector UInt8 4 × List UInt8) := do
  let group := readNumber 10 3 false 255
  let (a, s) ← readSeparator 0x2e 0 group s
  let (b, s) ← readSeparator 0x2e 1 group s
  let (c, s) ← readSeparator 0x2e 2 group s
  let (d, s) ← readSeparator 0x2e 3 group s
  some (#v[.ofNat a, .ofNat b, .ofNat c, .ofNat d], s)

/-- up to `left` more groups of a chunk of `limit`; the flag says that a dotted IPv4 tail ended it -/
def readGroups (limit : ℕ) : ℕ → ℕ → List UInt16 → List UInt8 → List UInt16 × Bool × List UInt8
  | 0, _, groups, s => (groups, false, s)
  | left + 1, i, groups, s =>
    match if i < limit - 1 then readSeparator 0x3a i readIpv4Addr s else none with
    | some (o, s) =>
      (groups ++ [.ofNat (o[0].toNat * 256 + o[1].toNat), .ofNat (o[2].toNat * 256 + o[3].toNat)], true, s)
    | none =>
      match readSeparator 0x3a i (readNumber 16 4 true 65535) s with
      | some (g, s) => readGroups limit left (i + 1) (groups ++ [.ofNat g]) s
      | none => (groups, false, s)

def readIpv6Addr (s : List UInt8) : Option (Vector UInt16 8 × List UInt8) := do
  let (head, headIpv4, s) := readGroups 8 8 0 [] s
  if head.length = 8 then some (.ofFn fun i => head.getD i 0, s)
  else if headIpv4 then none
  else
    let s ← readGivenChar 0x3a s
    let s ← readGivenChar 0x3a s
    let limit := 8 - (head.length + 1)
    let (tail, _, s) := readGroups limit limit 0 [] s
    let all := head ++ List.replicate (8 - head.length - tail.length) 0 ++ tail
    some (.ofFn fun i => all.getD i 0, s)

def readIpAddr (s : List UInt8) : Option (IpAddr × List UInt8) :=
  ((readIpv4Addr s).map fun r => (.v4 r.1, r.2)).orElse fun _ => (readIpv6Addr s).map fun r => (.v6 r.1, r.2)

/-- `IpAddr::from_str`: an address with nothing after it -/
def fromStr (s : List UInt8) : Option IpAddr :=
  match readIpAddr s with
  | some (ip, []) => some ip
  | _ => none

/-- the empty string is no address -/
theorem fromStr_nil : fromStr [] = none := by decide

end IpAddr

end EspectralClient
