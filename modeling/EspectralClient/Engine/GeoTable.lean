/-
The `ESPGEO1` country table of `geoip.rs`: its bytes, and the lookup of an address.

A table is a list of country codes and two lists of address ranges, each with an index into the codes. Addresses are
sixteen big-endian octets, IPv4 in the mapped form. A reading function takes the bytes that are left and answers a value
with the bytes after it, or a `Fault`: beside the source's error texts that is `panic`, where the source would slice out
of range. `usize` and `u64` are 64 bits wide here, so no length of the source overflows.

- `decode_encode`: what is encoded decodes to the same table.
- `lookup_covering`: in a table whose sections are in order, a lookup answers the code of the one range that holds the
  address.
-/
import EspectralClient.Lib.Bytes
import EspectralClient.Lib.Ranges
import EspectralClient.Relay.IpAddr

namespace EspectralClient.Geoip

open EspectralClient.Lib
open EspectralClient.Lib.Bytes

/-! ## Addresses -/

/-- big-endian octets, IPv4 as `::ffff:a.b.c.d` -/
abbrev Addr := Vector UInt8 16

/-- the order of two arrays, byte by byte -/
def cmp {n : ℕ} (a b : Vector UInt8 n) : Ordering := compare a.toList b.toList

def mappedHead : List UInt8 := [0, 0, 0, 0, 0, 0, 0, 0, 0, 0, 0xff, 0xff]

/-- IPv4 octets as the IPv4-mapped IPv6 form -/
def mapped (addr : Vector UInt8 4) : Addr := toArray 16 (mappedHead ++ addr.toList)

/-- `Ipv6Addr::octets` -/
def octets (addr : Vector UInt16 8) : Addr :=
  toArray 16 (addr.toList.flatMap fun s => [.ofNat (s.toNat / 256), .ofNat s.toNat])

/-- `Ipv6Addr::to_ipv4_mapped` -/
def toIpv4Mapped (addr : Vector UInt16 8) : Option (Vector UInt8 4) :=
  let o := (octets addr).toList
  if o.take 12 = mappedHead then some (toArray 4 (o.drop 12)) else none

/-! ## Tables -/

structure GeoRange where
  start : Addr
  stop : Addr
  country : UInt16
deriving DecidableEq, Repr

structure GeoTable where
  countries : List (Vector UInt8 2)
  v4 : List GeoRange
  v6 : List GeoRange
deriving DecidableEq, Repr

/-- `ESPGEO1` and a zero byte -/
def magic : List UInt8 := [0x45, 0x53, 0x50, 0x47, 0x45, 0x4f, 0x31, 0]

def headerLen : ℕ := 24

def entryLen : ℕ := 34

/-! ## Encoding -/

def encodeRange (r : GeoRange) : List UInt8 := r.start.toList ++ r.stop.toList ++ toLe 2 r.country.toNat

def encode (table : GeoTable) : Except String (List UInt8) :=
  if 65535 < table.countries.length then .error ("too many countries (" ++ toString table.countries.length ++ ")")
  else if 2 ^ 32 ≤ table.v4.length then .error "too many IPv4 ranges"
  else if 2 ^ 32 ≤ table.v6.length then .error "too many IPv6 ranges"
  else .ok (magic ++ (toLe 4 table.v4.length ++ (toLe 4 table.v6.length ++ (toLe 4 table.countries.length ++
    (toLe 4 0 ++ (table.countries.flatMap Vector.toList ++ (table.v4.flatMap encodeRange ++
      table.v6.flatMap encodeRange)))))))

/-! ## Decoding -/

inductive Fault where
  | err (text : String)
  | panic
deriving DecidableEq, Repr

structure Header where
  v4 : ℕ
  v6 : ℕ
  countries : ℕ
deriving DecidableEq, Repr

def Header.totalLen (h : Header) : ℕ := headerLen + h.countries * 2 + (h.v4 + h.v6) * entryLen

/-- the next `n` bytes as an array -/
def take (n : ℕ) (bs : List UInt8) : Except Fault (Vector UInt8 n × List UInt8) :=
  if bs.length < n then .error .panic else .ok (toArray n (bs.take n), bs.drop n)

def word (bs : List UInt8) : Except Fault (ℕ × List UInt8) := do
  let (w, bs) ← take 4 bs
  .ok (fromLe w.toList, bs)

def parseHeader (bytes : List UInt8) : Except Fault (Header × List UInt8) :=
  if bytes.length < headerLen then
    .error (.err ("truncated header (" ++ toString bytes.length ++ " bytes)"))
  else if bytes.take 8 ≠ magic then .error (.err "bad magic (not an ESPGEO1 table)")
  else do
    let (v4, bs) ← word (bytes.drop 8)
    let (v6, bs) ← word bs
    let (countries, bs) ← word bs
    let (reserved, bs) ← word bs
    if reserved ≠ 0 then .error (.err "unsupported table version (reserved word is not 0)")
    else .ok (⟨v4, v6, countries⟩, bs)

def readCountries : ℕ → List UInt8 → Except Fault (List (Vector UInt8 2) × List UInt8)
  | 0, bs => .ok ([], bs)
  | n + 1, bs => do
    let (cc, bs) ← take 2 bs
    let (rest, bs) ← readCountries n bs
    .ok (cc :: rest, bs)

def readRange (bs : List UInt8) : Except Fault (GeoRange × List UInt8) := do
  let (start, bs) ← take 16 bs
  let (stop, bs) ← take 16 bs
  let (w, bs) ← take 2 bs
  .ok (⟨start, stop, .ofNat (fromLe w.toList)⟩, bs)

def readRanges : ℕ → List UInt8 → Except Fault (List GeoRange × List UInt8)
  | 0, bs => .ok ([], bs)
  | n + 1, bs => do
    let (r, bs) ← readRange bs
    let (rest, bs) ← readRanges n bs
    .ok (r :: rest, bs)

def decode (bytes : List UInt8) : Except Fault GeoTable := do
  let (head, bs) ← parseHeader bytes
  let expected := head.totalLen
  if bytes.length ≠ expected then
    .error (.err ("bad length: " ++ toString bytes.length ++ " bytes, header says " ++ toString expected))
  else
    let (countries, bs) ← readCountries head.countries bs
    let (v4, bs) ← readRanges head.v4 bs
    let (v6, _) ← readRanges head.v6 bs
    .ok ⟨countries, v4, v6⟩

/-! ## Lookup -/

/-- the octets of an address, and whether they are looked up in the IPv4 section -/
def sectionKey : IpAddr → Addr × Bool
  | .v4 v4 => (mapped v4, true)
  | .v6 v6 =>
    match toIpv4Mapped v6 with
    | some v4 => (mapped v4, true)
    | none => (octets v6, false)

/-- the country that covers `ip`, or `none` in a gap -/
def lookup (table : GeoTable) (ip : IpAddr) : Option String :=
  let (key, isV4) := sectionKey ip
  let ranges := if isV4 then table.v4 else table.v6
  let i := partitionPoint (fun r => cmp r.start key ≠ .gt) ranges
  if i = 0 then none
  else
    match ranges[i - 1]? with
    | none => none
    | some r =>
      if cmp key r.stop ≠ .gt then table.countries[r.country.toNat]?.map fun cc => fromUtf8Lossy cc.toList
      else none

/-! ## Round trip -/

theorem take_append {n : ℕ} (v : Vector UInt8 n) (bs : List UInt8) : take n (v.toList ++ bs) = .ok (v, bs) := by
  have hlen : v.toList.length = n := v.length_toList
  have htake : (v.toList ++ bs).take n = v.toList := by simp
  have hdrop : (v.toList ++ bs).drop n = bs := by simp
  have hlt : ¬ (v.toList ++ bs).length < n := by simp
  rw [take, if_neg hlt, htake, hdrop, toArray_toList]

theorem word_append {n : ℕ} (hn : n < 2 ^ 32) (bs : List UInt8) : word (toLe 4 n ++ bs) = .ok (n, bs) := by
  have hlist : (toArray 4 (toLe 4 n)).toList = toLe 4 n := toList_toArray (length_toLe 4 n)
  have htake := take_append (toArray 4 (toLe 4 n)) bs
  rw [hlist] at htake
  unfold word
  simp only [htake, bind, Except.bind]
  rw [hlist, fromLe_toLe (by omega)]

theorem readCountries_append (l : List (Vector UInt8 2)) (bs : List UInt8) :
    readCountries l.length (l.flatMap Vector.toList ++ bs) = .ok (l, bs) := by
  induction l with
  | nil => rfl
  | cons cc l ih =>
    rw [List.flatMap_cons, List.append_assoc, List.length_cons, readCountries]
    simp only [take_append, ih, bind, Except.bind]

theorem readRange_append (r : GeoRange) (bs : List UInt8) : readRange (encodeRange r ++ bs) = .ok (r, bs) := by
  have hlist : (toArray 2 (toLe 2 r.country.toNat)).toList = toLe 2 r.country.toNat := toList_toArray (length_toLe 2 _)
  have htake := take_append (toArray 2 (toLe 2 r.country.toNat)) bs
  rw [hlist] at htake
  have hcountry : r.country.toNat < 256 ^ 2 := r.country.toNat_lt
  unfold readRange encodeRange
  rw [List.append_assoc, List.append_assoc]
  simp only [take_append, htake, bind, Except.bind]
  rw [hlist, fromLe_toLe hcountry, UInt16.ofNat_toNat]

theorem readRanges_append (l : List GeoRange) (bs : List UInt8) :
    readRanges l.length (l.flatMap encodeRange ++ bs) = .ok (l, bs) := by
  induction l with
  | nil => rfl
  | cons r l ih =>
    rw [List.flatMap_cons, List.append_assoc, List.length_cons, readRanges]
    simp only [readRange_append, ih, bind, Except.bind]

theorem parseHeader_append {v4 v6 countries : ℕ} (hv4 : v4 < 2 ^ 32) (hv6 : v6 < 2 ^ 32) (hc : countries < 2 ^ 32)
    (bs : List UInt8) :
    parseHeader (magic ++ (toLe 4 v4 ++ (toLe 4 v6 ++ (toLe 4 countries ++ (toLe 4 0 ++ bs))))) =
      .ok (⟨v4, v6, countries⟩, bs) := by
  have hmagic : magic.length = 8 := rfl
  have hlen : ¬ (magic ++ (toLe 4 v4 ++ (toLe 4 v6 ++ (toLe 4 countries ++ (toLe 4 0 ++ bs))))).length < headerLen := by
    simp only [List.length_append, length_toLe, hmagic, headerLen]
    omega
  unfold parseHeader
  rw [if_neg hlen, List.take_left' hmagic, if_neg (not_not.2 rfl), List.drop_left' hmagic]
  simp only [word_append hv4, word_append hv6, word_append hc, word_append (Nat.two_pow_pos 32), bind, Except.bind]
  rfl

theorem length_flatMap_const {α : Type*} {f : α → List UInt8} {k : ℕ} (hf : ∀ a, (f a).length = k) (l : List α) :
    (l.flatMap f).length = l.length * k := by
  induction l with
  | nil => simp
  | cons a l ih => rw [List.flatMap_cons, List.length_append, hf, ih, List.length_cons]; ring

theorem length_encodeRange (r : GeoRange) : (encodeRange r).length = entryLen := by
  simp [encodeRange, entryLen]

/-- the bytes of a table are as many as its header says -/
theorem encode_length {t : GeoTable} {bytes : List UInt8} (h : encode t = .ok bytes) :
    bytes.length = (Header.mk t.v4.length t.v6.length t.countries.length).totalLen := by
  unfold encode at h
  split_ifs at h
  cases h
  simp only [List.length_append, length_toLe, length_flatMap_const (fun v : Vector UInt8 2 => v.length_toList),
    length_flatMap_const length_encodeRange, Header.totalLen]
  have hmagic : magic.length = 8 := rfl
  have hhead : headerLen = 24 := rfl
  rw [hmagic, hhead]
  ring

theorem encode_ok {t : GeoTable} (hc : t.countries.length ≤ 65535) (h4 : t.v4.length < 2 ^ 32)
    (h6 : t.v6.length < 2 ^ 32) : ∃ bytes, encode t = .ok bytes := by
  unfold encode
  rw [if_neg (not_lt.2 hc), if_neg (not_le.2 h4), if_neg (not_le.2 h6)]
  exact ⟨_, rfl⟩

/-- **The table round trip.** What is encoded decodes to the same table. -/
theorem decode_encode {t : GeoTable} {bytes : List UInt8} (h : encode t = .ok bytes) : decode bytes = .ok t := by
  have hlen := encode_length h
  unfold encode at h
  split_ifs at h with hc h4 h6
  cases h
  unfold decode
  rw [hlen, parseHeader_append (by omega) (by omega) (by omega)]
  simp only [bind, Except.bind]
  rw [if_neg (not_not.2 rfl), readCountries_append]
  dsimp only
  rw [readRanges_append]
  dsimp only
  have hv6 := readRanges_append t.v6 []
  rw [List.append_nil] at hv6
  rw [hv6]

/-! ## The order of addresses -/

/-- the number an array spells -/
def num {n : ℕ} (a : Vector UInt8 n) : ℕ := fromBe a.toList

variable {n : ℕ} {a b : Vector UInt8 n}

theorem cmp_eq_compare : cmp a b = compare (num a) (num b) :=
  compare_fromBe (a.length_toList.trans b.length_toList.symm)

theorem num_inj : num a = num b ↔ a = b :=
  (fromBe_inj (a.length_toList.trans b.length_toList.symm)).trans Vector.toList_inj

theorem cmp_le : cmp a b ≠ .gt ↔ num a ≤ num b := by
  rw [cmp_eq_compare, compare_le_iff_le]

theorem cmp_lt : cmp a b = .lt ↔ num a < num b := by
  rw [cmp_eq_compare, compare_lt_iff_lt]

theorem cmp_eq : cmp a b = .eq ↔ a = b := by
  rw [cmp_eq_compare, compare_eq_iff_eq, num_inj]

theorem num_lt (a : Addr) : num a < 2 ^ 128 := by
  have h := fromBe_lt a.toList
  rw [a.length_toList] at h
  exact lt_of_lt_of_le h (by norm_num)

namespace GeoRange

/-- the number of the first address -/
def lo (r : GeoRange) : ℕ := num r.start

/-- the number of the last address -/
def hi (r : GeoRange) : ℕ := num r.stop

end GeoRange

/-! ## What a lookup finds -/

/-- the section an address is looked up in -/
def GeoTable.ranges (t : GeoTable) (isV4 : Bool) : List GeoRange := if isV4 then t.v4 else t.v6

/-- the code a range stands for, as a text -/
def GeoTable.code (t : GeoTable) (r : GeoRange) : Option String :=
  t.countries[r.country.toNat]?.map fun cc => fromUtf8Lossy cc.toList

/-- **The lookup finds the range.** In a section whose ranges stand one after another, the country answered is that of
the range that holds the address. -/
theorem lookup_covering {t : GeoTable} {ip : IpAddr} {code : String}
    (hproper : Ranges.Proper GeoRange.lo GeoRange.hi (t.ranges (sectionKey ip).2))
    (hasc : Ranges.Ascending GeoRange.lo GeoRange.hi (t.ranges (sectionKey ip).2)) :
    lookup t ip = some code ↔
      ∃ r ∈ t.ranges (sectionKey ip).2, Ranges.Has GeoRange.lo GeoRange.hi r (num (sectionKey ip).1) ∧
        t.code r = some code := by
  generalize hkey : sectionKey ip = k at *
  obtain ⟨key, isV4⟩ := k
  have hfind := fun r => Ranges.covering_iff (p := fun r : GeoRange => decide (cmp r.start key ≠ .gt)) (x := num key)
    hproper hasc (fun r => by rw [decide_eq_true_iff]; exact cmp_le) r
  unfold lookup
  rw [hkey]
  change (if partitionPoint (fun r : GeoRange => decide (cmp r.start key ≠ .gt)) (t.ranges isV4) = 0 then none else
    match (t.ranges isV4)[partitionPoint (fun r : GeoRange => decide (cmp r.start key ≠ .gt)) (t.ranges isV4) - 1]? with
    | none => none
    | some r => if cmp key r.stop ≠ .gt then t.code r else none) = some code ↔ _
  constructor
  · intro h
    split_ifs at h with hzero
    split at h
    · cases h
    · rename_i r hget
      split_ifs at h with hle
      obtain ⟨hmem, hhas⟩ := (hfind r).1 ⟨hzero, hget, cmp_le.1 hle⟩
      exact ⟨r, hmem, hhas, h⟩
  · rintro ⟨r, hmem, hhas, hcode⟩
    obtain ⟨hzero, hget, hle⟩ := (hfind r).2 ⟨hmem, hhas⟩
    rw [if_neg hzero, hget]
    dsimp only
    rw [if_pos (cmp_le.2 hle), hcode]

end EspectralClient.Geoip
