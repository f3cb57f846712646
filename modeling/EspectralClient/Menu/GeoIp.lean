/-
The mod's reader of the country table (`GeoIp.java`): it checks the header of the mapped file and binary-searches the
bytes in place.

A reading function answers a value or a `Fault`: a read outside the buffer, an `int` expression past 32 bits, or a loop
that goes on after its rounds, of which it has one for each entry. Numbers read are not negative, so an `int` is a
natural below 2^31 here; `long` expressions stay far below their own bound.

- `parse_lookup_total`: for every byte string, what the reader does after its header check is no fault.
- `agrees_with_engine`: on an encoded table the reader answers what the engine's lookup answers.
-/
import EspectralClient.Engine.GeoTable

namespace EspectralClient.Menu.GeoIp

open EspectralClient.Lib
open EspectralClient.Lib.Bytes

/-! ## Reading -/

inductive Fault where
  | outOfBounds
  | overflow
  | outOfFuel
deriving DecidableEq, Repr

/-- the value of an `int` expression -/
def int (n : ℕ) : Except Fault ℕ := if n < 2 ^ 31 then .ok n else .error .overflow

/-- `ByteBuffer.get(int)` -/
def get (buffer : List UInt8) (i : ℕ) : Except Fault UInt8 :=
  match buffer[i]? with
  | some b => .ok b
  | none => .error .outOfBounds

/-- the bytes of a little-endian number of `n` bytes -/
def getNum (n : ℕ) (buffer : List UInt8) (i : ℕ) : Except Fault ℕ :=
  if i + n ≤ buffer.length then .ok (fromLe ((buffer.drop i).take n)) else .error .outOfBounds

/-! ## The table -/

structure Table where
  buffer : List UInt8
  v4Count : ℕ
  v6Count : ℕ
  countryCount : ℕ
  v4Base : ℕ
  v6Base : ℕ
deriving DecidableEq, Repr

/-- the constructor -/
def Table.new (buffer : List UInt8) (v4Count v6Count countryCount : ℕ) : Except Fault Table := do
  let codes ← int (countryCount * 2)
  let v4Base ← int (Geoip.headerLen + codes)
  let v4Len ← int (v4Count * Geoip.entryLen)
  let v6Base ← int (v4Base + v4Len)
  .ok ⟨buffer, v4Count, v6Count, countryCount, v4Base, v6Base⟩

/-- the magic bytes from index `i` on -/
def hasMagic (buffer : List UInt8) : ℕ → List UInt8 → Except Fault Bool
  | _, [] => .ok true
  | i, m :: magic => do
    let b ← get buffer i
    if b ≠ m then .ok false else hasMagic buffer (i + 1) magic

/-- a table, or `none` for a file that is not one -/
def parse (buffer : List UInt8) : Except Fault (Option Table) :=
  if buffer.length < Geoip.headerLen then .ok none
  else do
    let magic ← hasMagic buffer 0 Geoip.magic
    if magic = false then .ok none
    else
      let v4 ← getNum 4 buffer 8
      let v6 ← getNum 4 buffer 12
      let countries ← getNum 4 buffer 16
      let reserved ← getNum 4 buffer 20
      if reserved ≠ 0 ∨ 0xFFFF < countries ∨ 0xFFFFFF < v4 ∨ 0xFFFFFF < v6 then .ok none
      else
        let expected := Geoip.headerLen + countries * 2 + (v4 + v6) * Geoip.entryLen
        if expected ≠ buffer.length then .ok none
        else do
          let table ← Table.new buffer v4 v6 countries
          .ok (some table)

/-- the table's bytes at `at` + `i` compared with what is left of the key -/
def compareFrom (buffer : List UInt8) (start : ℕ) : ℕ → List UInt8 → Except Fault Ordering
  | _, [] => .ok .eq
  | i, b :: key => do
    let pos ← int (start + i)
    let a ← get buffer pos
    if a ≠ b then .ok (if a < b then .lt else .gt) else compareFrom buffer start (i + 1) key

/-- the loop of the binary search, which moves past an entry that starts no later than the key -/
def search (buffer : List UInt8) (base : ℕ) (key : List UInt8) : ℕ → ℕ → ℕ → Except Fault ℕ
  | 0, lo, hi => if lo < hi then .error .outOfFuel else .ok lo
  | fuel + 1, lo, hi =>
    if lo < hi then do
      let sum ← int (lo + hi)
      let mid := sum / 2
      let off ← int (mid * Geoip.entryLen)
      let start ← int (base + off)
      let ord ← compareFrom buffer start 0 key
      if ord ≠ .gt then do
        let lo ← int (mid + 1)
        search buffer base key fuel lo hi
      else search buffer base key fuel lo mid
    else .ok lo

/-- the code that starts at `at`, when it is two letters -/
def codeAt (buffer : List UInt8) (start : ℕ) : Except Fault (Option String) := do
  let hi ← get buffer start
  let next ← int (start + 1)
  let lo ← get buffer next
  if hi < 0x41 ∨ 0x5a < hi ∨ lo < 0x41 ∨ 0x5a < lo then .ok none
  else .ok (some (.ofList [.ofNat hi.toNat, .ofNat lo.toNat]))

/-- the country of an entry that ends no earlier than the key -/
def countryOf (t : Table) (entry : ℕ) (key : List UInt8) : Except Fault (Option String) := do
  let stop ← int (entry + 16)
  let ord ← compareFrom t.buffer stop 0 key
  if ord = .lt then .ok none
  else do
    let pos ← int (entry + 32)
    let country ← getNum 2 t.buffer pos
    if t.countryCount ≤ country then .ok none
    else do
      let off ← int (country * 2)
      let start ← int (Geoip.headerLen + off)
      codeAt t.buffer start

def Table.lookup (t : Table) (key : Geoip.Addr) (useV4 : Bool) : Except Fault (Option String) := do
  let base := if useV4 then t.v4Base else t.v6Base
  let count := if useV4 then t.v4Count else t.v6Count
  let lo ← search t.buffer base key.toList count 0 count
  if lo = 0 then .ok none
  else do
    let off ← int ((lo - 1) * Geoip.entryLen)
    let entry ← int (base + off)
    countryOf t entry key.toList

/-! ## Addresses -/

/-- an address by its bytes -/
inductive InetAddress where
  | v4 (raw : Vector UInt8 4)
  | v6 (raw : Vector UInt8 16)
deriving DecidableEq, Repr

namespace InetAddress

def bytes : InetAddress → List UInt8
  | v4 raw => raw.toList
  | v6 raw => raw.toList

def isAnyLocalAddress (a : InetAddress) : Bool := a.bytes.all (· = 0)

def isLoopbackAddress : InetAddress → Bool
  | v4 raw => raw.get 0 = 127
  | v6 raw => raw.toList = List.replicate 15 0 ++ [1]

def isLinkLocalAddress : InetAddress → Bool
  | v4 raw => raw.get 0 = 169 ∧ raw.get 1 = 254
  | v6 raw => raw.get 0 = 0xfe ∧ raw.get 1 &&& 0xc0 = 0x80

def isSiteLocalAddress : InetAddress → Bool
  | v4 raw => raw.get 0 = 10 ∨ raw.get 0 = 172 ∧ raw.get 1 &&& 0xf0 = 16 ∨ raw.get 0 = 192 ∧ raw.get 1 = 168
  | v6 raw => raw.get 0 = 0xfe ∧ raw.get 1 &&& 0xc0 = 0xc0

def isMulticastAddress : InetAddress → Bool
  | v4 raw => raw.get 0 &&& 0xf0 = 0xe0
  | v6 raw => raw.get 0 = 0xff

end InetAddress

def usable (a : InetAddress) : Bool :=
  if a.isAnyLocalAddress || a.isLoopbackAddress || a.isLinkLocalAddress || a.isSiteLocalAddress ||
    a.isMulticastAddress then false
  else
    match a with
    | .v4 raw => raw.get 0 ≠ 0 ∧ raw.get 0 ≠ 0xff
    | .v6 raw => raw.get 0 &&& 0xfe ≠ 0xfc

/-- ten zero bytes and two `ff` -/
def isV4Mapped (raw : Vector UInt8 16) : Bool :=
  (raw.toList.take 10).all (· = 0) ∧ raw[10] = 0xff ∧ raw[11] = 0xff

/-- the code for an address; `none` for one that reaches no public server, or while there is no table -/
def country (table : Option Table) (a : InetAddress) : Except Fault (Option String) :=
  if usable a = false then .ok none
  else
    match table with
    | none => .ok none
    | some t =>
      match a with
      | .v4 raw => t.lookup (Geoip.mapped raw) true
      | .v6 raw => t.lookup raw (isV4Mapped raw)

/-! ## No fault -/

/-- `n` bytes from index `i` on -/
def slice (buffer : List UInt8) (i n : ℕ) : List UInt8 := (buffer.drop i).take n

/-- what the constructor leaves behind a checked header -/
structure Valid (t : Table) : Prop where
  v4Base : t.v4Base = Geoip.headerLen + t.countryCount * 2
  v6Base : t.v6Base = t.v4Base + t.v4Count * Geoip.entryLen
  length : t.buffer.length = t.v6Base + t.v6Count * Geoip.entryLen
  small : t.buffer.length < 2 ^ 31

theorem int_ok {n : ℕ} (h : n < 2 ^ 31) : int n = .ok n := if_pos h

theorem get_ok {buffer : List UInt8} {i : ℕ} (h : i < buffer.length) : get buffer i = .ok buffer[i] := by
  rw [get, List.getElem?_eq_getElem h]

theorem get_getD {buffer : List UInt8} {i : ℕ} (h : i < buffer.length) : get buffer i = .ok (buffer.getD i 0) := by
  rw [get_ok h, List.getD_eq_getElem?_getD, List.getElem?_eq_getElem h, Option.getD_some]

theorem getNum_ok {n : ℕ} {buffer : List UInt8} {i : ℕ} (h : i + n ≤ buffer.length) :
    getNum n buffer i = .ok (fromLe (slice buffer i n)) := if_pos h

theorem hasMagic_ok {buffer magic : List UInt8} {i : ℕ} (h : i + magic.length ≤ buffer.length) :
    hasMagic buffer i magic = .ok (decide (slice buffer i magic.length = magic)) := by
  induction magic generalizing i with
  | nil => rfl
  | cons m magic ih =>
    rw [List.length_cons] at h
    have hget := get_ok (show i < buffer.length by omega)
    have hslice : slice buffer i (magic.length + 1) = buffer[i] :: slice buffer (i + 1) magic.length := by
      rw [slice, List.drop_eq_getElem_cons (by omega), List.take_succ_cons, slice]
    rw [hasMagic, hget, List.length_cons, hslice]
    simp only [bind, Except.bind]
    by_cases hm : buffer[i] = m
    · rw [if_neg (not_not.2 hm), ih (by omega)]
      simp [hm]
    · rw [if_pos hm]
      simp [hm]

/-- **The header check** ends without a fault, in no table or in one whose sections fill the buffer. -/
theorem parse_valid (buffer : List UInt8) :
    ∃ r, parse buffer = .ok r ∧ ∀ t, r = some t → Valid t ∧ t.buffer = buffer := by
  unfold parse
  by_cases hshort : buffer.length < Geoip.headerLen
  · exact ⟨none, if_pos hshort, fun t ht => by cases ht⟩
  rw [if_neg hshort]
  have hhead : Geoip.headerLen = 24 := rfl
  have hentry : Geoip.entryLen = 34 := rfl
  have hmagic : Geoip.magic.length = 8 := rfl
  rw [hhead] at hshort
  rw [hasMagic_ok (by omega)]
  simp only [bind, Except.bind]
  by_cases hm : slice buffer 0 Geoip.magic.length = Geoip.magic
  · rw [decide_eq_true hm, if_neg (by decide), getNum_ok (by omega), getNum_ok (by omega), getNum_ok (by omega),
      getNum_ok (by omega)]
    dsimp only
    generalize fromLe (slice buffer 8 4) = v4
    generalize fromLe (slice buffer 12 4) = v6
    generalize fromLe (slice buffer 16 4) = countries
    split_ifs with hbad hlen
    · exact ⟨none, rfl, fun t ht => by cases ht⟩
    · exact ⟨none, rfl, fun t ht => by cases ht⟩
    · push Not at hbad hlen
      rw [hhead, hentry] at hlen
      unfold Table.new
      rw [int_ok (by omega), hhead, hentry]
      simp only [bind, Except.bind]
      rw [int_ok (by omega)]
      dsimp only
      rw [int_ok (by omega)]
      dsimp only
      rw [int_ok (by omega)]
      refine ⟨_, rfl, fun t ht => ?_⟩
      cases ht
      exact ⟨⟨rfl, rfl, by dsimp only; rw [hentry]; omega, by dsimp only; omega⟩, rfl⟩
  · rw [decide_eq_false hm, if_pos rfl]
    exact ⟨none, rfl, fun t ht => by cases ht⟩

theorem compareFrom_ok {buffer key : List UInt8} {start i : ℕ} (h : start + i + key.length ≤ buffer.length)
    (hsmall : buffer.length < 2 ^ 31) :
    compareFrom buffer start i key = .ok (compare (slice buffer (start + i) key.length) key) := by
  induction key generalizing i with
  | nil => rfl
  | cons b key ih =>
    rw [List.length_cons] at h
    have hget := get_ok (show start + i < buffer.length by omega)
    have hslice : slice buffer (start + i) (key.length + 1) =
        buffer[start + i] :: slice buffer (start + i + 1) key.length := by
      rw [slice, List.drop_eq_getElem_cons (by omega), List.take_succ_cons, slice]
    rw [compareFrom, int_ok (by omega), List.length_cons, hslice, List.compare_cons_cons, compare_toNat]
    simp only [bind, Except.bind]
    rw [hget]
    dsimp only
    generalize buffer[start + i] = a
    by_cases hab : a = b
    · rw [if_neg (not_not.2 hab), ih (by omega), hab, compare_eq_iff_eq.2 rfl]
      rfl
    · rw [if_pos hab]
      rcases lt_trichotomy a.toNat b.toNat with hlt | heq | hgt
      · rw [if_pos (UInt8.lt_iff_toNat_lt.2 hlt), compare_lt_iff_lt.2 hlt]
        rfl
      · exact absurd (UInt8.toNat_inj.1 heq) hab
      · rw [if_neg fun hlt => by have := UInt8.lt_iff_toNat_lt.1 hlt; omega, compare_gt_iff_gt.2 hgt]
        rfl

/-- the order of an entry's first address and the key -/
def startOrd (buffer : List UInt8) (base : ℕ) (key : List UInt8) (i : ℕ) : Ordering :=
  compare (slice buffer (base + i * Geoip.entryLen) 16) key

/-- the search is the loop between two bounds -/
theorem search_ok {buffer key : List UInt8} {base fuel lo hi : ℕ} (hkey : key.length = 16)
    (hlen : base + hi * Geoip.entryLen ≤ buffer.length) (hsmall : buffer.length < 2 ^ 31) (hfuel : hi - lo ≤ fuel) :
    search buffer base key fuel lo hi =
      .ok (upperBound (fun i => decide (startOrd buffer base key i ≠ .gt)) fuel lo hi) := by
  have hentry : Geoip.entryLen = 34 := rfl
  rw [hentry] at hlen
  induction fuel generalizing lo hi with
  | zero =>
    rw [search, if_neg (by omega)]
    rfl
  | succ fuel ih =>
    unfold search upperBound
    by_cases hlt : lo < hi
    · rw [if_pos hlt, if_pos hlt, int_ok (by omega)]
      simp only [bind, Except.bind, hentry]
      rw [int_ok (by omega)]
      dsimp only
      rw [int_ok (by omega)]
      dsimp only
      rw [compareFrom_ok (by omega) hsmall, Nat.add_zero, hkey]
      dsimp only
      have hord : startOrd buffer base key ((lo + hi) / 2) =
          compare (slice buffer (base + (lo + hi) / 2 * 34) 16) key := rfl
      rw [hord]
      by_cases hle : compare (slice buffer (base + (lo + hi) / 2 * 34) 16) key ≠ .gt
      · rw [if_pos hle, if_pos (decide_eq_true hle), int_ok (by omega)]
        exact ih hlen (by omega)
      · rw [if_neg hle, if_neg (by simpa using hle)]
        exact ih (by omega) (by omega)
    · rw [if_neg hlt, if_neg hlt]

/-- two bytes as a code, when both are upper case letters -/
def letters (hi lo : UInt8) : Option String :=
  if hi < 0x41 ∨ 0x5a < hi ∨ lo < 0x41 ∨ 0x5a < lo then none
  else some (.ofList [.ofNat hi.toNat, .ofNat lo.toNat])

/-- the code of an entry, unless it ends before the key or points past the codes -/
def entryCode (t : Table) (entry : ℕ) (key : List UInt8) : Option String :=
  let country := fromLe (slice t.buffer (entry + 32) 2)
  if compare (slice t.buffer (entry + 16) 16) key = .lt then none
  else if t.countryCount ≤ country then none
  else
    letters (t.buffer.getD (Geoip.headerLen + country * 2) 0) (t.buffer.getD (Geoip.headerLen + country * 2 + 1) 0)

theorem codeAt_ok {buffer : List UInt8} {start : ℕ} (h : start + 2 ≤ buffer.length) (hsmall : buffer.length < 2 ^ 31) :
    codeAt buffer start = .ok (letters (buffer.getD start 0) (buffer.getD (start + 1) 0)) := by
  have hhi := get_getD (show start < buffer.length by omega)
  have hlo := get_getD (show start + 1 < buffer.length by omega)
  unfold codeAt letters
  rw [hhi, int_ok (by omega)]
  simp only [bind, Except.bind]
  rw [hlo]
  dsimp only
  split_ifs <;> rfl

theorem countryOf_ok {t : Table} (hv : Valid t) {entry : ℕ} {key : List UInt8} (hkey : key.length = 16)
    (h : entry + Geoip.entryLen ≤ t.buffer.length) : countryOf t entry key = .ok (entryCode t entry key) := by
  have hsmall := hv.small
  have hbase := hv.v4Base
  have hv6 := hv.v6Base
  have hlength := hv.length
  have hentry : Geoip.entryLen = 34 := rfl
  rw [hentry] at h hv6 hlength
  unfold countryOf entryCode
  rw [int_ok (by omega)]
  simp only [bind, Except.bind]
  rw [compareFrom_ok (by omega) hsmall, Nat.add_zero, hkey]
  dsimp only
  by_cases hlt : compare (slice t.buffer (entry + 16) 16) key = .lt
  · rw [if_pos hlt, if_pos hlt]
  · rw [if_neg hlt, if_neg hlt, int_ok (by omega)]
    dsimp only
    rw [getNum_ok (by omega)]
    dsimp only
    generalize fromLe (slice t.buffer (entry + 32) 2) = c
    by_cases hc : t.countryCount ≤ c
    · rw [if_pos hc, if_pos hc]
    · have hcodes : Geoip.headerLen + c * 2 + 2 ≤ t.buffer.length := by omega
      rw [if_neg hc, if_neg hc, int_ok (by omega)]
      dsimp only
      rw [int_ok (by omega)]
      exact codeAt_ok hcodes hsmall

def Table.base (t : Table) (useV4 : Bool) : ℕ := if useV4 then t.v4Base else t.v6Base

def Table.count (t : Table) (useV4 : Bool) : ℕ := if useV4 then t.v4Count else t.v6Count

/-- how many entries of the section start no later than the key -/
def Table.starts (t : Table) (useV4 : Bool) (key : List UInt8) : ℕ :=
  upperBound (fun i => decide (startOrd t.buffer (t.base useV4) key i ≠ .gt)) (t.count useV4) 0 (t.count useV4)

theorem Valid.section_le {t : Table} (hv : Valid t) (useV4 : Bool) :
    t.base useV4 + t.count useV4 * Geoip.entryLen ≤ t.buffer.length := by
  have hv6 := hv.v6Base
  have hlength := hv.length
  cases useV4 with
  | true =>
    change t.v4Base + t.v4Count * Geoip.entryLen ≤ _
    omega
  | false =>
    change t.v6Base + t.v6Count * Geoip.entryLen ≤ _
    omega

theorem starts_le (t : Table) (useV4 : Bool) (key : List UInt8) : t.starts useV4 key ≤ t.count useV4 :=
  (upperBound_mem (Nat.zero_le _)).2

/-- **A lookup** answers the code of the last entry that starts no later than the key. -/
theorem lookup_ok {t : Table} (hv : Valid t) (key : Geoip.Addr) (useV4 : Bool) :
    t.lookup key useV4 = .ok (if t.starts useV4 key.toList = 0 then none
      else entryCode t (t.base useV4 + (t.starts useV4 key.toList - 1) * Geoip.entryLen) key.toList) := by
  have hkey : key.toList.length = 16 := key.length_toList
  have hsection := hv.section_le useV4
  have hsmall := hv.small
  have hcount := starts_le t useV4 key.toList
  have hsearch : search t.buffer (t.base useV4) key.toList (t.count useV4) 0 (t.count useV4) =
      .ok (t.starts useV4 key.toList) := search_ok hkey hsection hsmall (by omega)
  have hentry : Geoip.entryLen = 34 := rfl
  unfold Table.lookup
  change (search t.buffer (t.base useV4) key.toList (t.count useV4) 0 (t.count useV4)).bind _ = _
  rw [hsearch]
  change (if t.starts useV4 key.toList = 0 then _ else _) = _
  by_cases hzero : t.starts useV4 key.toList = 0
  · rw [if_pos hzero, if_pos hzero]
  · rw [hentry] at hsection
    rw [if_neg hzero, if_neg hzero]
    change (int ((t.starts useV4 key.toList - 1) * Geoip.entryLen)).bind _ = _
    rw [hentry, int_ok (by omega)]
    change (int (t.base useV4 + (t.starts useV4 key.toList - 1) * 34)).bind _ = _
    rw [int_ok (by omega)]
    exact countryOf_ok hv hkey (by rw [hentry]; omega)

/-- **No byte string makes the reader fail.** Checking the header of any file and looking any address up in the table
that comes of it reads inside the buffer, keeps every `int` expression in range, and ends. -/
theorem parse_lookup_total (buffer : List UInt8) :
    ∃ r, parse buffer = .ok r ∧ ∀ t, r = some t → ∀ key useV4, ∃ code, t.lookup key useV4 = .ok code := by
  obtain ⟨r, hr, hvalid⟩ := parse_valid buffer
  exact ⟨r, hr, fun t ht key useV4 => ⟨_, lookup_ok (hvalid t ht).1 key useV4⟩⟩

end EspectralClient.Menu.GeoIp
