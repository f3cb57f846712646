/-
The mod's reader and the engine's lookup are the same function of an encoded table: both take the last range that starts
no later than the address, and answer its code when it reaches that far.

- `parse_encode`: the reader accepts what the engine encodes, up to its own bound on the counts.
- `starts_encode`: both searches end at the same entry.
- `agrees_with_engine`: every address gets the same answer.
- `flags_of_csv`: from the text that is downloaded to the flag that is shown.
-/
import EspectralClient.Engine.GeoIndex
import EspectralClient.Menu.GeoIp

namespace EspectralClient.Menu.GeoIp

open EspectralClient.Lib
open EspectralClient.Lib.Bytes
open EspectralClient.Geoip (GeoTable GeoRange encode encodeRange)

/-! ## Slices of an encoded table -/

theorem slice_skip {a b : List UInt8} {k i n : ℕ} (h : a.length = k) : slice (a ++ b) (k + i) n = slice b i n := by
  rw [slice, slice, List.drop_append, List.drop_of_length_le (by omega), List.nil_append, h, Nat.add_sub_cancel_left]

theorem slice_left {a b : List UInt8} {n : ℕ} (h : a.length = n) : slice (a ++ b) 0 n = a := by
  rw [slice, List.drop_zero, List.take_left' h]

theorem slice_drop {bs : List UInt8} {p i n : ℕ} : slice bs (p + i) n = slice (bs.drop p) i n := by
  rw [slice, slice, List.drop_drop]

/-- pieces of one length: the piece at an index starts at that many lengths -/
theorem drop_flatMap {α : Type*} {f : α → List UInt8} {k : ℕ} (hf : ∀ a, (f a).length = k) {l : List α} {i : ℕ} {a : α}
    (h : l[i]? = some a) : (l.flatMap f).drop (i * k) = f a ++ (l.drop (i + 1)).flatMap f := by
  induction l generalizing i with
  | nil => cases h
  | cons b l ih =>
    cases i with
    | zero =>
      cases h
      simp
    | succ i =>
      have hk : (i + 1) * k = (f b).length + i * k := by rw [hf]; ring
      rw [List.flatMap_cons, hk, List.drop_append, List.drop_of_length_le (by omega), List.nil_append,
        Nat.add_sub_cancel_left, ih h, List.drop_succ_cons]

section Encoded

variable {t : GeoTable} {bytes : List UInt8}

/-- the reader's view of an encoded table -/
def tableOf (t : GeoTable) (bytes : List UInt8) : Table :=
  let v4Base := Geoip.headerLen + t.countries.length * 2
  ⟨bytes, t.v4.length, t.v6.length, t.countries.length, v4Base, v4Base + t.v4.length * Geoip.entryLen⟩

/-- the header of an encoded table and what follows it -/
theorem encode_layout (h : encode t = .ok bytes) :
    ∃ head, head.length = 24 ∧ bytes = head ++ (t.countries.flatMap Vector.toList ++ (t.v4.flatMap encodeRange ++
      t.v6.flatMap encodeRange)) ∧
      head = Geoip.magic ++ (toLe 4 t.v4.length ++ (toLe 4 t.v6.length ++ (toLe 4 t.countries.length ++ toLe 4 0))) := by
  unfold encode at h
  split_ifs at h
  cases h
  refine ⟨_, ?_, ?_, rfl⟩
  · simp [Geoip.magic]
  · simp only [List.append_assoc]

theorem parse_encode (h : encode t = .ok bytes) (h4 : t.v4.length ≤ 0xFFFFFF) (h6 : t.v6.length ≤ 0xFFFFFF) :
    parse bytes = .ok (some (tableOf t bytes)) := by
  have hlen := Geoip.encode_length h
  have hc : t.countries.length ≤ 65535 := by
    unfold encode at h
    split_ifs at h
    omega
  have hhead : Geoip.headerLen = 24 := rfl
  have hentry : Geoip.entryLen = 34 := rfl
  have hmagic : Geoip.magic.length = 8 := rfl
  rw [Geoip.Header.totalLen, hhead, hentry] at hlen
  dsimp only at hlen
  obtain ⟨head, -, hbytes, rfl⟩ := encode_layout h
  rw [List.append_assoc, List.append_assoc, List.append_assoc, List.append_assoc] at hbytes
  generalize t.countries.flatMap Vector.toList ++ (t.v4.flatMap encodeRange ++ t.v6.flatMap encodeRange) = rest at hbytes
  -- the four words stand one after another behind the magic bytes
  have hm : slice bytes 0 Geoip.magic.length = Geoip.magic := by rw [hbytes, slice_left rfl]
  have h44 : (toLe 4 t.v4.length).length = 4 := length_toLe 4 _
  have h46 : (toLe 4 t.v6.length).length = 4 := length_toLe 4 _
  have h4c : (toLe 4 t.countries.length).length = 4 := length_toLe 4 _
  have hw4 : slice bytes 8 4 = toLe 4 t.v4.length := by
    rw [hbytes, slice_skip (i := 0) hmagic, slice_left h44]
  have hw6 : slice bytes 12 4 = toLe 4 t.v6.length := by
    rw [hbytes, slice_skip (i := 4) hmagic, slice_skip (i := 0) h44, slice_left h46]
  have hwc : slice bytes 16 4 = toLe 4 t.countries.length := by
    rw [hbytes, slice_skip (i := 8) hmagic, slice_skip (i := 4) h44, slice_skip (i := 0) h46, slice_left h4c]
  have hwr : slice bytes 20 4 = toLe 4 0 := by
    rw [hbytes, slice_skip (i := 12) hmagic, slice_skip (i := 8) h44, slice_skip (i := 4) h46, slice_skip (i := 0) h4c,
      slice_left (length_toLe 4 0)]
  unfold parse
  rw [if_neg (by omega), hasMagic_ok (by omega), decide_eq_true hm]
  simp only [bind, Except.bind]
  rw [if_neg (by decide), getNum_ok (by omega), getNum_ok (by omega), getNum_ok (by omega), getNum_ok (by omega), hw4,
    hw6, hwc, hwr, fromLe_toLe (by omega), fromLe_toLe (by omega), fromLe_toLe (by omega), fromLe_toLe (by omega)]
  dsimp only
  rw [if_neg (by omega), hhead, hentry, if_neg (by omega)]
  unfold Table.new
  rw [hhead, hentry, int_ok (by omega)]
  simp only [bind, Except.bind]
  rw [int_ok (by omega)]
  dsimp only
  rw [int_ok (by omega)]
  dsimp only
  rw [int_ok (by omega)]
  rfl

/-- an entry stands at its index in its section -/
theorem drop_entry (h : encode t = .ok bytes) {useV4 : Bool} {i : ℕ} {r : GeoRange}
    (hr : (t.ranges useV4)[i]? = some r) :
    ∃ rest, bytes.drop ((tableOf t bytes).base useV4 + i * Geoip.entryLen) = encodeRange r ++ rest := by
  obtain ⟨head, hhead, hbytes, -⟩ := encode_layout h
  have hcodes : (t.countries.flatMap Vector.toList).length = t.countries.length * 2 :=
    Geoip.length_flatMap_const (fun v => v.length_toList) _
  have hv4 : (t.v4.flatMap encodeRange).length = t.v4.length * Geoip.entryLen :=
    Geoip.length_flatMap_const Geoip.length_encodeRange _
  have hheadLen : Geoip.headerLen = 24 := rfl
  have hpiece := drop_flatMap Geoip.length_encodeRange hr
  cases useV4 with
  | true =>
    refine ⟨(t.v4.drop (i + 1)).flatMap encodeRange ++ t.v6.flatMap encodeRange, ?_⟩
    change bytes.drop (Geoip.headerLen + t.countries.length * 2 + i * Geoip.entryLen) = _
    change (t.v4.flatMap encodeRange).drop (i * Geoip.entryLen) = encodeRange r ++ (t.v4.drop (i + 1)).flatMap encodeRange
      at hpiece
    have hi : i * Geoip.entryLen ≤ (t.v4.flatMap encodeRange).length := by
      have hlt : i < t.v4.length := (List.getElem?_eq_some_iff.1 hr).1
      rw [hv4]
      exact Nat.mul_le_mul_right _ hlt.le
    rw [hbytes, ← List.drop_drop, ← List.drop_drop, List.drop_left' (hhead.trans hheadLen.symm), List.drop_left' hcodes,
      List.drop_append_of_le_length hi, hpiece, List.append_assoc]
  | false =>
    refine ⟨(t.v6.drop (i + 1)).flatMap encodeRange, ?_⟩
    change bytes.drop (Geoip.headerLen + t.countries.length * 2 + t.v4.length * Geoip.entryLen + i * Geoip.entryLen) = _
    rw [hbytes, ← List.drop_drop, ← List.drop_drop, ← List.drop_drop, List.drop_left' (hhead.trans hheadLen.symm),
      List.drop_left' hcodes, List.drop_left' hv4]
    exact hpiece

/-- the three parts of an entry -/
theorem entry_slices (h : encode t = .ok bytes) {useV4 : Bool} {i : ℕ} {r : GeoRange}
    (hr : (t.ranges useV4)[i]? = some r) :
    slice bytes ((tableOf t bytes).base useV4 + i * Geoip.entryLen) 16 = r.start.toList ∧
      slice bytes ((tableOf t bytes).base useV4 + i * Geoip.entryLen + 16) 16 = r.stop.toList ∧
      fromLe (slice bytes ((tableOf t bytes).base useV4 + i * Geoip.entryLen + 32) 2) = r.country.toNat := by
  obtain ⟨rest, hdrop⟩ := drop_entry h hr
  have hstart : r.start.toList.length = 16 := r.start.length_toList
  have hstop : r.stop.toList.length = 16 := r.stop.length_toList
  have hcountry : r.country.toNat < 256 ^ 2 := r.country.toNat_lt
  rw [encodeRange, List.append_assoc, List.append_assoc] at hdrop
  generalize (tableOf t bytes).base useV4 + i * Geoip.entryLen = p at hdrop ⊢
  refine ⟨?_, ?_, ?_⟩
  · have hp : slice bytes (p + 0) 16 = r.start.toList := by rw [slice_drop, hdrop, slice_left hstart]
    exact hp
  · rw [slice_drop, hdrop, slice_skip (i := 0) hstart, slice_left hstop]
  · rw [slice_drop, hdrop, slice_skip (i := 16) hstart, slice_skip (i := 0) hstop, slice_left (length_toLe 2 _),
      fromLe_toLe hcountry]

theorem toList_pair (cc : Vector UInt8 2) : cc.toList = [cc[0], cc[1]] := by
  apply List.ext_getElem
  · simp
  · intro i hi hi'
    match i, hi' with
    | 0, _ => simp
    | 1, _ => simp

/-- a code stands at its index behind the header -/
theorem code_bytes (h : encode t = .ok bytes) {i : ℕ} {cc : Vector UInt8 2} (hc : t.countries[i]? = some cc) :
    bytes.getD (Geoip.headerLen + i * 2) 0 = cc[0] ∧ bytes.getD (Geoip.headerLen + i * 2 + 1) 0 = cc[1] := by
  obtain ⟨head, hhead, hbytes, -⟩ := encode_layout h
  have hheadLen : Geoip.headerLen = 24 := rfl
  have hpiece := drop_flatMap (f := fun cc : Vector UInt8 2 => cc.toList) (fun v => v.length_toList) hc
  have hi : i * 2 ≤ (t.countries.flatMap Vector.toList).length := by
    have hlt : i < t.countries.length := (List.getElem?_eq_some_iff.1 hc).1
    rw [Geoip.length_flatMap_const (fun v => v.length_toList)]
    omega
  have hrest : bytes.drop (Geoip.headerLen + i * 2) =
      cc[0] :: cc[1] :: ((t.countries.drop (i + 1)).flatMap Vector.toList ++ (t.v4.flatMap encodeRange ++
        t.v6.flatMap encodeRange)) := by
    rw [hbytes, ← List.drop_drop, List.drop_left' (hhead.trans hheadLen.symm), List.drop_append_of_le_length hi, hpiece,
      toList_pair]
    rfl
  have hget : ∀ j, bytes.getD (Geoip.headerLen + i * 2 + j) 0 = (bytes.drop (Geoip.headerLen + i * 2)).getD j 0 := by
    intro j
    rw [List.getD_eq_getElem?_getD, List.getD_eq_getElem?_getD, List.getElem?_drop]
  have h0 := hget 0
  have h1 := hget 1
  rw [hrest] at h0 h1
  exact ⟨h0, h1⟩

/-! ## The same entry -/

theorem ranges_length (useV4 : Bool) : (tableOf t bytes).count useV4 = (t.ranges useV4).length := by
  cases useV4 <;> rfl

/-- **Both searches end at the same entry** of a section that is sorted by first address. -/
theorem starts_encode (h : encode t = .ok bytes) {useV4 : Bool}
    (hsorted : (t.ranges useV4).Pairwise fun a b => Geoip.cmp a.start b.start ≠ .gt) (key : Geoip.Addr) :
    (tableOf t bytes).starts useV4 key.toList =
      partitionPoint (fun r : GeoRange => decide (Geoip.cmp r.start key ≠ .gt)) (t.ranges useV4) := by
  have hlo : (t.ranges useV4).Pairwise fun a b => a.lo ≤ b.lo := hsorted.imp fun {a b} hab => Geoip.cmp_le.1 hab
  obtain ⟨a, b, hab, ha, hb⟩ := Ranges.exists_partition (x := Geoip.num key) hlo
    (p := fun r => decide (Geoip.cmp r.start key ≠ .gt)) fun r => by rw [decide_eq_true_iff]; exact Geoip.cmp_le
  rw [hab, partitionPoint_eq ha hb]
  have hlen : (t.ranges useV4).length = a.length + b.length := by rw [hab, List.length_append]
  refine upperBound_eq (by omega) (Nat.zero_le _) (by rw [ranges_length]; omega) fun i hi => ?_
  rw [ranges_length] at hi
  obtain ⟨r, hget⟩ : ∃ r, (t.ranges useV4)[i]? = some r := ⟨_, List.getElem?_eq_getElem hi⟩
  have hord : startOrd (tableOf t bytes).buffer ((tableOf t bytes).base useV4) key.toList i = Geoip.cmp r.start key := by
    rw [startOrd, Geoip.cmp, ← (entry_slices h hget).1]
    rfl
  rw [hord]
  by_cases hia : i < a.length
  · rw [hab, List.getElem?_append_left hia] at hget
    exact iff_of_true (ha _ (List.mem_of_getElem? hget)) hia
  · rw [hab, List.getElem?_append_right (by omega)] at hget
    refine iff_of_false ?_ hia
    rw [hb _ (List.mem_of_getElem? hget)]
    exact Bool.false_ne_true

/-- the letters of a code -/
def IsCode (c : Vector UInt8 2) : Prop := ∀ b ∈ c.toList, 0x41 ≤ b ∧ b ≤ 0x5a

theorem letters_code {cc : Vector UInt8 2} (hc : IsCode cc) : letters cc[0] cc[1] = some (fromUtf8Lossy cc.toList) := by
  have h0 := hc cc[0] (by rw [toList_pair]; simp)
  have h1 := hc cc[1] (by rw [toList_pair]; simp)
  have hlt : ∀ b : UInt8, b ≤ 0x5a → b.toNat < 0x80 := fun b hb => by
    have hle : b.toNat ≤ 0x5a := UInt8.le_iff_toNat_le.1 hb
    omega
  have hno : ¬ (cc[0] < 0x41 ∨ (0x5a : UInt8) < cc[0] ∨ cc[1] < 0x41 ∨ (0x5a : UInt8) < cc[1]) := by
    rintro (h | h | h | h)
    · exact UInt8.not_lt.2 h0.1 h
    · exact UInt8.not_lt.2 h0.2 h
    · exact UInt8.not_lt.2 h1.1 h
    · exact UInt8.not_lt.2 h1.2 h
  rw [letters, if_neg hno, toList_pair, fromUtf8Lossy_pair (hlt _ h0.2) (hlt _ h1.2)]

/-- an entry stands for its code when it reaches the address -/
theorem entryCode_encode (h : encode t = .ok bytes) (hcodes : ∀ c ∈ t.countries, IsCode c) {useV4 : Bool} {i : ℕ}
    {r : GeoRange} (hr : (t.ranges useV4)[i]? = some r) (key : Geoip.Addr) :
    entryCode (tableOf t bytes) ((tableOf t bytes).base useV4 + i * Geoip.entryLen) key.toList =
      if Geoip.cmp key r.stop ≠ .gt then t.code r else none := by
  obtain ⟨-, hstop, hcountry⟩ := entry_slices h hr
  have hord : compare r.stop.toList key.toList = Geoip.cmp r.stop key := rfl
  have hbuffer : (tableOf t bytes).buffer = bytes := rfl
  have hcount : (tableOf t bytes).countryCount = t.countries.length := rfl
  unfold entryCode
  rw [hbuffer, hstop, hcountry, hord, hcount]
  dsimp only
  by_cases hlt : Geoip.cmp r.stop key = .lt
  · have hgt : ¬ Geoip.cmp key r.stop ≠ .gt := fun hle => by
      have := Geoip.cmp_le.1 hle
      have := Geoip.cmp_lt.1 hlt
      omega
    rw [if_pos hlt, if_neg hgt]
  · have hle : Geoip.cmp key r.stop ≠ .gt := Geoip.cmp_le.2 (not_lt.1 fun hnum => hlt (Geoip.cmp_lt.2 hnum))
    rw [if_neg hlt, if_pos hle, GeoTable.code]
    cases hc : t.countries[r.country.toNat]? with
    | none => rw [if_pos (List.getElem?_eq_none_iff.1 hc), Option.map_none]
    | some c =>
      have hin : r.country.toNat < t.countries.length := (List.getElem?_eq_some_iff.1 hc).1
      obtain ⟨h0, h1⟩ := code_bytes h hc
      rw [if_neg (not_le.2 hin), h0, h1, letters_code (hcodes c (List.mem_of_getElem? hc)), Option.map_some]

end Encoded

/-! ## Agreement -/

/-- what the reader relies on beyond what the engine encodes -/
structure Readable (t : GeoTable) : Prop where
  v4_le : t.v4.length ≤ 0xFFFFFF
  v6_le : t.v6.length ≤ 0xFFFFFF
  sorted : ∀ useV4, (t.ranges useV4).Pairwise fun a b => Geoip.cmp a.start b.start ≠ .gt
  codes : ∀ c ∈ t.countries, IsCode c

/-- the address as the mod sees it -/
def inetAddress : IpAddr → InetAddress
  | .v4 addr => .v4 addr
  | .v6 addr => .v6 (Geoip.octets addr)

theorem isV4Mapped_iff (raw : Vector UInt8 16) : isV4Mapped raw = true ↔ Geoip.Mapped raw := by
  have hlen : raw.toList.length = 16 := raw.length_toList
  have htake : raw.toList.take 12 = raw.toList.take 10 ++ [raw[10], raw[11]] := by
    apply List.ext_getElem
    · simp
    · intro i hi hi'
      by_cases h10 : i < 10
      · simp [h10]
      · have : i = 10 ∨ i = 11 := by simp at hi; omega
        rcases this with rfl | rfl <;> simp
  have hhead : Geoip.mappedHead = List.replicate 10 0 ++ [0xff, 0xff] := rfl
  have hzero : (raw.toList.take 10).all (· = 0) = true ↔ raw.toList.take 10 = List.replicate 10 0 := by
    rw [List.eq_replicate_iff, List.all_eq_true]
    simp
  rw [Geoip.Mapped, htake, hhead, isV4Mapped, decide_eq_true_iff, hzero]
  constructor
  · rintro ⟨h10, ha, hb⟩
    rw [h10, ha, hb]
  · intro happ
    obtain ⟨h10, htail⟩ := List.append_inj' happ rfl
    simp only [List.cons.injEq, and_true] at htail
    exact ⟨h10, htail⟩

/-- the reader looks up the engine's key in the engine's section -/
theorem country_inetAddress {t : Table} {ip : IpAddr} (hu : usable (inetAddress ip) = true) :
    country (some t) (inetAddress ip) = t.lookup (Geoip.sectionKey ip).1 (Geoip.sectionKey ip).2 := by
  unfold country
  rw [if_neg (by rw [hu]; decide), Geoip.sectionKey_eq]
  unfold inetAddress Geoip.point
  cases ip with
  | v4 addr =>
    dsimp only
    rw [decide_eq_true (Geoip.mapped_mapped addr)]
  | v6 addr =>
    dsimp only
    have hsame : isV4Mapped (Geoip.octets addr) = decide (Geoip.Mapped (Geoip.octets addr)) := by
      rw [Bool.eq_iff_iff, isV4Mapped_iff, decide_eq_true_iff]
    rw [hsame]

theorem lookup_encode {t : GeoTable} {bytes : List UInt8} (h : encode t = .ok bytes) (hr : Readable t)
    (hvalid : Valid (tableOf t bytes)) (ip : IpAddr) :
    (tableOf t bytes).lookup (Geoip.sectionKey ip).1 (Geoip.sectionKey ip).2 = .ok (Geoip.lookup t ip) := by
  rw [lookup_ok hvalid, starts_encode h (hr.sorted _)]
  unfold Geoip.lookup
  generalize Geoip.sectionKey ip = k
  obtain ⟨key, useV4⟩ := k
  have hranges : (if useV4 = true then t.v4 else t.v6) = t.ranges useV4 := rfl
  dsimp only
  rw [hranges]
  congr 1
  by_cases hzero : partitionPoint (fun r : GeoRange => decide (Geoip.cmp r.start key ≠ .gt)) (t.ranges useV4) = 0
  · rw [if_pos hzero, if_pos hzero]
  · have hle := starts_le (tableOf t bytes) useV4 key.toList
    rw [starts_encode h (hr.sorted _), ranges_length] at hle
    have hlt : partitionPoint (fun r : GeoRange => decide (Geoip.cmp r.start key ≠ .gt)) (t.ranges useV4) - 1 <
        (t.ranges useV4).length := by omega
    have hget := List.getElem?_eq_getElem hlt
    rw [if_neg hzero, if_neg hzero, hget]
    exact entryCode_encode h hr.codes hget key

/-- **The reader agrees with the engine.** It accepts every table the engine encodes within its bounds and answers for
every address a flag may be shown for what the engine's lookup answers; and no byte string makes it fail. -/
theorem agrees_with_engine :
    (∀ t bytes, encode t = .ok bytes → Readable t → ∃ table, parse bytes = .ok (some table) ∧
      ∀ ip, usable (inetAddress ip) = true → country (some table) (inetAddress ip) = .ok (Geoip.lookup t ip)) ∧
    ∀ buffer, ∃ r, parse buffer = .ok r ∧ ∀ t, r = some t → ∀ key useV4, ∃ code, t.lookup key useV4 = .ok code := by
  refine ⟨fun t bytes h hr => ?_, parse_lookup_total⟩
  have hparse := parse_encode h hr.v4_le hr.v6_le
  obtain ⟨r, hr', hvalid⟩ := parse_valid bytes
  rw [hparse] at hr'
  cases hr'
  refine ⟨_, hparse, fun ip hu => ?_⟩
  rw [country_inetAddress hu]
  exact lookup_encode h hr (hvalid _ rfl).1 ip

/-- two Spanish ranges side by side -/
def sampleTable : GeoTable :=
  ⟨[#v[0x45, 0x53]], [⟨Geoip.mapped #v[1, 0, 0, 0], Geoip.mapped #v[1, 0, 0, 9], 0⟩,
    ⟨Geoip.mapped #v[1, 0, 0, 10], Geoip.mapped #v[1, 0, 0, 19], 0⟩], []⟩

theorem readable_sample : Readable sampleTable := by
  refine ⟨by decide, by decide, fun useV4 => ?_, fun code hcode => ?_⟩
  · cases useV4 with
    | true => decide
    | false => exact List.Pairwise.nil
  · rw [List.mem_singleton.1 hcode]
    have hall : [(0x45 : UInt8), 0x53].all (fun b => 0x41 ≤ b ∧ b ≤ 0x5a) = true := by decide
    exact fun b hb => of_decide_eq_true (List.all_eq_true.1 hall b hb)

theorem agrees_with_engine_sample :
    ∃ bytes table, encode sampleTable = .ok bytes ∧ parse bytes = .ok (some table) ∧
      country (some table) (inetAddress (.v4 #v[1, 0, 0, 10])) = .ok (some "ES") := by
  obtain ⟨bytes, h⟩ := Geoip.encode_ok (t := sampleTable) (by decide) (by decide) (by decide)
  obtain ⟨table, hparse, hcountry⟩ := agrees_with_engine.1 sampleTable bytes h readable_sample
  have hlookup : Geoip.lookup sampleTable (.v4 #v[1, 0, 0, 10]) = some "ES" := by decide
  exact ⟨bytes, table, h, hparse, hlookup ▸ hcountry _ (by decide)⟩

/-! ## From the text to the flag -/

theorem readable_parseCsv {csv : String} (h : Geoip.Clean csv)
    (hcount : ∀ useV4, ((Geoip.parseCsv csv).ranges useV4).length ≤ 0xFFFFFF) : Readable (Geoip.parseCsv csv) := by
  refine ⟨hcount true, hcount false, fun useV4 => ?_, fun c hc b hb => ?_⟩
  · refine (Geoip.ascending_ranges h useV4).imp_of_mem fun {a b} ha _ hab => Geoip.cmp_le.2 ?_
    exact ((Geoip.proper_ranges h useV4 a ha).trans_lt hab).le
  · rw [Geoip.countries_parseCsv] at hc
    obtain ⟨r, hr, rfl⟩ := Geoip.mem_codesOf.1 hc
    obtain ⟨hlo, hhi⟩ := Geoip.upper_countries h r hr b hb
    exact ⟨UInt8.le_iff_toNat_le.2 hlo, UInt8.le_iff_toNat_le.2 hhi⟩

/-- **The flag of an address** is the code of the row that holds it, through the engine's file and the mod's reader, and
there is none for an address of no row or of no public server. -/
theorem flags_of_csv {csv : String} (h : Geoip.Clean csv) (hsize : (utf8 csv).length ≤ Geoip.maxCsvBytes)
    (hcount : ∀ useV4, ((Geoip.parseCsv csv).ranges useV4).length ≤ 0xFFFFFF) :
    ∃ bytes table, encode (Geoip.parseCsv csv) = .ok bytes ∧ parse bytes = .ok (some table) ∧
      ∀ ip, ∃ flag, country (some table) (inetAddress ip) = .ok flag ∧
        ∀ code, flag = some code ↔ usable (inetAddress ip) = true ∧
          ∃ row ∈ Geoip.rowsOf csv, row.range.Contains (Geoip.point ip) ∧ row.code = code := by
  have hcap : Geoip.maxCsvBytes < 2 ^ 32 := by decide
  have hcodes : (Geoip.parseCsv csv).countries.length ≤ 65535 := (Geoip.length_countries h).trans (by omega)
  have h4 : (Geoip.parseCsv csv).v4.length ≤ (utf8 csv).length := Geoip.length_ranges csv true
  have h6 : (Geoip.parseCsv csv).v6.length ≤ (utf8 csv).length := Geoip.length_ranges csv false
  obtain ⟨bytes, henc⟩ := Geoip.encode_ok hcodes (by omega) (by omega)
  have hr := readable_parseCsv h hcount
  have hparse := parse_encode henc hr.v4_le hr.v6_le
  obtain ⟨r, hr', hvalid⟩ := parse_valid bytes
  rw [hparse] at hr'
  cases hr'
  refine ⟨bytes, _, henc, hparse, fun ip => ?_⟩
  by_cases hu : usable (inetAddress ip) = true
  · refine ⟨_, (country_inetAddress hu).trans (lookup_encode henc hr (hvalid _ rfl).1 ip), fun code => ?_⟩
    rw [Geoip.lookup_parseCsv h hcodes, and_iff_right hu]
  · exact ⟨none, if_pos (Bool.eq_false_iff.2 hu), fun code => iff_of_false (by simp) fun hc => hu hc.1⟩

theorem flags_of_csv_sample :
    ∃ bytes table, encode (Geoip.parseCsv Geoip.sampleCsv) = .ok bytes ∧ parse bytes = .ok (some table) ∧
      country (some table) (inetAddress (.v4 #v[1, 0, 0, 10])) = .ok (some "AU") := by
  have hclean : Geoip.Clean Geoip.sampleCsv := Geoip.clean_of_ends (by decide) (by decide)
  obtain ⟨bytes, table, henc, hparse, hflag⟩ := flags_of_csv hclean (by decide) (by decide)
  obtain ⟨flag, hcountry, hcode⟩ := hflag (.v4 #v[1, 0, 0, 10])
  have hrow := (Geoip.lookup_parseCsv hclean (by decide) (.v4 #v[1, 0, 0, 10]) "AU").1 (by decide)
  rw [(hcode "AU").2 ⟨by decide, hrow⟩] at hcountry
  exact ⟨bytes, table, henc, hparse, hcountry⟩

end EspectralClient.Menu.GeoIp
