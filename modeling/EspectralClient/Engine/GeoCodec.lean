/-
The `ESPGEO1` layout in both directions.

- `decode_total`: every byte string is decoded or refused with a text; no count of a header leads past the end.
- `encode_decode`: bytes that decode are the bytes of the table they decode to.
- `codec_canonical`: the two together with the round trip of `GeoTable` and the length that a header implies.
-/
import EspectralClient.Engine.GeoTable
import EspectralClient.Lib.Fallible

namespace EspectralClient.Geoip

open EspectralClient.Lib
open EspectralClient.Lib.Bytes
open EspectralClient.Lib.Fallible (bind_ok)

/-! ## What a read takes -/

theorem take_ok {n : ℕ} {bs rest : List UInt8} {v : Vector UInt8 n} (h : take n bs = .ok (v, rest)) :
    bs = v.toList ++ rest := by
  unfold take at h
  split_ifs at h with hlen
  cases h
  rw [toList_toArray (List.length_take_of_le (Nat.le_of_not_lt hlen)), List.take_append_drop]

theorem word_ok {n : ℕ} {bs rest : List UInt8} (h : word bs = .ok (n, rest)) : bs = toLe 4 n ++ rest ∧ n < 2 ^ 32 := by
  obtain ⟨⟨w, bs'⟩, htake, h⟩ := bind_ok h
  cases h
  have hlt := fromLe_lt w.toList
  rw [w.length_toList] at hlt
  exact ⟨(take_ok htake).trans (by rw [toLe_fromLe w.length_toList]), hlt⟩

theorem readCountries_ok {n : ℕ} {bs rest : List UInt8} {l : List (Vector UInt8 2)}
    (h : readCountries n bs = .ok (l, rest)) : l.length = n ∧ bs = l.flatMap Vector.toList ++ rest := by
  induction n generalizing bs l with
  | zero =>
    cases h
    exact ⟨rfl, rfl⟩
  | succ n ih =>
    obtain ⟨⟨cc, bs₁⟩, htake, h⟩ := bind_ok h
    obtain ⟨⟨l₁, bs₂⟩, hrest, h⟩ := bind_ok h
    cases h
    obtain ⟨hlength, hbytes⟩ := ih hrest
    refine ⟨by rw [List.length_cons, hlength], ?_⟩
    calc bs = cc.toList ++ bs₁ := take_ok htake
      _ = cc.toList ++ (l₁.flatMap Vector.toList ++ rest) := by rw [hbytes]
      _ = (cc :: l₁).flatMap Vector.toList ++ rest := by rw [List.flatMap_cons, List.append_assoc]

theorem readRange_ok {bs rest : List UInt8} {r : GeoRange} (h : readRange bs = .ok (r, rest)) :
    bs = encodeRange r ++ rest := by
  obtain ⟨⟨start, bs₁⟩, hstart, h⟩ := bind_ok h
  obtain ⟨⟨stop, bs₂⟩, hstop, h⟩ := bind_ok h
  obtain ⟨⟨w, bs₃⟩, hcountry, h⟩ := bind_ok h
  cases h
  have hlt := fromLe_lt w.toList
  rw [w.length_toList] at hlt
  have hword : toLe 2 (UInt16.ofNat (fromLe w.toList)).toNat = w.toList := by
    rw [UInt16.toNat_ofNat_of_lt' hlt, toLe_fromLe w.length_toList]
  calc bs = start.toList ++ bs₁ := take_ok hstart
    _ = start.toList ++ (stop.toList ++ bs₂) := by rw [take_ok hstop]
    _ = start.toList ++ (stop.toList ++ (w.toList ++ rest)) := by rw [take_ok hcountry]
    _ = encodeRange ⟨start, stop, .ofNat (fromLe w.toList)⟩ ++ rest := by
      rw [encodeRange, hword, List.append_assoc, List.append_assoc]

theorem readRanges_ok {n : ℕ} {bs rest : List UInt8} {l : List GeoRange} (h : readRanges n bs = .ok (l, rest)) :
    l.length = n ∧ bs = l.flatMap encodeRange ++ rest := by
  induction n generalizing bs l with
  | zero =>
    cases h
    exact ⟨rfl, rfl⟩
  | succ n ih =>
    obtain ⟨⟨r, bs₁⟩, hrange, h⟩ := bind_ok h
    obtain ⟨⟨l₁, bs₂⟩, hrest, h⟩ := bind_ok h
    cases h
    obtain ⟨hlength, hbytes⟩ := ih hrest
    refine ⟨by rw [List.length_cons, hlength], ?_⟩
    calc bs = encodeRange r ++ bs₁ := readRange_ok hrange
      _ = encodeRange r ++ (l₁.flatMap encodeRange ++ rest) := by rw [hbytes]
      _ = (r :: l₁).flatMap encodeRange ++ rest := by rw [List.flatMap_cons, List.append_assoc]

/-- a header that is accepted is the one that its counts are written as -/
theorem parseHeader_ok {bytes rest : List UInt8} {head : Header} (h : parseHeader bytes = .ok (head, rest)) :
    bytes = magic ++ (toLe 4 head.v4 ++ (toLe 4 head.v6 ++ (toLe 4 head.countries ++ (toLe 4 0 ++ rest)))) ∧
      head.v4 < 2 ^ 32 ∧ head.v6 < 2 ^ 32 ∧ head.countries < 2 ^ 32 := by
  unfold parseHeader at h
  split_ifs at h with hshort hmagic
  obtain ⟨⟨v4, bs₁⟩, hv4, h⟩ := bind_ok h
  obtain ⟨⟨v6, bs₂⟩, hv6, h⟩ := bind_ok h
  obtain ⟨⟨countries, bs₃⟩, hcountries, h⟩ := bind_ok h
  obtain ⟨⟨reserved, bs₄⟩, hreserved, h⟩ := bind_ok h
  dsimp only at h
  split_ifs at h with hzero
  cases h
  rw [not_not] at hzero hmagic
  obtain ⟨hbytes₁, hlt₁⟩ := word_ok hv4
  obtain ⟨hbytes₂, hlt₂⟩ := word_ok hv6
  obtain ⟨hbytes₃, hlt₃⟩ := word_ok hcountries
  obtain ⟨hbytes₄, -⟩ := word_ok hreserved
  refine ⟨?_, hlt₁, hlt₂, hlt₃⟩
  rw [← hzero, ← hbytes₄, ← hbytes₃, ← hbytes₂, ← hbytes₁, ← hmagic, List.take_append_drop]

/-- what the parts of a successful decoding are -/
theorem decode_ok {bytes : List UInt8} {t : GeoTable} (h : decode bytes = .ok t) :
    ∃ rest, parseHeader bytes = .ok (⟨t.v4.length, t.v6.length, t.countries.length⟩, rest) ∧
      bytes.length = (Header.mk t.v4.length t.v6.length t.countries.length).totalLen ∧
      rest = t.countries.flatMap Vector.toList ++ (t.v4.flatMap encodeRange ++ t.v6.flatMap encodeRange) := by
  obtain ⟨⟨head, rest⟩, hhead, h⟩ := bind_ok h
  dsimp only at h
  split_ifs at h with hlen
  obtain ⟨⟨countries, bs₁⟩, hcountries, h⟩ := bind_ok h
  obtain ⟨⟨v4, bs₂⟩, hv4, h⟩ := bind_ok h
  obtain ⟨⟨v6, bs₃⟩, hv6, h⟩ := bind_ok h
  cases h
  rw [not_not] at hlen
  dsimp only at hv4 hv6
  obtain ⟨hcount, hbytes⟩ := readCountries_ok hcountries
  obtain ⟨hcount₄, hbytes₄⟩ := readRanges_ok hv4
  obtain ⟨hcount₆, hbytes₆⟩ := readRanges_ok hv6
  have hrest : rest = countries.flatMap Vector.toList ++ (v4.flatMap encodeRange ++ (v6.flatMap encodeRange ++ bs₃)) := by
    rw [hbytes, hbytes₄, hbytes₆]
  -- the lengths leave nothing over
  have hnone : bs₃ = [] := by
    have hhead' := congrArg List.length (parseHeader_ok hhead).1
    rw [hlen, hrest] at hhead'
    simp only [List.length_append, length_toLe, length_flatMap_const (fun v : Vector UInt8 2 => v.length_toList),
      length_flatMap_const length_encodeRange, hcount, hcount₄, hcount₆, Header.totalLen] at hhead'
    have hmagic : magic.length = 8 := rfl
    have hfixed : headerLen = 24 := rfl
    rw [hmagic, hfixed, Nat.add_mul] at hhead'
    exact List.length_eq_zero_iff.1 (by omega)
  obtain ⟨v4', v6', countries'⟩ := head
  dsimp only at hcount hcount₄ hcount₆
  subst hcount hcount₄ hcount₆
  exact ⟨rest, hhead, hlen, by rw [hrest, hnone, List.append_nil]⟩

theorem encode_decode {bytes : List UInt8} {t : GeoTable} (h : decode bytes = .ok t)
    (hcountries : t.countries.length ≤ 65535) : encode t = .ok bytes := by
  obtain ⟨rest, hhead, -, hrest⟩ := decode_ok h
  obtain ⟨hbytes, hv4, hv6, -⟩ := parseHeader_ok hhead
  unfold encode
  rw [if_neg (Nat.not_lt.2 hcountries), if_neg (Nat.not_le.2 hv4), if_neg (Nat.not_le.2 hv6), hbytes, hrest]

/-! ## No read past the end -/

theorem take_total (n : ℕ) (bs : List UInt8) (h : n ≤ bs.length) :
    ∃ v rest, take n bs = .ok (v, rest) ∧ rest.length = bs.length - n := by
  refine ⟨toArray n (bs.take n), bs.drop n, if_neg (Nat.not_lt.2 h), ?_⟩
  rw [List.length_drop]

theorem word_total (bs : List UInt8) (h : 4 ≤ bs.length) :
    ∃ n rest, word bs = .ok (n, rest) ∧ rest.length = bs.length - 4 := by
  obtain ⟨v, rest, htake, hrest⟩ := take_total 4 bs h
  refine ⟨fromLe v.toList, rest, ?_, hrest⟩
  unfold word
  rw [htake]
  rfl

theorem readCountries_total (n : ℕ) (bs : List UInt8) (h : n * 2 ≤ bs.length) :
    ∃ l rest, readCountries n bs = .ok (l, rest) ∧ rest.length = bs.length - n * 2 := by
  induction n generalizing bs with
  | zero => exact ⟨[], bs, rfl, by omega⟩
  | succ n ih =>
    obtain ⟨cc, bs₁, htake, hlen⟩ := take_total 2 bs (by omega)
    obtain ⟨l, rest, hread, hrest⟩ := ih bs₁ (by omega)
    refine ⟨cc :: l, rest, ?_, by omega⟩
    rw [readCountries, htake]
    simp only [hread, bind, Except.bind]

theorem readRange_total (bs : List UInt8) (h : entryLen ≤ bs.length) :
    ∃ r rest, readRange bs = .ok (r, rest) ∧ rest.length = bs.length - entryLen := by
  have hentry : entryLen = 34 := rfl
  obtain ⟨start, bs₁, hstart, hlen₁⟩ := take_total 16 bs (by omega)
  obtain ⟨stop, bs₂, hstop, hlen₂⟩ := take_total 16 bs₁ (by omega)
  obtain ⟨w, bs₃, hw, hlen₃⟩ := take_total 2 bs₂ (by omega)
  refine ⟨⟨start, stop, .ofNat (fromLe w.toList)⟩, bs₃, ?_, by omega⟩
  rw [readRange, hstart]
  simp only [hstop, hw, bind, Except.bind]

theorem readRanges_total (n : ℕ) (bs : List UInt8) (h : n * entryLen ≤ bs.length) :
    ∃ l rest, readRanges n bs = .ok (l, rest) ∧ rest.length = bs.length - n * entryLen := by
  induction n generalizing bs with
  | zero => exact ⟨[], bs, rfl, by omega⟩
  | succ n ih =>
    rw [Nat.add_mul, Nat.one_mul] at h
    obtain ⟨r, bs₁, hrange, hlen⟩ := readRange_total bs (by omega)
    obtain ⟨l, rest, hread, hrest⟩ := ih bs₁ (by omega)
    refine ⟨r :: l, rest, ?_, by rw [hrest, hlen, Nat.add_mul, Nat.one_mul]; omega⟩
    rw [readRanges, hrange]
    simp only [hread, bind, Except.bind]

theorem parseHeader_total (bytes : List UInt8) : parseHeader bytes ≠ .error .panic := by
  unfold parseHeader
  split_ifs with hshort hmagic
  · intro h
    cases h
  · intro h
    cases h
  · have hhead : headerLen = 24 := rfl
    have hlen : (bytes.drop 8).length = bytes.length - 8 := List.length_drop
    obtain ⟨v4, bs₁, hv4, hlen₁⟩ := word_total (bytes.drop 8) (by omega)
    obtain ⟨v6, bs₂, hv6, hlen₂⟩ := word_total bs₁ (by omega)
    obtain ⟨countries, bs₃, hcountries, hlen₃⟩ := word_total bs₂ (by omega)
    obtain ⟨reserved, bs₄, hreserved, -⟩ := word_total bs₃ (by omega)
    simp only [hv4, hv6, hcountries, hreserved, bind, Except.bind]
    split_ifs
    · intro h
      cases h
    · intro h
      cases h

/-- **No count leads past the end.** Whatever the header declares, decoding ends with a table or with a text. -/
theorem decode_total (bytes : List UInt8) : decode bytes ≠ .error .panic := by
  unfold decode
  cases hhead : parseHeader bytes with
  | error e =>
    intro h
    cases h
    exact parseHeader_total bytes hhead
  | ok r =>
    obtain ⟨head, rest⟩ := r
    simp only [bind, Except.bind]
    split_ifs with hlen
    · intro h
      cases h
    · rw [not_not] at hlen
      have hrest : rest.length = head.countries * 2 + (head.v4 + head.v6) * entryLen := by
        have hbytes := congrArg List.length (parseHeader_ok hhead).1
        simp only [List.length_append, length_toLe] at hbytes
        have hmagic : magic.length = 8 := rfl
        have hfixed : headerLen = 24 := rfl
        rw [hlen, Header.totalLen, hmagic, hfixed] at hbytes
        omega
      rw [Nat.add_mul] at hrest
      obtain ⟨countries, bs₁, hcountries, hlen₁⟩ := readCountries_total head.countries rest (by omega)
      obtain ⟨v4, bs₂, hv4, hlen₂⟩ := readRanges_total head.v4 bs₁ (by omega)
      obtain ⟨v6, bs₃, hv6, -⟩ := readRanges_total head.v6 bs₂ (by omega)
      simp only [hcountries, hv4, hv6]
      intro h
      cases h

/-- **The codec.** What is encoded decodes to the same table and is as long as its header implies; bytes that decode are
the encoding of their table, where the table has no more countries than an encoding may; and no byte string makes the
decoder read past its end. -/
theorem codec_canonical :
    (∀ t bytes, encode t = .ok bytes → decode bytes = .ok t ∧
      ∃ head rest, parseHeader bytes = .ok (head, rest) ∧ bytes.length = head.totalLen) ∧
    (∀ bytes t, decode bytes = .ok t → t.countries.length ≤ 65535 → encode t = .ok bytes) ∧
    ∀ bytes, decode bytes ≠ .error .panic := by
  refine ⟨fun t bytes h => ?_, fun bytes t h hcountries => encode_decode h hcountries, decode_total⟩
  have hdecode := decode_encode h
  obtain ⟨rest, hhead, hlen, -⟩ := decode_ok hdecode
  exact ⟨hdecode, _, rest, hhead, hlen⟩

end EspectralClient.Geoip
