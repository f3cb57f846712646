/-
The country table as an index of the rows it was built from: converting, encoding, decoding and looking up answers for
every address the code of the row that holds it.

A row here is a line that `parse_row` accepts and whose code is not `ZZ`. The result is about releases whose rows lie
apart and none of whose rows runs across an end of the IPv4-mapped block, which is what DB-IP publishes.

- `readRows_eq`: the loop over the lines sorts the accepted rows into the two sections.
- `parseCsv_section`: a section covers with each code what its rows cover.
- `index_faithful`: the whole way from the text to an answer.
-/
import EspectralClient.Engine.GeoCsv

namespace EspectralClient.Geoip

open EspectralClient.Lib
open EspectralClient.Lib.Bytes

/-- `MAX_CSV_BYTES`: a longer text is refused before it is converted -/
def maxCsvBytes : ℕ := 512 * 1024 * 1024

/-! ## What the text says -/

/-- an accepted row, with the field its code was read from -/
structure Row where
  range : RawRange
  v4 : Bool
  cc : List Char

/-- the row of a line that is one -/
def rowOf (line : List Char) : Option Row :=
  match splitn 3 ',' (trim line) with
  | [start, stop, cc] =>
    if eqIgnoreAsciiCase (asBytes (trim cc)) [0x5a, 0x5a] then none
    else (parseRow (trim start) (trim stop) cc).map fun p => ⟨p.1, p.2, cc⟩
  | _ => none

def rowsOf (csv : String) : List Row := (lines csv).filterMap rowOf

/-- the code of a row in upper case -/
def Row.code (row : Row) : String := .ofList ((trim row.cc).map Char.toUpper)

/-- no address is in two rows, and each row is inside the mapped block or outside of it -/
structure Clean (csv : String) : Prop where
  apart : (rowsOf csv).Pairwise fun a b => ∀ x, ¬ (a.range.Contains x ∧ b.range.Contains x)
  whole : ∀ row ∈ rowsOf csv, (∀ x, row.range.Contains x → Mapped x) ∨ ∀ x, row.range.Contains x → ¬ Mapped x

/-- a section in order: a range ends before the next starts, and neighbours of one country do not touch -/
structure Neat (t : GeoTable) (l : List GeoRange) : Prop where
  ascending : l.Pairwise fun a b => cmp a.start b.start = .lt ∧ cmp a.stop b.start = .lt
  apart : l.IsChain fun a b =>
    t.countries[a.country.toNat]? = t.countries[b.country.toNat]? → touches a.stop b.start = false

/-! ## The rows that are read -/

theorem rowOf_accepted {line : List Char} {row : Row} (h : rowOf line = some row) :
    Accepted row.range row.v4 row.cc := by
  unfold rowOf at h
  split at h
  · split_ifs at h
    obtain ⟨p, hp, rfl⟩ := Option.map_eq_some_iff.1 h
    exact parseRow_spec hp
  · cases h

theorem mem_rowsOf {csv : String} {row : Row} (h : row ∈ rowsOf csv) : Accepted row.range row.v4 row.cc := by
  obtain ⟨line, -, hline⟩ := List.mem_filterMap.1 h
  exact rowOf_accepted hline

/-- a line is read as a row when it is one -/
theorem readLine_row {line : List Char} {r : RawRange} {v4 : Bool} :
    readLine line = .row r v4 ↔ ∃ cc, rowOf line = some ⟨r, v4, cc⟩ := by
  unfold readLine rowOf
  by_cases hblank : trim line = []
  · rw [hblank]
    simp [splitn]
  · rw [if_neg hblank]
    generalize splitn 3 ',' (trim line) = fields
    rcases fields with _ | ⟨start, _ | ⟨stop, _ | ⟨cc, _ | ⟨more, rest⟩⟩⟩⟩
    · simp
    · simp
    · simp
    · dsimp only
      split_ifs with hzz
      · simp
      · cases hrow : parseRow (trim start) (trim stop) cc with
        | none => simp
        | some p =>
          obtain ⟨r', v4'⟩ := p
          simp
    · simp

/-- the rows of one section, in the order of their lines -/
def inSection (v4 : Bool) (rows : List Row) : List RawRange := (rows.filter fun row => row.v4 = v4).map Row.range

theorem add_lines (ls : List (List Char)) (rows : Rows) :
    (ls.foldl Rows.add rows).v4 = rows.v4 ++ inSection true (ls.filterMap rowOf) ∧
      (ls.foldl Rows.add rows).v6 = rows.v6 ++ inSection false (ls.filterMap rowOf) := by
  induction ls generalizing rows with
  | nil => simp [inSection]
  | cons line ls ih =>
    obtain ⟨h4, h6⟩ := ih (rows.add line)
    rw [List.foldl_cons, h4, h6]
    cases hrow : rowOf line with
    | none =>
      rw [List.filterMap_cons_none hrow]
      have hskip : (rows.add line).v4 = rows.v4 ∧ (rows.add line).v6 = rows.v6 := by
        unfold Rows.add
        cases hline : readLine line with
        | row r v4 =>
          obtain ⟨cc, hcc⟩ := readLine_row.1 hline
          rw [hrow] at hcc
          cases hcc
        | blank => exact ⟨rfl, rfl⟩
        | unknown => exact ⟨rfl, rfl⟩
        | malformed => exact ⟨rfl, rfl⟩
      rw [hskip.1, hskip.2]
      exact ⟨rfl, rfl⟩
    | some row =>
      obtain ⟨r, v4, cc⟩ := row
      have hline := readLine_row.2 ⟨cc, hrow⟩
      rw [List.filterMap_cons_some hrow]
      unfold Rows.add
      rw [hline]
      cases v4 <;> simp [inSection]

theorem readRows_eq (csv : String) :
    (readRows csv).v4 = inSection true (rowsOf csv) ∧ (readRows csv).v6 = inSection false (rowsOf csv) := by
  have h := add_lines (lines csv) ⟨[], [], 0⟩
  rwa [List.nil_append, List.nil_append] at h

theorem mem_inSection {v4 : Bool} {rows : List Row} {r : RawRange} :
    r ∈ inSection v4 rows ↔ ∃ row ∈ rows, row.v4 = v4 ∧ row.range = r := by
  simp [inSection, and_assoc]

theorem proper_inSection (v4 : Bool) (csv : String) :
    Ranges.Proper RawRange.lo RawRange.hi (inSection v4 (rowsOf csv)) := by
  intro r hr
  obtain ⟨row, hrow, -, rfl⟩ := mem_inSection.1 hr
  exact (mem_rowsOf hrow).proper

/-- every number of sixteen bytes is an address -/
theorem exists_num {x : ℕ} (h : x < 2 ^ 128) : ∃ a : Addr, num a = x := by
  refine ⟨toArray 16 (toBe 16 x), ?_⟩
  rw [num, toList_toArray (length_toBe 16 x), fromBe_toBe (lt_of_lt_of_le h (by norm_num))]

theorem apart_iff {a b : RawRange} :
    (∀ x, ¬ (a.Contains x ∧ b.Contains x)) ↔ Ranges.Apart RawRange.lo RawRange.hi a b := by
  constructor
  · intro h x hx
    have hlt : x < 2 ^ 128 := lt_of_le_of_lt hx.1.2 (num_lt a.stop)
    obtain ⟨y, rfl⟩ := exists_num hlt
    exact h y ⟨contains_iff.2 hx.1, contains_iff.2 hx.2⟩
  · intro h x hx
    exact h (num x) ⟨contains_iff.1 hx.1, contains_iff.1 hx.2⟩

theorem apart_inSection {csv : String} (h : Clean csv) (v4 : Bool) :
    (inSection v4 (rowsOf csv)).Pairwise (Ranges.Apart RawRange.lo RawRange.hi) := by
  refine List.pairwise_map.2 ((h.apart.filter _).imp fun {a b} hab => apart_iff.1 hab)

/-- a row that holds an address is in the section the address is looked up in -/
theorem section_of_contains {csv : String} (h : Clean csv) {row : Row} (hrow : row ∈ rowsOf csv) {x : Addr}
    (hx : row.range.Contains x) : row.v4 = decide (Mapped x) := by
  have hacc := mem_rowsOf hrow
  have hstart : row.range.Contains row.range.start := contains_iff.2 ⟨le_rfl, hacc.proper⟩
  have hstop : row.range.Contains row.range.stop := contains_iff.2 ⟨hacc.proper, le_rfl⟩
  rcases h.whole row hrow with hin | hout
  · rw [decide_eq_true (hin x hx)]
    exact hacc.section_iff.2 ⟨hin _ hstart, hin _ hstop⟩
  · rw [decide_eq_false (hout x hx)]
    exact Bool.eq_false_iff.2 fun hv => hout _ hstart (hacc.section_iff.1 hv).1

/-- rows that end before others start lie apart, and rows of the IPv4 section or past the mapped block are whole -/
theorem clean_of_ends {csv : String}
    (hapart : (rowsOf csv).Pairwise fun a b => a.range.hi < b.range.lo ∨ b.range.hi < a.range.lo)
    (hwhole : ∀ row ∈ rowsOf csv, row.v4 = true ∨ 2 ^ 48 ≤ row.range.lo) : Clean csv := by
  refine ⟨hapart.imp fun {a b} hab x hx => ?_, fun row hrow => ?_⟩
  · have ha := contains_iff.1 hx.1
    have hb := contains_iff.1 hx.2
    have := ha.1
    have := ha.2
    have := hb.1
    have := hb.2
    omega
  · rcases hwhole row hrow with hv4 | hpast
    · obtain ⟨hstart, hstop⟩ := (mem_rowsOf hrow).section_iff.1 hv4
      refine Or.inl fun x hx => ?_
      obtain ⟨hlo, hhi⟩ := contains_iff.1 hx
      rw [mapped_iff] at hstart hstop ⊢
      exact le_antisymm (hstop ▸ Nat.div_le_div_right hhi) (hstart ▸ Nat.div_le_div_right hlo)
    · refine Or.inr fun x hx => ?_
      obtain ⟨hlo, -⟩ := contains_iff.1 hx
      rw [mapped_iff]
      omega

/-! ## A section of the table -/

/-- the rows of a section after merging -/
def mergedRows (csv : String) (v4 : Bool) : List RawRange := merge (inSection v4 (rowsOf csv))

theorem countries_parseCsv (csv : String) :
    (parseCsv csv).countries = codesOf (mergedRows csv true ++ mergedRows csv false) := by
  obtain ⟨h4, h6⟩ := readRows_eq csv
  unfold parseCsv mergedRows
  dsimp only
  rw [h4, h6]

theorem ranges_parseCsv (csv : String) (v4 : Bool) :
    (parseCsv csv).ranges v4 = (mergedRows csv v4).map (toRange (parseCsv csv).countries) := by
  obtain ⟨h4, h6⟩ := readRows_eq csv
  rw [countries_parseCsv]
  unfold parseCsv GeoTable.ranges mergedRows
  dsimp only
  rw [h4, h6]
  cases v4 <;> rfl

theorem merged_mergedRows {csv : String} (h : Clean csv) (v4 : Bool) :
    Ranges.Merged RawRange.lo RawRange.hi RawRange.cc (inSection v4 (rowsOf csv)) (mergedRows csv v4) :=
  merge_spec (proper_inSection v4 csv) (apart_inSection h v4)

theorem mem_countries {csv : String} {v4 : Bool} {r : RawRange} (hr : r ∈ mergedRows csv v4) :
    r.cc ∈ (parseCsv csv).countries := by
  rw [countries_parseCsv]
  refine mem_codesOf.2 ⟨r, List.mem_append.2 ?_, rfl⟩
  cases v4 with
  | true => exact Or.inl hr
  | false => exact Or.inr hr

theorem countries_ascending (csv : String) : (parseCsv csv).countries.Pairwise fun a b => num a < num b := by
  rw [countries_parseCsv]
  exact codesOf_ascending _

section Table

variable {csv : String} (h : Clean csv) (hlen : (parseCsv csv).countries.length ≤ 65535)

include hlen in
theorem country_mergedRows {v4 : Bool} {r : RawRange} (hr : r ∈ mergedRows csv v4) :
    (parseCsv csv).countries[(toRange (parseCsv csv).countries r).country.toNat]? = some r.cc :=
  country_toRange (countries_ascending csv) hlen (mem_countries hr)

include h in
theorem proper_ranges (v4 : Bool) : Ranges.Proper GeoRange.lo GeoRange.hi ((parseCsv csv).ranges v4) := by
  rw [ranges_parseCsv]
  intro g hg
  obtain ⟨r, hr, rfl⟩ := List.mem_map.1 hg
  exact (merged_mergedRows h v4).proper r hr

include h in
theorem ascending_ranges (v4 : Bool) : Ranges.Ascending GeoRange.lo GeoRange.hi ((parseCsv csv).ranges v4) := by
  rw [ranges_parseCsv]
  exact List.pairwise_map.2 (merged_mergedRows h v4).ascending

include h hlen in
theorem neat_ranges (v4 : Bool) : Neat (parseCsv csv) ((parseCsv csv).ranges v4) := by
  constructor
  · refine (ascending_ranges h v4).imp_of_mem fun {a b} ha _ hab => ⟨?_, cmp_lt.2 hab⟩
    exact cmp_lt.2 (lt_of_le_of_lt (proper_ranges h v4 a ha) hab)
  · rw [ranges_parseCsv, List.isChain_map]
    refine (merged_mergedRows h v4).separate.imp_of_mem_imp fun a b ha hb hab hcountry => ?_
    rw [country_mergedRows hlen ha, country_mergedRows hlen hb] at hcountry
    have hgap := hab (Option.some.inj hcountry)
    rw [← Bool.not_eq_true, touches_iff]
    exact not_le.2 hgap

include h hlen in
/-- **What a section covers.** A range of the section holds the number and stands for the code when a row of the
section does. -/
theorem parseCsv_section (v4 : Bool) (x : ℕ) (code : String) :
    (∃ g ∈ (parseCsv csv).ranges v4, Ranges.Has GeoRange.lo GeoRange.hi g x ∧ (parseCsv csv).code g = some code) ↔
      ∃ r ∈ inSection v4 (rowsOf csv), Ranges.Has RawRange.lo RawRange.hi r x ∧ fromUtf8Lossy r.cc.toList = code := by
  have hcovers := (merged_mergedRows h v4).covers
  rw [ranges_parseCsv]
  constructor
  · rintro ⟨g, hg, hx, hcode⟩
    obtain ⟨r, hr, rfl⟩ := List.mem_map.1 hg
    rw [GeoTable.code, country_mergedRows hlen hr] at hcode
    obtain ⟨r', hr', hx', hcc⟩ := (hcovers r.cc x).1 ⟨r, hr, hx, rfl⟩
    exact ⟨r', hr', hx', by rw [hcc]; exact Option.some.inj hcode⟩
  · rintro ⟨r, hr, hx, hcode⟩
    obtain ⟨r', hr', hx', hcc⟩ := (hcovers r.cc x).2 ⟨r, hr, hx, rfl⟩
    refine ⟨_, List.mem_map_of_mem hr', hx', ?_⟩
    rw [GeoTable.code, country_mergedRows hlen hr', hcc, Option.map_some, hcode]

include h hlen in
theorem lookup_parseCsv (ip : IpAddr) (code : String) :
    lookup (parseCsv csv) ip = some code ↔
      ∃ row ∈ rowsOf csv, row.range.Contains (point ip) ∧ row.code = code := by
  have hfind := @lookup_covering (parseCsv csv) ip code (proper_ranges h _) (ascending_ranges h _)
  rw [hfind, parseCsv_section h hlen, sectionKey_eq]
  constructor
  · rintro ⟨r, hr, hx, hcode⟩
    obtain ⟨row, hrow, -, rfl⟩ := mem_inSection.1 hr
    refine ⟨row, hrow, contains_iff.2 hx, ?_⟩
    rw [Row.code, ← (mem_rowsOf hrow).text, hcode]
  · rintro ⟨row, hrow, hx, hcode⟩
    refine ⟨row.range, mem_inSection.2 ⟨row, hrow, section_of_contains h hrow hx, rfl⟩, contains_iff.1 hx, ?_⟩
    rw [(mem_rowsOf hrow).text, ← hcode, Row.code]

end Table

/-! ## Encoding fits -/

theorem length_linesFrom (cur s : List Char) :
    (linesFrom cur s).length ≤ s.length + if cur = [] then 0 else 1 := by
  induction s generalizing cur with
  | nil =>
    unfold linesFrom
    split_ifs <;> simp
  | cons c s ih =>
    unfold linesFrom
    split_ifs with hc hcur
    · have := ih []
      simp only [List.length_cons, if_true] at this ⊢
      omega
    · have := ih []
      simp only [List.length_cons, if_true] at this ⊢
      omega
    · have := ih (cur ++ [c])
      rw [if_neg (by simp)] at this
      simpa using this
    · have := ih (cur ++ [c])
      rw [if_neg (by simp)] at this
      rw [List.length_cons]
      omega

theorem length_le_utf8 (s : String) : s.toList.length ≤ (utf8 s).length := by
  unfold utf8
  induction s.toList with
  | nil => simp
  | cons c l ih =>
    have hpos : 0 < (String.utf8EncodeChar c).length := String.length_utf8EncodeChar c ▸ c.utf8Size_pos
    rw [List.flatMap_cons, List.length_append, List.length_cons]
    omega

/-- no section has more ranges than the text has bytes -/
theorem length_ranges (csv : String) (v4 : Bool) : ((parseCsv csv).ranges v4).length ≤ (utf8 csv).length := by
  have hmerge : (mergedRows csv v4).length ≤ (inSection v4 (rowsOf csv)).length :=
    (Ranges.length_merged joins extend _).trans_eq (List.length_insertionSort rowLe _)
  have hsection : (inSection v4 (rowsOf csv)).length ≤ (rowsOf csv).length := by
    rw [inSection, List.length_map]
    exact List.length_filter_le _ _
  have hrows : (rowsOf csv).length ≤ (lines csv).length := List.length_filterMap_le _ _
  have hlines : (lines csv).length ≤ csv.toList.length := length_linesFrom [] csv.toList
  have hutf8 := length_le_utf8 csv
  rw [ranges_parseCsv, List.length_map]
  omega

/-- merging keeps what each code covers, so the codes of a section are those of its rows -/
theorem upper_countries {csv : String} (h : Clean csv) :
    ∀ r ∈ mergedRows csv true ++ mergedRows csv false, ∀ b ∈ r.cc.toList, 0x41 ≤ b.toNat ∧ b.toNat ≤ 0x5a := by
  have hupper : ∀ v4, ∀ r ∈ mergedRows csv v4, ∀ b ∈ r.cc.toList, 0x41 ≤ b.toNat ∧ b.toNat ≤ 0x5a := by
    intro v4 r hr
    obtain ⟨r', hr', -, hcc⟩ := ((merged_mergedRows h v4).covers r.cc r.lo).1
      ⟨r, hr, ⟨le_rfl, (merged_mergedRows h v4).proper r hr⟩, rfl⟩
    obtain ⟨row, hrow, -, rfl⟩ := mem_inSection.1 hr'
    exact hcc ▸ (mem_rowsOf hrow).upper
  intro r hr
  rcases List.mem_append.1 hr with hr | hr
  · exact hupper true r hr
  · exact hupper false r hr

theorem length_countries {csv : String} (h : Clean csv) : (parseCsv csv).countries.length ≤ 676 := by
  rw [countries_parseCsv]
  exact length_codesOf (upper_countries h)

/-! ## The index -/

/-- **The table is a faithful index** of a text whose rows lie apart: it encodes when the text is no longer than what is
read from the network, and what is decoded answers for every address the code of the row that holds it. -/
theorem index_faithful (csv : String) (h : Clean csv) :
    ((utf8 csv).length ≤ maxCsvBytes → ∃ bytes, encode (parseCsv csv) = .ok bytes) ∧
      ∀ bytes, encode (parseCsv csv) = .ok bytes → ∃ t, decode bytes = .ok t ∧
        (∀ ip code, lookup t ip = some code ↔
          ∃ row ∈ rowsOf csv, row.range.Contains (point ip) ∧ row.code = code) ∧
        Neat t t.v4 ∧ Neat t t.v6 := by
  have hlen : (parseCsv csv).countries.length ≤ 65535 := (length_countries h).trans (by omega)
  constructor
  · intro hbytes
    have h4 : (parseCsv csv).v4.length ≤ (utf8 csv).length := length_ranges csv true
    have h6 : (parseCsv csv).v6.length ≤ (utf8 csv).length := length_ranges csv false
    have hcap : maxCsvBytes < 2 ^ 32 := by decide
    exact encode_ok hlen (by omega) (by omega)
  · intro bytes henc
    exact ⟨parseCsv csv, decode_encode henc, lookup_parseCsv h hlen, neat_ranges h hlen true,
      neat_ranges h hlen false⟩

/-- two neighbours of one country, a row of another in mapped form between them in the text, an unknown one, and IPv6 -/
def sampleCsv : String :=
  "1.0.0.0,1.0.0.9,AU\n::ffff:1.0.1.0,::ffff:1.0.1.9,cn\n1.0.0.10,1.0.0.19,au\n2.0.0.0,2.0.0.9,ZZ\n2001::,2001::f,JP"

theorem index_faithful_sample :
    (∃ bytes, encode (parseCsv sampleCsv) = .ok bytes) ∧
      lookup (parseCsv sampleCsv) (.v4 #v[1, 0, 0, 10]) = some "AU" ∧
      ∀ bytes, encode (parseCsv sampleCsv) = .ok bytes → ∃ t, decode bytes = .ok t ∧
        (∀ ip code, lookup t ip = some code ↔
          ∃ row ∈ rowsOf sampleCsv, row.range.Contains (point ip) ∧ row.code = code) ∧
        Neat t t.v4 ∧ Neat t t.v6 := by
  have hclean : Clean sampleCsv := clean_of_ends (by decide) (by decide)
  have h := index_faithful sampleCsv hclean
  exact ⟨h.1 (by decide), by decide, h.2⟩

end EspectralClient.Geoip
