/-
The conversion of `geoip.rs` from DB-IP's `start,end,CC` rows to a country table: rows are read line by line, sorted by
their first address, neighbours of one country are merged, and the codes become a sorted list that ranges point into.

- `num_increment`, `touches_iff`: adding one with carry, and what it means that two ranges touch.
- `parseRow_spec`: what an accepted row is.
- `merge_spec`: merging keeps what each country covers, in order and with a gap between neighbours of one country.
- `codes_spec`, `country_toRanges`: every code of a row is in the list once, and the index of a range finds it.
-/
import Mathlib.Data.List.DropRight
import Mathlib.Data.List.Destutter
import Mathlib.Data.List.Sort
import EspectralClient.Engine.GeoTable
import EspectralClient.Engine.ModsDir

namespace EspectralClient.Geoip

open EspectralClient.Lib
open EspectralClient.Lib.Bytes
open ModsDir (isWhitespace)

/-! ## Text -/

/-- `str::trim` -/
def trim (s : List Char) : List Char := List.rdropWhile isWhitespace (s.dropWhile isWhitespace)

/-- a carriage return before the end of a line belongs to it -/
def stripCr (s : List Char) : List Char := if s.getLast? = some '\r' then s.dropLast else s

/-- `str::lines`, after the characters of the line that is open -/
def linesFrom : List Char → List Char → List (List Char)
  | cur, [] => if cur = [] then [] else [cur]
  | cur, c :: s => if c = '\n' then stripCr cur :: linesFrom [] s else linesFrom (cur ++ [c]) s

def lines (s : String) : List (List Char) := linesFrom [] s.toList

/-- `str::splitn` -/
def splitn : ℕ → Char → List Char → List (List Char)
  | 0, _, _ => []
  | 1, _, s => [s]
  | n + 2, sep, s =>
    match s.dropWhile (· ≠ sep) with
    | [] => [s]
    | _ :: rest => s.takeWhile (· ≠ sep) :: splitn (n + 1) sep rest

/-- the UTF-8 bytes of a slice of text -/
def asBytes (s : List Char) : List UInt8 := s.flatMap String.utf8EncodeChar

def isAsciiAlphabetic (b : UInt8) : Bool := (0x41 ≤ b && b ≤ 0x5a) || (0x61 ≤ b && b ≤ 0x7a)

def toAsciiUppercase (b : UInt8) : UInt8 := if 0x61 ≤ b && b ≤ 0x7a then b - 0x20 else b

def eqIgnoreAsciiCase (a b : List UInt8) : Bool := a.map toAsciiUppercase = b.map toAsciiUppercase

/-- `Ipv4Addr::from_str`: a text longer than any address is refused unread -/
def parseIpv4 (s : List Char) : Option (Vector UInt8 4) :=
  if 15 < (asBytes s).length then none
  else
    match IpAddr.readIpv4Addr (asBytes s) with
    | some (addr, []) => some addr
    | _ => none

/-- `Ipv6Addr::from_str` -/
def parseIpv6 (s : List Char) : Option (Vector UInt16 8) :=
  match IpAddr.readIpv6Addr (asBytes s) with
  | some (addr, []) => some addr
  | _ => none

/-! ## Rows -/

structure RawRange where
  start : Addr
  stop : Addr
  cc : Vector UInt8 2
deriving DecidableEq, Repr

/-- the last byte first: one more, with carry; `none` when every byte was `ff` -/
def carry : List UInt8 → Option (List UInt8)
  | [] => none
  | b :: s => if b = 0xff then (carry s).map (0 :: ·) else some ((b + 1) :: s)

/-- big-endian + 1, `none` at `ff…ff` -/
def increment (v : Addr) : Option Addr := (carry v.toList.reverse).map fun out => toArray 16 out.reverse

/-- `next_start <= end + 1` -/
def touches (stop nextStart : Addr) : Bool :=
  match increment stop with
  | some e1 => cmp nextStart e1 ≠ .gt
  | none => true

/-- by start, then by end -/
def rowLe (a b : RawRange) : Prop := (cmp a.start b.start).then (cmp a.stop b.stop) ≠ .gt

instance : DecidableRel rowLe := fun a b => inferInstanceAs (Decidable ((cmp a.start b.start).then _ ≠ .gt))

def joins (prev r : RawRange) : Bool := prev.cc = r.cc && touches prev.stop r.start

def extend (prev r : RawRange) : RawRange := if cmp r.stop prev.stop = .gt then { prev with stop := r.stop } else prev

/-- sort by start and merge adjacent or overlapping ranges of the same country -/
def merge (rows : List RawRange) : List RawRange := Ranges.merged joins extend (rows.insertionSort rowLe)

/-- the addresses of a row, and whether they belong to the IPv4 section -/
def parseAddrs (start stop : List Char) : Option (Addr × Addr × Bool) :=
  if start.contains ':' then do
    let s ← parseIpv6 start
    let e ← parseIpv6 stop
    match toIpv4Mapped s, toIpv4Mapped e with
    | some s4, some e4 => some (mapped s4, mapped e4, true)
    | _, _ => some (octets s, octets e, false)
  else do
    let s ← parseIpv4 start
    let e ← parseIpv4 stop
    some (mapped s, mapped e, true)

/-- `(row, is_ipv4_section)`; `none` for a row that is not `addr,addr,CC` -/
def parseRow (start stop cc : List Char) : Option (RawRange × Bool) := do
  let (s, e, v4) ← parseAddrs start stop
  if cmp e s = .lt then none
  else
    match asBytes (trim cc) with
    | [c0, c1] =>
      if isAsciiAlphabetic c0 && isAsciiAlphabetic c1 then
        some (⟨s, e, #v[toAsciiUppercase c0, toAsciiUppercase c1]⟩, v4)
      else none
    | _ => none

/-- what one line of the file is to the converter -/
inductive Line where
  | blank
  | unknown
  | malformed
  | row (r : RawRange) (v4 : Bool)
deriving DecidableEq, Repr

def readLine (line : List Char) : Line :=
  let line := trim line
  if line = [] then .blank
  else
    match splitn 3 ',' line with
    | [start, stop, cc] =>
      -- "unknown": no flag rather than a wrong one
      if eqIgnoreAsciiCase (asBytes (trim cc)) [0x5a, 0x5a] then .unknown
      else
        match parseRow (trim start) (trim stop) cc with
        | some (r, v4) => .row r v4
        | none => .malformed
    | _ => .malformed

/-- the rows read so far, and how many lines were skipped -/
structure Rows where
  v4 : List RawRange
  v6 : List RawRange
  skipped : ℕ
deriving DecidableEq, Repr

def Rows.add (rows : Rows) (line : List Char) : Rows :=
  match readLine line with
  | .blank => rows
  | .unknown => rows
  | .malformed => { rows with skipped := rows.skipped + 1 }
  | .row r true => { rows with v4 := rows.v4 ++ [r] }
  | .row r false => { rows with v6 := rows.v6 ++ [r] }

def readRows (csv : String) : Rows := (lines csv).foldl Rows.add ⟨[], [], 0⟩

def codeLe (a b : Vector UInt8 2) : Prop := cmp a b ≠ .gt

instance : DecidableRel codeLe := fun a b => inferInstanceAs (Decidable (cmp a b ≠ .gt))

/-- the codes of the rows, sorted, each once -/
def codesOf (rows : List RawRange) : List (Vector UInt8 2) :=
  ((rows.map RawRange.cc).insertionSort codeLe).destutter (· ≠ ·)

def toRange (codes : List (Vector UInt8 2)) (r : RawRange) : GeoRange :=
  let i := match binarySearchBy (fun c => cmp c r.cc) codes with
    | .ok i => i
    | .error _ => 0
  ⟨r.start, r.stop, .ofNat i⟩

def parseCsv (csv : String) : GeoTable :=
  let rows := readRows csv
  let v4 := merge rows.v4
  let v6 := merge rows.v6
  let codes := codesOf (v4 ++ v6)
  ⟨codes, v4.map (toRange codes), v6.map (toRange codes)⟩

/-! ## Addresses -/

/-- the address is in `::ffff:0:0/96` -/
def Mapped (a : Addr) : Prop := a.toList.take 12 = mappedHead

instance (a : Addr) : Decidable (Mapped a) := inferInstanceAs (Decidable (a.toList.take 12 = mappedHead))

/-- the point an address stands for: an IPv4 address and its mapped form are one -/
def point : IpAddr → Addr
  | .v4 addr => mapped addr
  | .v6 addr => octets addr

theorem toList_mapped (addr : Vector UInt8 4) : (mapped addr).toList = mappedHead ++ addr.toList :=
  toList_toArray (by simp [mappedHead])

theorem mapped_mapped (addr : Vector UInt8 4) : Mapped (mapped addr) := by
  rw [Mapped, toList_mapped]
  exact List.take_left' rfl

theorem toIpv4Mapped_some {addr : Vector UInt16 8} {v4 : Vector UInt8 4} (h : toIpv4Mapped addr = some v4) :
    mapped v4 = octets addr := by
  unfold toIpv4Mapped at h
  dsimp only at h
  split_ifs at h with hhead
  cases h
  rw [← Vector.toList_inj, toList_mapped, toList_toArray (by simp), ← hhead, List.take_append_drop]

theorem toIpv4Mapped_none {addr : Vector UInt16 8} (h : toIpv4Mapped addr = none) : ¬ Mapped (octets addr) := by
  unfold toIpv4Mapped at h
  dsimp only at h
  split_ifs at h with hhead
  exact hhead

theorem sectionKey_eq (ip : IpAddr) : sectionKey ip = (point ip, decide (Mapped (point ip))) := by
  cases ip with
  | v4 addr =>
    rw [sectionKey, point, decide_eq_true (mapped_mapped addr)]
  | v6 addr =>
    have hpoint : point (.v6 addr) = octets addr := rfl
    rw [hpoint]
    unfold sectionKey
    dsimp only
    cases h : toIpv4Mapped addr with
    | none =>
      dsimp only
      rw [decide_eq_false (toIpv4Mapped_none h)]
    | some v4 =>
      dsimp only
      rw [← toIpv4Mapped_some h, decide_eq_true (mapped_mapped v4)]

/-- the mapped block is an interval of numbers -/
theorem mapped_iff (a : Addr) : Mapped a ↔ num a / 2 ^ 32 = 0xffff := by
  have hsplit : num a = fromBe (a.toList.take 12) * 256 ^ 4 + fromBe (a.toList.drop 12) := by
    conv_lhs => rw [num, ← List.take_append_drop 12 a.toList, fromBe_append]
    simp
  have hlow : fromBe (a.toList.drop 12) < 256 ^ 4 := by
    have h := fromBe_lt (a.toList.drop 12)
    rwa [List.length_drop, a.length_toList] at h
  have hdiv : num a / 2 ^ 32 = fromBe (a.toList.take 12) := by omega
  rw [hdiv, Mapped, ← fromBe_inj (a := a.toList.take 12) (b := mappedHead) (by simp [mappedHead])]
  exact Iff.rfl

theorem carry_spec (s : List UInt8) :
    match carry s with
    | some s' => s'.length = s.length ∧ fromLe s' = fromLe s + 1
    | none => fromLe s + 1 = 256 ^ s.length := by
  induction s with
  | nil => rfl
  | cons b s ih =>
    unfold carry
    by_cases hb : b = 0xff
    · subst hb
      rw [if_pos rfl]
      have h255 : (0xff : UInt8).toNat = 255 := rfl
      have h0 : (0 : UInt8).toNat = 0 := rfl
      cases hs : carry s with
      | none =>
        rw [hs] at ih
        dsimp only [Option.map] at ih ⊢
        rw [fromLe_cons, List.length_cons, pow_succ, h255]
        omega
      | some s' =>
        rw [hs] at ih
        obtain ⟨hlen, hnum⟩ := ih
        dsimp only [Option.map]
        rw [fromLe_cons, fromLe_cons, List.length_cons, List.length_cons, h255, h0]
        omega
    · rw [if_neg hb]
      have hlt : b.toNat ≠ 255 := fun h => hb (UInt8.toNat_inj.1 h)
      have h256 := b.toNat_lt
      have h1 : (1 : UInt8).toNat = 1 := rfl
      have hadd : (b + 1).toNat = b.toNat + 1 := by
        rw [UInt8.toNat_add, h1, Nat.mod_eq_of_lt (by omega)]
      dsimp only
      rw [fromLe_cons, fromLe_cons, hadd]
      simp
      omega

theorem num_increment (v : Addr) :
    match increment v with
    | some w => num w = num v + 1
    | none => num v + 1 = 2 ^ 128 := by
  have h := carry_spec v.toList.reverse
  have hnum : fromLe v.toList.reverse = num v := by rw [fromLe, List.reverse_reverse, num]
  unfold increment
  cases hc : carry v.toList.reverse with
  | none =>
    rw [hc] at h
    dsimp only [Option.map] at h ⊢
    rw [← hnum, h, List.length_reverse, v.length_toList]
    norm_num
  | some s =>
    rw [hc] at h
    obtain ⟨hlen, hs⟩ := h
    dsimp only [Option.map]
    rw [num, toList_toArray (by rw [List.length_reverse, hlen, List.length_reverse, v.length_toList]), ← hnum, ← hs,
      fromLe]

/-- **Touching** is starting no later than one past the end. -/
theorem touches_iff {stop nextStart : Addr} : touches stop nextStart = true ↔ num nextStart ≤ num stop + 1 := by
  have h := num_increment stop
  unfold touches
  cases hi : increment stop with
  | none =>
    rw [hi] at h
    have := num_lt nextStart
    dsimp only at h ⊢
    exact iff_of_true rfl (by omega)
  | some e1 =>
    rw [hi] at h
    dsimp only at h ⊢
    rw [decide_eq_true_iff, cmp_le, h]

/-! ## Rows -/

namespace RawRange

/-- the number of the first address -/
def lo (r : RawRange) : ℕ := num r.start

/-- the number of the last address -/
def hi (r : RawRange) : ℕ := num r.stop

/-- the address is in the row -/
def Contains (r : RawRange) (a : Addr) : Prop := cmp r.start a ≠ .gt ∧ cmp a r.stop ≠ .gt

end RawRange

theorem contains_iff {r : RawRange} {a : Addr} : r.Contains a ↔ Ranges.Has RawRange.lo RawRange.hi r (num a) :=
  and_congr cmp_le cmp_le

theorem upper_spec : ∀ c < 256, isAsciiAlphabetic (.ofNat c) = true →
    c < 0x80 ∧ 0x41 ≤ (toAsciiUppercase (.ofNat c)).toNat ∧ (toAsciiUppercase (.ofNat c)).toNat ≤ 0x5a ∧
      Char.ofNat (toAsciiUppercase (.ofNat c)).toNat = (Char.ofNat c).toUpper := by
  decide +kernel

/-- the text of a code: the letters of the field in upper case -/
theorem code_text {cc : List Char} {c0 c1 : UInt8} (hcc : asBytes cc = [c0, c1]) (h0 : isAsciiAlphabetic c0 = true)
    (h1 : isAsciiAlphabetic c1 = true) :
    fromUtf8Lossy [toAsciiUppercase c0, toAsciiUppercase c1] = .ofList (cc.map Char.toUpper) := by
  have hu0 := upper_spec c0.toNat c0.toNat_lt (by rwa [UInt8.ofNat_toNat])
  have hu1 := upper_spec c1.toNat c1.toNat_lt (by rwa [UInt8.ofNat_toNat])
  rw [UInt8.ofNat_toNat] at hu0 hu1
  -- the characters of the field are the two letters
  have hchars : cc = [.ofNat c0.toNat, .ofNat c1.toNat] := by
    have hread := fromUtf8Lossy_utf8 (.ofList cc)
    rw [utf8, String.toList_ofList, ← asBytes, hcc, fromUtf8Lossy_pair hu0.1 hu1.1] at hread
    exact (String.ofList_injective hread).symm
  rw [fromUtf8Lossy_pair (by omega) (by omega), hu0.2.2.2, hu1.2.2.2, hchars]
  rfl

/-- an accepted row -/
structure Accepted (r : RawRange) (v4 : Bool) (cc : List Char) : Prop where
  proper : r.lo ≤ r.hi
  section_iff : v4 = true ↔ Mapped r.start ∧ Mapped r.stop
  upper : ∀ c ∈ r.cc.toList, 0x41 ≤ c.toNat ∧ c.toNat ≤ 0x5a
  text : fromUtf8Lossy r.cc.toList = .ofList ((trim cc).map Char.toUpper)

theorem parseAddrs_section {start stop : List Char} {s e : Addr} {v4 : Bool}
    (h : parseAddrs start stop = some (s, e, v4)) : v4 = true ↔ Mapped s ∧ Mapped e := by
  unfold parseAddrs at h
  split_ifs at h with hcolon
  · obtain ⟨a, -, h⟩ := Option.bind_eq_some_iff.1 h
    obtain ⟨b, -, h⟩ := Option.bind_eq_some_iff.1 h
    cases ha : toIpv4Mapped a with
    | none =>
      rw [ha] at h
      simp only [Option.some.injEq, Prod.mk.injEq] at h
      obtain ⟨rfl, rfl, rfl⟩ := h
      exact iff_of_false Bool.false_ne_true fun hm => toIpv4Mapped_none ha hm.1
    | some a4 =>
      cases hb : toIpv4Mapped b with
      | none =>
        rw [ha, hb] at h
        simp only [Option.some.injEq, Prod.mk.injEq] at h
        obtain ⟨rfl, rfl, rfl⟩ := h
        exact iff_of_false Bool.false_ne_true fun hm => toIpv4Mapped_none hb hm.2
      | some b4 =>
        rw [ha, hb] at h
        simp only [Option.some.injEq, Prod.mk.injEq] at h
        obtain ⟨rfl, rfl, rfl⟩ := h
        exact iff_of_true rfl ⟨mapped_mapped a4, mapped_mapped b4⟩
  · obtain ⟨a, -, h⟩ := Option.bind_eq_some_iff.1 h
    obtain ⟨b, -, h⟩ := Option.bind_eq_some_iff.1 h
    simp only [Option.some.injEq, Prod.mk.injEq] at h
    obtain ⟨rfl, rfl, rfl⟩ := h
    exact iff_of_true rfl ⟨mapped_mapped a, mapped_mapped b⟩

theorem parseRow_spec {start stop cc : List Char} {r : RawRange} {v4 : Bool}
    (h : parseRow start stop cc = some (r, v4)) : Accepted r v4 cc := by
  unfold parseRow at h
  obtain ⟨⟨s, e, v⟩, haddrs, h⟩ := Option.bind_eq_some_iff.1 h
  dsimp only at h
  split_ifs at h with hlt
  split at h
  · rename_i c0 c1 hcc
    split_ifs at h with hletters
    cases h
    rw [Bool.and_eq_true] at hletters
    have hu0 := upper_spec c0.toNat c0.toNat_lt (by rw [UInt8.ofNat_toNat]; exact hletters.1)
    have hu1 := upper_spec c1.toNat c1.toNat_lt (by rw [UInt8.ofNat_toNat]; exact hletters.2)
    rw [UInt8.ofNat_toNat] at hu0 hu1
    refine ⟨not_lt.1 fun hle => hlt (cmp_lt.2 hle), parseAddrs_section haddrs, ?_, code_text hcc hletters.1 hletters.2⟩
    intro c hc
    rcases List.mem_pair.1 hc with rfl | rfl
    · exact ⟨hu0.2.1, hu0.2.2.1⟩
    · exact ⟨hu1.2.1, hu1.2.2.1⟩
  · cases h

/-! ## Merging -/

theorem rowLe_iff {a b : RawRange} : rowLe a b ↔ a.lo < b.lo ∨ a.lo = b.lo ∧ a.hi ≤ b.hi := by
  change (cmp a.start b.start).then (cmp a.stop b.stop) ≠ .gt ↔ num a.start < num b.start ∨
    num a.start = num b.start ∧ num a.stop ≤ num b.stop
  rw [← cmp_lt, num_inj, ← cmp_eq, ← cmp_le]
  cases cmp a.start b.start <;> simp [Ordering.then]

instance : Std.Total rowLe := ⟨fun a b => by rw [rowLe_iff, rowLe_iff]; omega⟩

instance : IsTrans RawRange rowLe := ⟨fun a b c => by rw [rowLe_iff, rowLe_iff, rowLe_iff]; omega⟩

theorem joins_extend : Ranges.Joins RawRange.lo RawRange.hi RawRange.cc joins extend where
  joins_iff a b := by
    rw [joins, Bool.and_eq_true, decide_eq_true_iff, touches_iff]
    rfl
  lo_extend a b := by
    unfold extend
    split_ifs <;> rfl
  hi_extend a b hlt hle := by
    have hgt : cmp b.stop a.stop = .gt := by
      rw [cmp_eq_compare]
      exact compare_gt_iff_gt.2 (lt_of_lt_of_le hlt hle)
    rw [extend, if_pos hgt]
    rfl
  label_extend a b := by
    unfold extend
    split_ifs <;> rfl

theorem apart_symm {a b : RawRange} (h : Ranges.Apart RawRange.lo RawRange.hi a b) :
    Ranges.Apart RawRange.lo RawRange.hi b a := fun x hx => h x hx.symm

/-- **Merging rows** that lie apart, in any order. -/
theorem merge_spec {rows : List RawRange} (hproper : Ranges.Proper RawRange.lo RawRange.hi rows)
    (hapart : rows.Pairwise (Ranges.Apart RawRange.lo RawRange.hi)) :
    Ranges.Merged RawRange.lo RawRange.hi RawRange.cc rows (merge rows) := by
  have hperm := List.perm_insertionSort rowLe rows
  have hproper' : Ranges.Proper RawRange.lo RawRange.hi (rows.insertionSort rowLe) :=
    fun r hr => hproper r (hperm.mem_iff.1 hr)
  have hsorted := (List.pairwise_insertionSort rowLe rows).imp fun {a b} h => show a.lo ≤ b.lo by
    have := rowLe_iff.1 h
    omega
  have hapart' := (hperm.pairwise_iff fun {a b} => apart_symm).2 hapart
  have hmerged := Ranges.merged_spec joins_extend hproper' (Ranges.ascending_of_sorted hproper' hsorted hapart')
  refine ⟨hmerged.proper, hmerged.ascending, hmerged.separate, fun c x => (hmerged.covers c x).trans ?_⟩
  exact exists_congr fun r => and_congr_left' hperm.mem_iff

/-! ## Codes -/

theorem codeLe_iff {a b : Vector UInt8 2} : codeLe a b ↔ num a ≤ num b := cmp_le

instance : Std.Total codeLe := ⟨fun a b => by rw [codeLe_iff, codeLe_iff]; omega⟩

instance : IsTrans (Vector UInt8 2) codeLe := ⟨fun a b c => by rw [codeLe_iff, codeLe_iff, codeLe_iff]; omega⟩

theorem mem_destutter' {α : Type*} [DecidableEq α] {a x : α} {l : List α} :
    x ∈ l.destutter' (· ≠ ·) a ↔ x = a ∨ x ∈ l := by
  induction l generalizing a with
  | nil => simp
  | cons b l ih =>
    by_cases h : a = b
    · subst h
      rw [List.destutter'_cons_neg _ (not_not.2 rfl), ih, List.mem_cons]
      tauto
    · rw [List.destutter'_cons_pos _ h, List.mem_cons, ih, List.mem_cons]

theorem mem_destutter {α : Type*} [DecidableEq α] {x : α} {l : List α} : x ∈ l.destutter (· ≠ ·) ↔ x ∈ l := by
  cases l with
  | nil => simp
  | cons a l => rw [List.destutter_cons', mem_destutter', List.mem_cons]

theorem mem_codesOf {rows : List RawRange} {c : Vector UInt8 2} : c ∈ codesOf rows ↔ ∃ r ∈ rows, r.cc = c := by
  rw [codesOf, mem_destutter, (List.perm_insertionSort codeLe _).mem_iff, List.mem_map]

theorem codesOf_ascending (rows : List RawRange) : (codesOf rows).Pairwise fun a b => num a < num b := by
  have hsorted := (List.pairwise_insertionSort codeLe (rows.map RawRange.cc)).sublist
    (List.destutter_sublist (· ≠ ·) _)
  have hne := List.isChain_destutter (· ≠ ·) ((rows.map RawRange.cc).insertionSort codeLe)
  -- neighbours are in order and differ, so they are strictly in order
  rw [List.isChain_iff_forall_rel_of_append_cons_cons] at hne
  have hchain : List.IsChain (fun a b => num a < num b) (codesOf rows) := by
    rw [List.isChain_iff_forall_rel_of_append_cons_cons]
    intro a b l₁ l₂ hl
    have hle := codeLe_iff.1 (List.isChain_iff_forall_rel_of_append_cons_cons.1 hsorted.isChain hl)
    have hneq : num a ≠ num b := fun heq => hne hl (num_inj.1 heq)
    omega
  exact List.pairwise_map.1 ((List.isChain_map num).2 hchain).pairwise

theorem binarySearch_code {codes : List (Vector UInt8 2)} (hasc : codes.Pairwise fun a b => num a < num b)
    {c : Vector UInt8 2} (hc : c ∈ codes) :
    ∃ i, binarySearchBy (fun x => cmp x c) codes = .ok i ∧ codes[i]? = some c := by
  obtain ⟨a, b, rfl⟩ := List.append_of_mem hc
  obtain ⟨-, hcb, hacb⟩ := List.pairwise_append.1 hasc
  refine ⟨a.length, binarySearchBy_ok (fun y hy => cmp_lt.2 (hacb y hy c List.mem_cons_self)) (cmp_eq.2 rfl)
    (fun y hy => ?_), by simp⟩
  rw [cmp_eq_compare]
  exact compare_gt_iff_gt.2 ((List.pairwise_cons.1 hcb).1 y hy)

/-- **The index of a range finds its code.** -/
theorem country_toRange {codes : List (Vector UInt8 2)} (hasc : codes.Pairwise fun a b => num a < num b)
    (hlen : codes.length ≤ 65535) {r : RawRange} (hr : r.cc ∈ codes) :
    codes[(toRange codes r).country.toNat]? = some r.cc := by
  obtain ⟨i, hi, hget⟩ := binarySearch_code hasc hr
  have hlt : i < codes.length := (List.getElem?_eq_some_iff.1 hget).1
  have hcountry : (toRange codes r).country = .ofNat i := by rw [toRange, hi]
  rw [hcountry, UInt16.toNat_ofNat', Nat.mod_eq_of_lt (by omega), hget]

/-- every pair of upper case letters -/
def letterPairs : List (Vector UInt8 2) :=
  (List.range 26).flatMap fun i => (List.range 26).map fun j => #v[.ofNat (0x41 + i), .ofNat (0x41 + j)]

theorem mem_letterPairs {cc : Vector UInt8 2} (h : ∀ b ∈ cc.toList, 0x41 ≤ b.toNat ∧ b.toNat ≤ 0x5a) :
    cc ∈ letterPairs := by
  have h0 := h cc[0] (by simp [Vector.mem_toList_iff])
  have h1 := h cc[1] (by simp [Vector.mem_toList_iff])
  refine List.mem_flatMap.2 ⟨cc[0].toNat - 0x41, List.mem_range.2 (by omega),
    List.mem_map.2 ⟨cc[1].toNat - 0x41, List.mem_range.2 (by omega), ?_⟩⟩
  rw [Nat.add_sub_cancel' h0.1, Nat.add_sub_cancel' h1.1, UInt8.ofNat_toNat, UInt8.ofNat_toNat]
  apply Vector.ext
  intro i hi
  match i, hi with
  | 0, _ => rfl
  | 1, _ => rfl

theorem length_codesOf {rows : List RawRange}
    (h : ∀ r ∈ rows, ∀ b ∈ r.cc.toList, 0x41 ≤ b.toNat ∧ b.toNat ≤ 0x5a) : (codesOf rows).length ≤ 676 := by
  have hnodup : (codesOf rows).Nodup := (codesOf_ascending rows).imp fun {a b} hlt heq => by
    rw [heq] at hlt
    exact Nat.lt_irrefl _ hlt
  have hsub : codesOf rows ⊆ letterPairs := fun c hc => by
    obtain ⟨r, hr, rfl⟩ := mem_codesOf.1 hc
    exact mem_letterPairs (h r hr)
  have hpairs : letterPairs.length = 676 := by simp [letterPairs]
  exact (hnodup.subperm hsub).length_le.trans_eq hpairs

end EspectralClient.Geoip
