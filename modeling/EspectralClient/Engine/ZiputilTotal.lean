/-
What the ZIP reader does with any archive.

- `need_ends`, `get_ends`: a number or a slice is read only where the archive has it.
- `findEocd_ends`, `scanCentralDirectory_ends`, `entryPayload_ends`: each part ends with an error of the reader or with
  what the format says, and no sum of header fields leaves 64 bits.
- `read_zip_entry_total`: the three ends of reading an entry.
-/
import EspectralClient.Lib.Fallible
import EspectralClient.Engine.Ziputil

namespace EspectralClient.Ziputil

open Lib.Bytes (fromLe fromLe_lt fromUtf8Lossy)
open Lib.Fallible

/-! ## The format -/

/-- the number of `w` bytes at `off` -/
def field (buf : List UInt8) (w off : ℕ) : ℕ := fromLe (between buf off (off + w))

/-- the last record of the end of the directory, and what it says -/
structure IsEocd (buf : List UInt8) (i total cdOffset cdSize : ℕ) : Prop where
  window : buf.length - 65557 ≤ i
  inside : i + 22 ≤ buf.length
  signature : field buf 4 i = sigEocd
  last : ∀ j, i < j → j + 22 ≤ buf.length → field buf 4 j ≠ sigEocd
  total_eq : total = field buf 2 (i + 10)
  cdSize_eq : cdSize = field buf 4 (i + 12)
  cdOffset_eq : cdOffset = field buf 4 (i + 16)

/-- the record at `off` of a directory that ends at `stop`, and where the next one begins -/
structure IsCentral (buf : List UInt8) (stop off : ℕ) (e : Entry) (next : ℕ) : Prop where
  inside : off + 46 ≤ stop
  name_inside : off + 46 + field buf 2 (off + 28) ≤ buf.length
  signature : field buf 4 off = sigCentral
  name : e.name = fromUtf8Lossy (between buf (off + 46) (off + 46 + field buf 2 (off + 28)))
  method : e.method = field buf 2 (off + 10)
  compSize : e.compSize = field buf 4 (off + 20)
  localOffset : e.localOffset = field buf 4 (off + 42)
  next_eq : next = off + (46 + field buf 2 (off + 28) + field buf 2 (off + 30) + field buf 2 (off + 32))

/-- records one after another -/
inductive Records (buf : List UInt8) (stop : ℕ) : ℕ → List Entry → Prop where
  | nil (off : ℕ) : Records buf stop off []
  | cons {off next : ℕ} {e : Entry} {rest : List Entry} (hrecord : IsCentral buf stop off e next)
      (hrest : Records buf stop next rest) : Records buf stop off (e :: rest)

/-- the entries are the records of the directory, as many as its end counts -/
def IsDirectory (buf : List UInt8) (entries : List Entry) : Prop :=
  ∃ i total cdOffset cdSize, IsEocd buf i total cdOffset cdSize ∧ entries.length = total ∧
    Records buf (cdOffset + cdSize) cdOffset entries

/-- where the data of an entry begins, past its local header -/
def payloadStart (buf : List UInt8) (e : Entry) : ℕ :=
  e.localOffset + 30 + field buf 2 (e.localOffset + 26) + field buf 2 (e.localOffset + 28)

structure IsPayload (buf : List UInt8) (e : Entry) (data : List UInt8) : Prop where
  signature : field buf 4 e.localOffset = sigLocal
  inside : payloadStart buf e + e.compSize ≤ buf.length
  data_eq : data = between buf (payloadStart buf e) (payloadStart buf e + e.compSize)

/-- what comes out of the entry's data -/
def IsOutput (dec : Decoder) (e : Entry) (data out : List UInt8) : Prop :=
  (e.method = 0 ∧ out = data) ∨ (e.method = 8 ∧ dec.whole data = some out)

/-- an error of the reader, and no panic -/
def Failed (s : Stop) : Prop := ∃ e, s = .err e

/-! ## Numbers and slices -/

variable {buf : Buffer} {off k : ℕ}

theorem field_lt (buf : List UInt8) (w off : ℕ) : field buf w off < 256 ^ w := by
  have hlength : (between buf off (off + w)).length ≤ w := by
    rw [between, List.length_drop, List.length_take]
    omega
  calc field buf w off < 256 ^ (between buf off (off + w)).length := fromLe_lt _
    _ ≤ 256 ^ w := Nat.pow_le_pow_right (by decide) hlength

theorem field_two_lt (buf : List UInt8) (off : ℕ) : field buf 2 off < 65536 := field_lt buf 2 off

theorem field_four_lt (buf : List UInt8) (off : ℕ) : field buf 4 off < 4294967296 := field_lt buf 4 off

theorem add_ends {a b : ℕ} (h : a + b < 2 ^ 64) : Ends Failed (fun n => n = a + b) (add a b) := by
  rw [add, if_pos h]
  exact rfl

theorem okOr_ends {α : Type} (text : String) (o : Option α) :
    Ends Failed (fun a => o = some a) (okOr (corrupt text) o) := by
  cases o with
  | none => exact ⟨_, rfl⟩
  | some a => exact rfl

theorem get_eq_some {a b : ℕ} {bs : List UInt8} (h : get buf a b = some bs) :
    b ≤ buf.val.length ∧ bs = between buf.val a b := by
  unfold get at h
  split_ifs at h with hab
  cases h
  exact ⟨hab.2, rfl⟩

theorem wordLe_ends {w : ℕ} (h : off + w < 2 ^ 64) :
    Ends Failed (fun r => r = if off + w ≤ buf.val.length then some (field buf.val w off) else none)
      (wordLe w buf off) := by
  refine (add_ends h).bind fun stop hstop => ?_
  subst hstop
  change Option.map fromLe (get buf off (off + w)) = _
  unfold get
  split_ifs with hab hle hle
  · rfl
  · exact absurd hab.2 hle
  · exact absurd ⟨Nat.le_add_right off w, hle⟩ hab
  · rfl

theorem need16_ends {text : String} (h : off + k + 2 < 2 ^ 64) :
    Ends Failed (fun n => off + k + 2 ≤ buf.val.length ∧ n = field buf.val 2 (off + k))
      (need16 (corrupt text) buf off k) := by
  refine (add_ends (by omega)).bind fun p hp => ?_
  subst hp
  refine (wordLe_ends h).bind fun r hr => ?_
  refine (okOr_ends text r).mono fun n hn => ?_
  subst hn
  split_ifs at hr with hle
  exact ⟨hle, Option.some.inj hr⟩

theorem need32_ends {text : String} (h : off + k + 4 < 2 ^ 64) :
    Ends Failed (fun n => off + k + 4 ≤ buf.val.length ∧ n = field buf.val 4 (off + k))
      (need32 (corrupt text) buf off k) := by
  refine (add_ends (by omega)).bind fun p hp => ?_
  subst hp
  refine (wordLe_ends h).bind fun r hr => ?_
  refine (okOr_ends text r).mono fun n hn => ?_
  subst hn
  split_ifs at hr with hle
  exact ⟨hle, Option.some.inj hr⟩

/-! ## The end of the directory -/

theorem readEocd_ends {i : ℕ} (hwindow : buf.val.length - 65557 ≤ i) (hinside : i + 22 ≤ buf.val.length)
    (hsignature : field buf.val 4 i = sigEocd)
    (hlast : ∀ j, i < j → j + 22 ≤ buf.val.length → field buf.val 4 j ≠ sigEocd) :
    Ends Failed (fun r => ∃ i, IsEocd buf.val i r.1 r.2.1 r.2.2) (readEocd buf i) := by
  have hbound := buf.property
  refine (need16_ends (by omega)).bind fun total htotal => ?_
  refine (need32_ends (by omega)).bind fun cdSize hsize => ?_
  refine (need32_ends (by omega)).bind fun cdOffset hoffset => ?_
  exact ⟨i, hwindow, hinside, hsignature, hlast, htotal.2, hsize.2, hoffset.2⟩

theorem findEocdFrom_ends {i windowStart : ℕ} (hstart : windowStart = buf.val.length - 65557) (hwindow : windowStart ≤ i)
    (hinside : i + 22 ≤ buf.val.length)
    (hlast : ∀ j, i < j → j + 22 ≤ buf.val.length → field buf.val 4 j ≠ sigEocd) :
    Ends Failed (fun r => ∃ i, IsEocd buf.val i r.1 r.2.1 r.2.2) (findEocdFrom buf windowStart i) := by
  have hbound := buf.property
  induction i with
  | zero =>
    rw [findEocdFrom]
    refine (wordLe_ends (by omega)).bind fun r hr => ?_
    rw [if_pos (by omega)] at hr
    split_ifs with hsig
    · refine readEocd_ends (hstart ▸ hwindow) hinside ?_ hlast
      exact Option.some.inj (hr.symm.trans hsig)
    · exact ⟨_, rfl⟩
  | succ i ih =>
    rw [findEocdFrom]
    refine (wordLe_ends (by omega)).bind fun r hr => ?_
    rw [if_pos (by omega)] at hr
    split_ifs with hsig hfirst
    · refine readEocd_ends (hstart ▸ hwindow) hinside ?_ hlast
      exact Option.some.inj (hr.symm.trans hsig)
    · exact ⟨_, rfl⟩
    · refine ih (by omega) (by omega) fun j hj hle => ?_
      rcases Nat.eq_or_lt_of_le hj with rfl | hj
      · intro heq
        exact hsig (hr.trans (congrArg some heq))
      · exact hlast j hj hle

theorem findEocd_ends (buf : Buffer) :
    Ends Failed (fun r => ∃ i, IsEocd buf.val i r.1 r.2.1 r.2.2) (findEocd buf) := by
  unfold findEocd
  split_ifs with hshort
  · exact ⟨_, rfl⟩
  · exact findEocdFrom_ends rfl (by omega) (by omega) fun j hj hle => by omega

/-! ## The directory -/

/-- no field of a record is so large that the offsets leave 64 bits -/
theorem readCentral_ends {stop : ℕ} (hoff : off < 2 ^ 34) :
    Ends Failed (fun r => IsCentral buf.val stop off r.1 r.2) (readCentral buf off stop) := by
  refine (add_ends (by omega)).bind fun p hp => ?_
  subst hp
  split_ifs with hinside
  · exact ⟨_, rfl⟩
  refine (wordLe_ends (by omega)).bind fun r hr => ?_
  split_ifs with hsig
  · exact ⟨_, rfl⟩
  rw [not_not] at hsig
  subst hr
  have hsignature : field buf.val 4 off = sigCentral := by
    split_ifs at hsig
    exact Option.some.inj hsig
  refine (need16_ends (by omega)).bind fun method hmethod => ?_
  refine (need32_ends (by omega)).bind fun compSize hsize => ?_
  refine (need16_ends (by omega)).bind fun nameLen hname => ?_
  refine (need16_ends (by omega)).bind fun extraLen hextra => ?_
  refine (need16_ends (by omega)).bind fun commentLen hcomment => ?_
  refine (need32_ends (by omega)).bind fun localOffset hoffset => ?_
  have hnameLt := field_two_lt buf.val (off + 28)
  have hextraLt := field_two_lt buf.val (off + 30)
  have hcommentLt := field_two_lt buf.val (off + 32)
  refine (add_ends (by omega)).bind fun start hstart => ?_
  subst hstart
  refine (add_ends (by omega)).bind fun nameEnd hnameEnd => ?_
  subst hnameEnd
  refine (okOr_ends _ _).bind fun nameBytes hbytes => ?_
  obtain ⟨hle, rfl⟩ := get_eq_some hbytes
  refine (add_ends (by omega)).bind fun n1 hn1 => ?_
  refine (add_ends (by omega)).bind fun n2 hn2 => ?_
  refine (add_ends (by omega)).bind fun n3 hn3 => ?_
  refine (add_ends (by omega)).bind fun next hnext => ?_
  subst hn1 hn2 hn3
  rw [hname.2] at hle
  refine ⟨by omega, hle, hsignature, ?_, hmethod.2, hsize.2, hoffset.2, ?_⟩
  · rw [hname.2]
  · rw [← hname.2, ← hextra.2, ← hcomment.2]
    exact hnext

theorem scanFrom_ends {stop left : ℕ} (hstop : stop < 2 ^ 33) (hoff : off < 2 ^ 34) :
    Ends Failed (fun entries => entries.length = left ∧ Records buf.val stop off entries)
      (scanFrom buf stop left off) := by
  induction left generalizing off with
  | zero => exact ⟨rfl, .nil off⟩
  | succ left ih =>
    rw [scanFrom]
    refine (readCentral_ends hoff).bind fun r hr => ?_
    have hname := field_two_lt buf.val (off + 28)
    have hextra := field_two_lt buf.val (off + 30)
    have hcomment := field_two_lt buf.val (off + 32)
    have hinside := hr.inside
    have hnext := hr.next_eq
    refine (ih (by omega)).bind fun rest hrest => ?_
    exact ⟨congrArg Nat.succ hrest.1, .cons hr hrest.2⟩

theorem scanCentralDirectory_ends (buf : Buffer) :
    Ends Failed (IsDirectory buf.val) (scanCentralDirectory buf) := by
  refine (findEocd_ends buf).bind fun r hr => ?_
  obtain ⟨total, cdOffset, cdSize⟩ := r
  obtain ⟨i, heocd⟩ := hr
  have hsize : cdSize < 4294967296 := heocd.cdSize_eq.trans_lt (field_four_lt buf.val (i + 12))
  have hoffset : cdOffset < 4294967296 := heocd.cdOffset_eq.trans_lt (field_four_lt buf.val (i + 16))
  refine (add_ends (by omega)).bind fun stop hstop => ?_
  subst hstop
  refine (scanFrom_ends (by omega) (by omega)).mono fun entries hentries => ?_
  exact ⟨i, total, cdOffset, cdSize, heocd, hentries.1, hentries.2⟩

theorem Records.mem {buf : List UInt8} {stop off : ℕ} {entries : List Entry} (h : Records buf stop off entries)
    {e : Entry} (he : e ∈ entries) : ∃ off next, IsCentral buf stop off e next := by
  induction h with
  | nil off => cases he
  | cons hrecord _ ih =>
    rcases List.mem_cons.1 he with rfl | he
    · exact ⟨_, _, hrecord⟩
    · exact ih he

/-! ## One entry -/

theorem entryPayload_ends {e : Entry} (hoffset : e.localOffset < 4294967296) (hsize : e.compSize < 4294967296) :
    Ends Failed (IsPayload buf.val e) (entryPayload buf e) := by
  refine (add_ends (by omega)).bind fun p hp => ?_
  subst hp
  split_ifs with hshort
  · exact ⟨_, rfl⟩
  refine (wordLe_ends (by omega)).bind fun r hr => ?_
  split_ifs with hsig
  · exact ⟨_, rfl⟩
  rw [not_not] at hsig
  subst hr
  rw [if_pos (by omega)] at hsig
  have hname := field_two_lt buf.val (e.localOffset + 26)
  have hextra := field_two_lt buf.val (e.localOffset + 28)
  refine (add_ends (by omega)).bind fun p hp => ?_
  subst hp
  refine (wordLe_ends (by omega)).bind fun nameLen hnameLen => ?_
  refine (add_ends (by omega)).bind fun p hp => ?_
  subst hp
  refine (wordLe_ends (by omega)).bind fun extraLen hextraLen => ?_
  rw [if_pos (by omega)] at hnameLen hextraLen
  subst hnameLen hextraLen
  refine (add_ends (by omega)).bind fun p hp => ?_
  subst hp
  refine (add_ends (by rw [Option.getD_some]; omega)).bind fun p hp => ?_
  subst hp
  refine (add_ends (by rw [Option.getD_some, Option.getD_some]; omega)).bind fun start hstart => ?_
  refine (add_ends (by rw [hstart, Option.getD_some, Option.getD_some]; omega)).bind fun stop hstop => ?_
  have hpayload : start = payloadStart buf.val e := hstart
  subst hpayload hstop
  split_ifs with htruncated
  · exact ⟨_, rfl⟩
  have hle := Nat.le_of_not_lt htruncated
  unfold index get
  rw [if_pos ⟨Nat.le_add_right _ _, hle⟩]
  exact ⟨Option.some.inj hsig, hle, rfl⟩

theorem decompress_ends (dec : Decoder) (e : Entry) {data : List UInt8} (hdata : data.length < 2 ^ 63) (max : UInt64) :
    Ends Failed (fun out => out.length ≤ max.toNat ∧ IsOutput dec e data out) (decompress dec e data max) := by
  have hmax : max.toNat < 2 ^ 64 := max.toNat_lt
  -- what is read from the entry is all of it when it stays below the limit
  have hread : Ends Failed
      (fun out => out.length ≤ max.toNat → IsOutput dec e data out)
      (readEntry dec e data (min (max.toNat + 1) (2 ^ 64 - 1))) := by
    unfold readEntry
    split_ifs with hstored hdeflated
    · intro hle
      refine .inl ⟨hstored, ?_⟩
      rw [List.length_take] at hle
      exact List.take_of_length_le (by omega)
    · cases hout : dec.read data (min (max.toNat + 1) (2 ^ 64 - 1)) with
      | error text => exact ⟨_, rfl⟩
      | ok out =>
        intro hle
        have hmemory := out.property
        have hle' : out.val.length ≤ max.toNat := hle
        exact .inr ⟨hdeflated, dec.read_whole _ _ _ hout (by omega)⟩
    · exact ⟨_, rfl⟩
  refine hread.bind fun out hout => ?_
  split_ifs with hlarge
  · exact ⟨_, rfl⟩
  · have hle := Nat.le_of_not_lt hlarge
    exact ⟨hle, hout hle⟩

/-- what reading the entry of a name may answer -/
def Answers (dec : Decoder) (buf : Buffer) (entryName : String) (max : UInt64) : Option (List UInt8) → Prop
  | none => ∃ entries, scanCentralDirectory buf = .ok entries ∧ ∀ e ∈ entries, e.name ≠ entryName
  | some out => out.length ≤ max.toNat ∧
      ∃ before e after data, scanCentralDirectory buf = .ok (before ++ e :: after) ∧
        (∀ e' ∈ before, e'.name ≠ entryName) ∧ e.name = entryName ∧ IsPayload buf.val e data ∧
        IsOutput dec e data out

theorem readZipEntryFromCapped_ends (dec : Decoder) (buf : Buffer) (entryName : String) (max : UInt64) :
    Ends Failed (Answers dec buf entryName max) (readZipEntryFromCapped dec buf entryName max) := by
  refine (scanCentralDirectory_ends buf).with_result.bind fun entries hentries => ?_
  obtain ⟨hscan, i, total, cdOffset, cdSize, -, -, hrecords⟩ := hentries
  cases hfind : entries.find? fun e => e.name = entryName with
  | none =>
    refine ⟨entries, hscan, fun e he => ?_⟩
    simpa using List.find?_eq_none.1 hfind e he
  | some e =>
    obtain ⟨hname, before, after, rfl, hbefore⟩ := List.find?_eq_some_iff_append.1 hfind
    obtain ⟨off, next, hrecord⟩ := hrecords.mem (List.mem_append_right before List.mem_cons_self)
    have hoffset : e.localOffset < 4294967296 := hrecord.localOffset.trans_lt (field_four_lt buf.val (off + 42))
    have hsize : e.compSize < 4294967296 := hrecord.compSize.trans_lt (field_four_lt buf.val (off + 20))
    refine (entryPayload_ends hoffset hsize).bind fun data hdata => ?_
    have hlength : data.length < 2 ^ 63 := by
      have hbuf := buf.property
      rw [hdata.data_eq, between, List.length_drop, List.length_take]
      omega
    refine (decompress_ends dec e hlength max).bind fun out hout => ?_
    refine ⟨hout.1, before, e, after, data, hscan, fun e' he' => ?_, of_decide_eq_true hname, hdata, hout.2⟩
    simpa using hbefore e' he'

end EspectralClient.Ziputil
