/-
PNG files of skins (`native/engine/src/skins.rs`), from the encoder's side: what any encoder makes of an image, and that
the decoder of the engine has the image again.

- `RowFilter`, `Image.filtered`: the five filters of the format, one for each row, and the rows with their filters.
- `Chunk`, `SkinFile`: a file, with any chunks between the header and the end, the image data split over some of them.
- `unfilter_filtered`: undoing the filters gives the rows.
- `scan_file`: the loop over the chunks collects the image data, whatever stands between its parts.
- `skin_decoding`: the decoder returns the image of every such file, and on any bytes it stays inside of them.
-/
import EspectralClient.Engine.SkinPng

namespace EspectralClient.SkinPng

open Lib.Bytes (fromBe toBe toLe fromBe_toBe)
open Lib.Fallible
open Lib.Checked
open Lib.Predictor
open Backgrounds (EngineError PngDims pngMagic ihdr)

/-! ## Images and filters -/

/-- the filters of the format -/
inductive RowFilter where
  | none
  | sub
  | up
  | average
  | paeth
deriving DecidableEq, Repr

/-- the number in the file -/
def RowFilter.code : RowFilter → UInt8
  | none => 0
  | sub => 1
  | up => 2
  | average => 3
  | paeth => 4

/-- the first of the three that is nearest to the sum of the first two without the third -/
def nearest (a b c : UInt8) : UInt8 :=
  ([a, b, c].argmin fun x => ((a.toNat : ℤ) + b.toNat - c.toNat - x.toNat).natAbs).getD a

/-- the prediction from the bytes to the left, above, and above to the left -/
def RowFilter.predict : RowFilter → UInt8 → UInt8 → UInt8 → UInt8
  | none, _, _, _ => 0
  | sub, a, _, _ => a
  | up, _, b, _ => b
  | average, a, b, _ => .ofNat ((a.toNat + b.toNat) / 2)
  | paeth, a, b, c => nearest a b c

theorem paethOf_eq_nearest (a b c : UInt8) : paethOf a b c = nearest a b c := by
  simp only [paethOf, nearest, Int.abs_eq_natAbs, Nat.cast_le, List.argmin_cons, List.argmin_nil]
  -- the last two are compared first, and then the nearer of them with the first
  by_cases hc : ((a.toNat : ℤ) + b.toNat - c.toNat - c.toNat).natAbs <
      ((a.toNat : ℤ) + b.toNat - c.toNat - b.toNat).natAbs
  · simp only [if_pos hc, if_neg (not_le.2 hc)]
    split_ifs with hpaeth hlt hlt
    · exact absurd hlt (not_lt.2 hpaeth.2)
    · rfl
    · rfl
    · exact absurd ⟨(not_lt.1 hlt).trans hc.le, not_lt.1 hlt⟩ hpaeth
  · simp only [if_neg hc, if_pos (not_lt.1 hc)]
    split_ifs with hpaeth hlt hlt
    · exact absurd hlt (not_lt.2 hpaeth.1)
    · rfl
    · rfl
    · exact absurd ⟨not_lt.1 hlt, (not_lt.1 hlt).trans (not_lt.1 hc)⟩ hpaeth

theorem predictOf_code {f : RowFilter} (h : f ≠ .none) : predictOf f.code = f.predict := by
  funext a b c
  cases f with
  | none => exact absurd rfl h
  | sub => rfl
  | up => rfl
  | average => rfl
  | paeth => exact paethOf_eq_nearest a b c

/-- a skin's pixels, four bytes each -/
structure Image where
  height : ℕ
  px : List UInt8
  skin_height : height = 64 ∨ height = 32
  length_px : px.length = height * 256

namespace Image

variable (img : Image)

def row (y : ℕ) : List UInt8 := field img.px (y * 256) 256

/-- the row above, or zeros -/
def above : ℕ → List UInt8
  | 0 => List.replicate 256 0
  | y + 1 => img.row y

/-- a row as it is sent: the number of its filter and the differences from the predictions -/
def line (filter : ℕ → RowFilter) (y : ℕ) : List UInt8 :=
  (filter y).code :: differences (filter y).predict 4 (img.above y) (img.row y)

/-- what the encoder compresses -/
def filtered (filter : ℕ → RowFilter) : List UInt8 := (List.range img.height).flatMap (img.line filter)

variable {img}

theorem length_row {y : ℕ} (hy : y < img.height) : (img.row y).length = 256 := by
  rw [row, field, List.length_take, List.length_drop, img.length_px]
  omega

theorem length_above {y : ℕ} (hy : y < img.height) : (img.above y).length = 256 := by
  cases y with
  | zero => exact List.length_replicate
  | succ y => exact length_row (by omega)

theorem length_line (filter : ℕ → RowFilter) {y : ℕ} (hy : y < img.height) : (img.line filter y).length = 257 := by
  rw [line, List.length_cons, length_differences, length_row hy]

end Image

/-! ## Undoing the filters -/

section Blocks

variable {α β : Type*} {k : ℕ} {g : β → List α}

/-- blocks of one length -/
theorem drop_flatMap {l : List β} (hg : ∀ b ∈ l, (g b).length = k) (y : ℕ) :
    (l.flatMap g).drop (y * k) = (l.drop y).flatMap g := by
  induction y generalizing l with
  | zero => rw [Nat.zero_mul, List.drop_zero, List.drop_zero]
  | succ y ih =>
    cases l with
    | nil => simp
    | cons b l =>
      obtain ⟨hb, hl⟩ := List.forall_mem_cons.1 hg
      rw [List.flatMap_cons, List.drop_succ_cons, ← ih hl, Nat.succ_mul, Nat.add_comm, ← hb, ← List.drop_drop,
        List.drop_left]

theorem length_flatMap_blocks {l : List β} (hg : ∀ b ∈ l, (g b).length = k) : (l.flatMap g).length = l.length * k := by
  induction l with
  | nil => simp
  | cons b l ih =>
    obtain ⟨hb, hl⟩ := List.forall_mem_cons.1 hg
    rw [List.flatMap_cons, List.length_append, hb, ih hl, List.length_cons, Nat.succ_mul, Nat.add_comm]

end Blocks

variable {E : Stop EngineError → Prop}

/-- **One row.** Whatever the filter, its row is there again. -/
theorem unfilterRow_line (f : RowFilter) {prev row out : List UInt8} (hrow : row.length = 256)
    (hprev : prev.length = 256) (hout : out.length = 256) :
    Ends E (fun out' => out' = row) (unfilterRow f.code 256 (differences f.predict 4 prev row) prev out) := by
  have hlength : (differences f.predict 4 prev row).length = 256 := by rw [length_differences, hrow]
  have hrestore : restore f.predict 4 prev (differences f.predict 4 prev row) out = row :=
    restore_differences f.predict prev (by decide) (hout.trans hrow.symm)
  by_cases hf : f = .none
  · subst hf
    have hsame : differences RowFilter.none.predict 4 prev row = row := by
      refine List.ext_getElem (by simp) fun i hi hi' => ?_
      simp [differences, predicted, RowFilter.predict, List.getElem?_eq_getElem hi']
    rw [unfilterRow, if_pos (show RowFilter.none.code = 0 from rfl), hsame]
    exact copyFrom_ends (hout.trans hrow.symm)
  · have hcode : f.code ≠ 0 ∧ f.code ≤ 4 := by
      cases f with
      | none => exact absurd rfl hf
      | _ => decide
    rw [unfilterRow, if_neg hcode.1, if_pos hcode.2]
    refine (unfilterBytes_ends hlength hprev hout).mono fun out' h => ?_
    rw [h, predictOf_code hf, hrestore]

theorem length_filtered (img : Image) (filter : ℕ → RowFilter) : (img.filtered filter).length = img.height * 257 := by
  rw [Image.filtered, length_flatMap_blocks (fun y hy => Image.length_line filter (List.mem_range.1 hy)),
    List.length_range]

/-- **All rows.** -/
theorem unfilter_filtered (img : Image) (filter : ℕ → RowFilter) :
    Ends E (fun image => image = (64, img.height, img.px)) (unfilter 64 img.height (img.filtered filter)) := by
  have hheight := img.skin_height
  have hline : ∀ y ∈ List.range img.height, (img.line filter y).length = 257 := fun y hy =>
    Image.length_line filter (List.mem_range.1 hy)
  have hraw := length_filtered img filter
  have hblock : ∀ y < img.height, ∃ rest, (img.filtered filter).drop (y * 257) = img.line filter y ++ rest := by
    intro y hy
    rw [Image.filtered, drop_flatMap hline, List.drop_eq_getElem_cons (by simpa using hy), List.flatMap_cons,
      List.getElem_range]
    exact ⟨_, rfl⟩
  refine bind_ends (mul_ends (by decide)) fun stride hstride => ?_
  refine bind_ends (add_ends (by omega)) fun line hline => ?_
  refine bind_ends (mul_ends (by rw [hline, hstride]; omega)) fun size hsize => ?_
  rw [hline, hstride] at hsize
  refine ite_ends (fun hbad => absurd (by omega) hbad) fun _ => ?_
  refine bind_ends (mul_ends (by omega)) fun pixels hpixels => ?_
  refine bind_ends (mul_ends (by omega)) fun count hcount => ?_
  subst hstride
  have hloop := foldlM_ends (E := E) (n := img.height) (f := unfilterLine (img.filtered filter) 256)
    (I := fun y st => (st.1.length = img.height * 256 ∧ st.1.take (y * 256) = img.px.take (y * 256)) ∧
      st.2 = img.above y)
    (b := (List.replicate count 0, List.replicate 256 0)) ?_ ?_
  · refine bind_ends hloop fun st hst => ?_
    have hpx : st.1 = img.px := by
      have htake := hst.1.2
      rwa [List.take_of_length_le hst.1.1.le, List.take_of_length_le img.length_px.le] at htake
    show (64, img.height, st.1) = _
    rw [hpx]
  · rintro y hy ⟨px, prev⟩ ⟨⟨hlength, htake⟩, habove⟩
    simp only at hlength htake habove
    obtain ⟨rest, hrest⟩ := hblock y hy
    have hf : (img.filtered filter).getD (y * 257) 0 = (filter y).code := by
      have hhead := congrArg (fun l => l.getD 0 0) hrest
      simpa [Image.line] using hhead
    have hsent : field (img.filtered filter) (y * 257 + 1) 256 =
        differences (filter y).predict 4 (img.above y) (img.row y) := by
      rw [field, ← List.drop_drop, hrest, Image.line, List.cons_append, List.drop_succ_cons, List.drop_zero]
      exact List.take_left' (by rw [length_differences, Image.length_row hy])
    refine (unfilterLine_ends hraw hlength (by rw [habove, Image.length_above hy]) (by omega) hy
      (R := fun out => out = img.row y) ?_ ?_).mono ?_
    · rw [hf, hsent, habove]
      exact unfilterRow_line (filter y) (Image.length_row hy) (Image.length_above hy) (by simp [field]; omega)
    · rintro out rfl
      exact Image.length_row hy
    · rintro st ⟨out, rfl, rfl⟩
      have hrow := Image.length_row hy
      refine ⟨⟨?_, ?_⟩, rfl⟩
      · simp only [List.length_append, List.length_take, List.length_drop, hrow]
        omega
      · simp only
        rw [List.take_left' (by simp [hrow]; omega), htake, Nat.succ_mul, List.take_add]
        rfl
  · refine ⟨⟨?_, ?_⟩, rfl⟩
    · rw [List.length_replicate]
      omega
    · simp

/-! ## Files -/

/-- a chunk of the format; the decoder does not look at the checksum -/
structure Chunk where
  kind : Vector UInt8 4
  data : List UInt8
  crc : Vector UInt8 4
  short : data.length < 2 ^ 32

namespace Chunk

variable (c : Chunk)

def bytes : List UInt8 := toBe 4 c.data.length ++ (c.kind.toList ++ (c.data ++ c.crc.toList))

/-- what it adds to the image data -/
def idat : List UInt8 := if c.kind.toList = idatKind then c.data else []

theorem length_bytes : c.bytes.length = c.data.length + 12 := by
  simp [bytes]
  omega

theorem drop_bytes (rest : List UInt8) : (c.bytes ++ rest).drop 8 = c.data ++ (c.crc.toList ++ rest) := by
  have hsplit : c.bytes ++ rest = (toBe 4 c.data.length ++ c.kind.toList) ++ (c.data ++ (c.crc.toList ++ rest)) := by
    simp [bytes]
  rw [hsplit, List.drop_left' (by simp)]

end Chunk

/-- the size, eight bits a channel, colours with transparency, and the only methods there are -/
def headerData (height : ℕ) : List UInt8 := toBe 4 64 ++ toBe 4 height ++ [8, 6, 0, 0, 0]

/-- a PNG file of a skin, whatever else is in it -/
structure SkinFile where
  image : Image
  filter : ℕ → RowFilter
  headerCrc : Vector UInt8 4
  /-- the image data in its parts, and other chunks before, between and after them -/
  body : List Chunk
  endCrc : Vector UInt8 4
  not_end : ∀ c ∈ body, c.kind.toList ≠ iendKind

namespace SkinFile

variable (file : SkinFile)

def headerChunk : Chunk :=
  ⟨#v[0x49, 0x48, 0x44, 0x52], headerData file.image.height, file.headerCrc, by simp [headerData]⟩

def endChunk : Chunk := ⟨#v[0x49, 0x45, 0x4e, 0x44], [], file.endCrc, by simp⟩

/-- the parts of the image data one after another -/
def idat : List UInt8 := file.body.flatMap Chunk.idat

def bytes : List UInt8 := pngMagic ++ (file.headerChunk.bytes ++ (file.body.flatMap Chunk.bytes ++ file.endChunk.bytes))

end SkinFile

/-! ## Reading a file -/

section Reading

variable {png rest : List UInt8} {pos : ℕ} {c : Chunk} (hat : png.drop pos = c.bytes ++ rest) (hpos : pos ≤ png.length)

include hat

theorem field_at (k n : ℕ) : field png (pos + k) n = ((c.bytes ++ rest).drop k).take n := by
  rw [field, ← List.drop_drop, hat]

theorem length_field_at : field png pos 4 = toBe 4 c.data.length := by
  have h := field_at hat 0 4
  rw [Nat.add_zero, List.drop_zero, Chunk.bytes, List.append_assoc, List.take_left' (by simp)] at h
  exact h

theorem kind_field_at : field png (pos + 4) 4 = c.kind.toList := by
  rw [field_at hat, Chunk.bytes, List.append_assoc, List.drop_left' (by simp), List.append_assoc,
    List.take_left' (by simp)]

theorem drop_data_at : png.drop (pos + 8) = c.data ++ (c.crc.toList ++ rest) := by
  rw [← List.drop_drop, hat, c.drop_bytes]

theorem data_field_at : field png (pos + 8) c.data.length = c.data := by
  rw [field, drop_data_at hat, List.take_left]

/-- a part of the data -/
theorem part_at {k n : ℕ} (h : k + n ≤ c.data.length) : field png (pos + 8 + k) n = (c.data.drop k).take n := by
  rw [field, ← List.drop_drop, drop_data_at hat, List.drop_append_of_le_length (by omega),
    List.take_append_of_le_length (by rw [List.length_drop]; omega)]

theorem byte_at {k : ℕ} (h : k < c.data.length) : png.getD (pos + 8 + k) 0 = c.data.getD k 0 := by
  have hdrop := congrArg (fun l => l.getD k 0) (drop_data_at hat)
  simp only [List.getD_eq_getElem?_getD, List.getElem?_drop] at hdrop ⊢
  rw [hdrop, List.getElem?_append_left h]

theorem rest_at : png.drop (pos + (c.data.length + 12)) = rest := by
  rw [← List.drop_drop, hat, List.drop_left' c.length_bytes]

include hpos

theorem inside_at : pos + (c.data.length + 12) + rest.length = png.length := by
  have hlength := congrArg List.length hat
  rw [List.length_drop, List.length_append, c.length_bytes] at hlength
  omega

/-- a chunk is read, and what it does is left -/
theorem chunk_at {st : Scan} (hst : st.pos = pos) (hroom : png.length < 2 ^ 63) {Q : Turn → Prop}
    (hdispatch : Ends E Q (dispatch png st c.kind.toList (pos + 8) c.data.length (pos + (c.data.length + 12)))) :
    Ends E Q (chunk png st) := by
  subst hst
  have hinside := inside_at hat hpos
  have hshort := c.short
  refine bind_ends (rd_ends (by omega) hroom) fun len hlen => ?_
  rw [length_field_at hat, fromBe_toBe (by omega)] at hlen
  refine bind_ends (add_ends (by omega)) fun p4 hp4 => ?_
  refine bind_ends (add_ends (by omega)) fun p8 hp8 => ?_
  refine bind_ends (slice_field (k := 4) (by omega) (by omega)) fun kind hkind => ?_
  rw [hp4, kind_field_at hat] at hkind
  refine bind_ends (add_ends (by omega)) fun start hstart => ?_
  refine ite_ends (fun hpast => absurd hpast (by omega)) fun _ => ?_
  refine bind_ends (add_ends (by omega)) fun next hnext => ?_
  refine ite_ends (fun hpast => absurd hpast (by omega)) fun _ => ?_
  have hafter : next = st.pos + (c.data.length + 12) := by omega
  rw [hkind, hstart, hlen, hafter]
  exact hdispatch

end Reading

/-- a chunk between the header and the end -/
theorem dispatch_body {png : List UInt8} {st : Scan} {c : Chunk} {start next : ℕ} (hseen : st.seenIhdr = true)
    (hkind : c.kind.toList ≠ iendKind) (hdata : field png start c.data.length = c.data)
    (hinside : start + c.data.length ≤ png.length) :
    Ends E (fun turn => turn = .next { st with pos := next, idat := st.idat ++ c.idat })
      (dispatch png st c.kind.toList start c.data.length next) := by
  rw [dispatch, if_neg (by simp [hseen]), Chunk.idat]
  split_ifs with hidat
  · refine bind_ends (slice_field rfl hinside) fun data hslice => ?_
    rw [hslice, hdata]
    exact rfl
  · rw [List.append_nil]
    exact rfl

/-- **The chunks of the body.** The parts of the image data are collected, and the others are passed over. -/
theorem scan_body {png rest : List UInt8} (hroom : png.length < 2 ^ 63) {last : Chunk}
    (hlast : last.kind.toList = iendKind) {body : List Chunk} (hbody : ∀ c ∈ body, c.kind.toList ≠ iendKind) {st : Scan}
    (hseen : st.seenIhdr = true) (hpos : st.pos ≤ png.length)
    (hat : png.drop st.pos = body.flatMap Chunk.bytes ++ (last.bytes ++ rest)) {fuel : ℕ}
    (hfuel : body.length < fuel) :
    Ends E (fun st' => st'.seenIhdr = true ∧ st'.width = st.width ∧ st'.height = st.height ∧
      st'.idat = st.idat ++ body.flatMap Chunk.idat) (scan png fuel st) := by
  induction body generalizing st fuel with
  | nil =>
    obtain ⟨fuel, rfl⟩ : ∃ k, fuel = k + 1 := ⟨fuel - 1, by simp at hfuel; omega⟩
    have hinside := inside_at hat hpos
    rw [scan]
    refine bind_ends (add_ends (by omega)) fun p8 hp8 => ?_
    refine ite_ends (fun _ => ?_) fun hpast => absurd (by omega) hpast
    refine bind_ends (chunk_at (Q := fun turn => turn = .leave st) hat hpos rfl hroom ?_) fun turn hturn => ?_
    · rw [dispatch, if_neg (by simp [hseen]), hlast, if_neg (by decide), if_pos rfl]
      exact rfl
    · subst hturn
      exact ⟨hseen, rfl, rfl, by simp⟩
  | cons c body ih =>
    obtain ⟨fuel, rfl⟩ : ∃ k, fuel = k + 1 := ⟨fuel - 1, by simp at hfuel; omega⟩
    obtain ⟨hc, hrest⟩ := List.forall_mem_cons.1 hbody
    rw [List.flatMap_cons, List.append_assoc] at hat
    have hinside := inside_at hat hpos
    rw [scan]
    refine bind_ends (add_ends (by omega)) fun p8 hp8 => ?_
    refine ite_ends (fun _ => ?_) fun hpast => absurd (by omega) hpast
    refine bind_ends (chunk_at hat hpos rfl hroom
      (dispatch_body hseen hc (data_field_at hat) (by omega))) fun turn hturn => ?_
    subst hturn
    have hnext := @ih hrest { st with pos := st.pos + (c.data.length + 12), idat := st.idat ++ c.idat } hseen
      (by simp only; omega) (rest_at hat) fuel (by simpa using hfuel)
    refine hnext.mono fun st' hst' => ?_
    rw [List.flatMap_cons, ← List.append_assoc]
    exact hst'

theorem header_length (file : SkinFile) : file.headerChunk.data.length = 13 := by
  simp [SkinFile.headerChunk, headerData]

/-- the header of a skin -/
theorem header_file (file : SkinFile) {png rest : List UInt8} (hroom : png.length < 2 ^ 63)
    (hat : png.drop 8 = file.headerChunk.bytes ++ rest) (hpos : 8 ≤ png.length) :
    Ends E (fun dims => dims = (64, file.image.height))
      (header png 16 file.headerChunk.data.length file.headerChunk.kind.toList) := by
  have hheight := file.image.skin_height
  have hlength := header_length file
  have hinside := inside_at hat hpos
  have hfield : ∀ k, k + 4 ≤ 13 → field png (16 + k) 4 = (file.headerChunk.data.drop k).take 4 := fun k hk =>
    part_at hat (by omega)
  have hbyte : ∀ k < 13, png.getD (16 + k) 0 = file.headerChunk.data.getD k 0 := fun k hk => byte_at hat (by omega)
  have hkind : file.headerChunk.kind.toList = ihdr := rfl
  rw [header, if_neg (by simp [hlength, hkind])]
  refine bind_ends (rd_ends (by omega) hroom) fun width hwidth => ?_
  refine bind_ends (add_ends (by omega)) fun p4 hp4 => ?_
  refine bind_ends (rd_ends (by omega) hroom) fun height hread => ?_
  refine bind_ends (add_ends (by omega)) fun p8 hp8 => ?_
  refine bind_ends (index_ends (by omega) 0) fun depth hdepth => ?_
  refine bind_ends (add_ends (by omega)) fun p9 hp9 => ?_
  refine bind_ends (index_ends (by omega) 0) fun color hcolor => ?_
  refine bind_ends (add_ends (by omega)) fun p10 hp10 => ?_
  refine bind_ends (index_ends (by omega) 0) fun comp hcomp => ?_
  refine bind_ends (add_ends (by omega)) fun p11 hp11 => ?_
  refine bind_ends (index_ends (by omega) 0) fun filter hfilter => ?_
  refine bind_ends (add_ends (by omega)) fun p12 hp12 => ?_
  refine bind_ends (index_ends (by omega) 0) fun interlace hinterlace => ?_
  rw [hp8, hbyte 8 (by decide)] at hdepth
  rw [hp9, hbyte 9 (by decide)] at hcolor
  rw [hp10, hbyte 10 (by decide)] at hcomp
  rw [hp11, hbyte 11 (by decide)] at hfilter
  rw [hp12, hbyte 12 (by decide)] at hinterlace
  rw [hwidth, hread, hp4, hfield 0 (by decide), hfield 4 (by decide)]
  have hdims : fromBe ((file.headerChunk.data.drop 0).take 4) = 64 ∧
      fromBe ((file.headerChunk.data.drop 4).take 4) = file.image.height := by
    refine ⟨?_, ?_⟩
    · exact fromBe_toBe (k := 4) (by decide)
    · exact fromBe_toBe (k := 4) (by omega)
  refine ite_ends (fun hbad => absurd hbad ?_) fun _ => ite_ends (fun hbad => absurd hbad ?_) fun _ =>
    ite_ends (fun hbad => absurd hbad ?_) fun _ => ?_
  · rw [hdepth, hcolor]
    simp [SkinFile.headerChunk, headerData, toBe]
  · rw [hcomp, hfilter]
    simp [SkinFile.headerChunk, headerData, toBe]
  · rw [hinterlace]
    simp [SkinFile.headerChunk, headerData, toBe]
  · show (_, _) = _
    rw [hdims.1, hdims.2]

/-- the header follows the signature -/
theorem drop_signature (file : SkinFile) : file.bytes.drop 8 =
    file.headerChunk.bytes ++ (file.body.flatMap Chunk.bytes ++ (file.endChunk.bytes ++ [])) := by
  rw [List.append_nil]
  exact List.drop_left' rfl

theorem signature_le (file : SkinFile) : 8 ≤ file.bytes.length := by
  rw [SkinFile.bytes, List.length_append]
  exact Nat.le_add_right _ _

theorem isValidSkinPng_file (file : SkinFile) :
    Ends E (fun valid => valid = true) (isValidSkinPng file.bytes) := by
  have hat := drop_signature file
  have hlength := header_length file
  have hinside := inside_at hat (signature_le file)
  have hkind : (file.bytes.drop 12).take 4 = ihdr := kind_field_at hat
  have hwidth : fromBe ((file.bytes.drop 16).take 4) = 64 := by
    have hpart := part_at hat (k := 0) (n := 4) (by omega)
    rw [field] at hpart
    rw [hpart]
    exact fromBe_toBe (k := 4) (by decide)
  have hheight : fromBe ((file.bytes.drop 20).take 4) = file.image.height := by
    have hskin := file.image.skin_height
    have hpart := part_at hat (k := 4) (n := 4) (by omega)
    rw [field] at hpart
    rw [hpart]
    exact fromBe_toBe (k := 4) (by omega)
  have hmagic : file.bytes.take 8 = pngMagic := List.take_left' rfl
  have hdims : Backgrounds.skinPngDimensions file.bytes = some ⟨64, file.image.height⟩ := by
    have hskin := file.image.skin_height
    rw [Backgrounds.skinPngDimensions, if_neg (by simp [hmagic, hkind]; omega), hwidth, hheight, if_pos (by omega)]
  rw [isValidSkinPng, skinPngDimensions_eq, hdims]
  show isSkinSize ⟨64, file.image.height⟩ = true
  simp [isSkinSize, file.image.skin_height]

theorem length_bodies (body : List Chunk) : body.length ≤ (body.flatMap Chunk.bytes).length := by
  induction body with
  | nil => simp
  | cons c body ih =>
    rw [List.flatMap_cons, List.length_append, c.length_bytes, List.length_cons]
    omega

/-- **The loop over the chunks has the size and all of the image data.** -/
theorem scan_file (file : SkinFile) (hfits : file.bytes.length < 2 ^ 63) :
    Ends E (fun st => st.seenIhdr = true ∧ st.width = 64 ∧ st.height = file.image.height ∧ st.idat = file.idat)
      (scan file.bytes file.bytes.length ⟨8, false, 0, 0, []⟩) := by
  have hat := drop_signature file
  have hpos := signature_le file
  have hlength := header_length file
  have hinside := inside_at hat hpos
  have hbodies := length_bodies file.body
  have hafter := file.endChunk.length_bytes
  obtain ⟨fuel, hfuel⟩ : ∃ k, file.bytes.length = k + 1 := ⟨file.bytes.length - 1, by omega⟩
  rw [hfuel, scan]
  refine bind_ends (add_ends (show 8 + 8 < 2 ^ 64 by decide)) fun p8 hp8 => ?_
  refine ite_ends (fun _ => ?_) fun hpast => absurd (by simp only at hp8; omega) hpast
  refine bind_ends (chunk_at (Q := fun turn => turn = .next ⟨33, true, 64, file.image.height, []⟩) hat hpos rfl hfits
    ?_) fun turn hturn => ?_
  · rw [dispatch, if_pos rfl]
    refine bind_ends (header_file file hfits hat hpos) fun dims hdims => ?_
    rw [hdims, hlength]
    exact rfl
  · subst hturn
    have hrest := rest_at hat
    rw [hlength] at hrest
    simp only [List.length_append] at hinside
    show Ends E _ (scan file.bytes fuel ⟨33, true, 64, file.image.height, []⟩)
    exact scan_body hfits rfl file.not_end rfl (by simp only; omega) hrest (by omega)

/-! ## The decoder -/

/-- **The decoder returns the image of every file that an encoder writes, and on any bytes it stays inside of them.**
The image data is what the zlib decoder makes the filtered rows of, and from no data it makes none. -/
theorem skin_decoding (inflate : List UInt8 → Option (List UInt8))
    (hnothing : ∀ raw, inflate [] = some raw → raw = []) :
    (∀ (file : SkinFile) (png : Buffer), png.val = file.bytes →
      inflate file.idat = some (file.image.filtered file.filter) →
        decodeSkinRgba inflate png = .ok (64, file.image.height, file.image.px)) ∧
    ∀ png : Buffer, (∃ width height px, decodeSkinRgba inflate png = .ok (width, height, px) ∧
      px.length = width * height * 4) ∨ ∃ e, decodeSkinRgba inflate png = .error (.err e) := by
  constructor
  · rintro file ⟨png, hfits⟩ rfl hinflate
    have hends : Ends (fun _ => False) (fun image => image = (64, file.image.height, file.image.px))
        (decodeSkinRgba inflate ⟨file.bytes, hfits⟩) := by
      refine bind_ends (isValidSkinPng_file file) fun valid hvalid => ?_
      refine ite_ends (fun hbad => absurd (hvalid.symm.trans hbad) (by decide)) fun _ => ?_
      refine bind_ends (scan_file file hfits) fun st hst => ?_
      obtain ⟨hseen, hwidth, hheight, hidat⟩ := hst
      have hdata : st.idat ≠ [] := by
        intro hempty
        rw [← hidat, hempty] at hinflate
        have hlength := congrArg List.length (hnothing _ hinflate)
        rw [length_filtered, List.length_nil] at hlength
        have hskin := file.image.skin_height
        omega
      refine ite_ends (fun hbad => absurd hbad (by simp [hseen, hdata])) fun _ => ?_
      simp only [hidat, hinflate, hwidth, hheight]
      exact unfilter_filtered file.image file.filter
    cases hresult : decodeSkinRgba inflate ⟨file.bytes, hfits⟩ with
    | ok image =>
      rw [hresult] at hends
      exact congrArg Except.ok hends
    | error stop =>
      rw [hresult] at hends
      exact absurd hends id
  · intro png
    have hends := decodeSkinRgba_ends inflate png
    cases hresult : decodeSkinRgba inflate png with
    | ok image =>
      rw [hresult] at hends
      exact Or.inl ⟨image.1, image.2.1, image.2.2, rfl, hends⟩
    | error stop =>
      rw [hresult] at hends
      cases stop with
      | err e => exact Or.inr ⟨e, rfl⟩
      | overflow | outside | endless => exact absurd hends id

/-! ## A file with a text between the parts of its data -/

/-- the checksum of a zlib stream -/
def adler32 (bs : List UInt8) : ℕ :=
  let (a, b) := bs.foldl (fun s x => ((s.1 + x.toNat) % 65521, (s.2 + s.1 + x.toNat) % 65521)) (1, 0)
  b * 65536 + a

/-- a zlib stream of one block that is stored as it is -/
def stored (raw : List UInt8) : List UInt8 :=
  [0x78, 0x01, 0x01] ++ (toLe 2 raw.length ++ (toLe 2 (65535 - raw.length) ++ (raw ++ toBe 4 (adler32 raw))))

/-- the decoder, on such streams -/
def inflateStored (z : List UInt8) : Option (List UInt8) :=
  let raw := (z.drop 7).take (z.length - 11)
  if 11 ≤ z.length ∧ raw.length < 65536 ∧ z = stored raw then some raw else none

theorem length_stored (raw : List UInt8) : (stored raw).length = raw.length + 11 := by
  simp [stored]
  omega

theorem inflateStored_stored {raw : List UInt8} (hraw : raw.length < 65536) :
    inflateStored (stored raw) = some raw := by
  have htake : ((stored raw).drop 7).take raw.length = raw := by
    have hsplit : stored raw = ([0x78, 0x01, 0x01] ++ (toLe 2 raw.length ++ toLe 2 (65535 - raw.length))) ++
        (raw ++ toBe 4 (adler32 raw)) := by
      simp [stored]
    rw [hsplit, List.drop_left' (by simp), List.take_left]
  rw [inflateStored, length_stored, Nat.add_sub_cancel, htake, if_pos ⟨by omega, hraw, rfl⟩]

/-- the legacy size -/
def sampleImage : Image := ⟨32, (List.range 8192).map UInt8.ofNat, Or.inr rfl, by simp⟩

def sampleFilter (y : ℕ) : RowFilter := if y % 2 = 0 then .paeth else .average

def sampleData : List UInt8 := stored (sampleImage.filtered sampleFilter)

theorem length_sampleData : sampleData.length = 8235 := by
  rw [sampleData, length_stored, length_filtered]
  rfl

/-- the data in two parts, with a `tEXt` chunk between -/
def sampleFile : SkinFile where
  image := sampleImage
  filter := sampleFilter
  headerCrc := .replicate 4 0
  body := [⟨#v[0x49, 0x44, 0x41, 0x54], sampleData.take 100, .replicate 4 0, by simp [length_sampleData]⟩,
    ⟨#v[0x74, 0x45, 0x58, 0x74], [0x61, 0x00, 0x62], .replicate 4 0, by simp⟩,
    ⟨#v[0x49, 0x44, 0x41, 0x54], sampleData.drop 100, .replicate 4 0, by simp [length_sampleData]⟩]
  endCrc := .replicate 4 0
  not_end := by simp [iendKind]

theorem sampleFile_idat : sampleFile.idat = sampleData := by
  simp [SkinFile.idat, sampleFile, Chunk.idat, idatKind]

theorem sampleFile_fits : sampleFile.bytes.length < 2 ^ 63 := by
  have hbody : (sampleFile.body.flatMap Chunk.bytes).length = 8235 + 39 := by
    simp [sampleFile, Chunk.length_bytes, length_sampleData]
  have hheader := sampleFile.headerChunk.length_bytes
  have hend := sampleFile.endChunk.length_bytes
  have hlength := header_length sampleFile
  have hempty : sampleFile.endChunk.data.length = 0 := rfl
  have hmagic : pngMagic.length = 8 := rfl
  rw [SkinFile.bytes, List.length_append, List.length_append, List.length_append, hbody]
  omega

theorem skin_decoding_sample : decodeSkinRgba inflateStored ⟨sampleFile.bytes, sampleFile_fits⟩ =
    .ok (64, 32, sampleImage.px) := by
  have hraw : (sampleImage.filtered sampleFilter).length < 65536 := by
    rw [length_filtered]
    decide
  refine (skin_decoding inflateStored (by simp [inflateStored])).1 sampleFile _ rfl ?_
  rw [sampleFile_idat]
  exact inflateStored_stored hraw

end EspectralClient.SkinPng
