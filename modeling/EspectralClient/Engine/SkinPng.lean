/-
The PNG decoder of the skins (`native/engine/src/skins.rs`), on files that nobody has looked at.

- `decodeSkinRgba`: the chunks up to the end, the header, the image data inflated, and the row filters undone. Sums,
  products, indices and slices stop where the machine would.
- `paeth_ends`: the predictor's 16-bit arithmetic has room.
- `scan_ends`: the loop over the chunks ends, inside of the file, with the size of the header.
- `unfilter_ends`: the filters stay inside of the rows.
- `decodeSkinRgba_ends`: whatever the file, the decoder ends with an image of its size or with an error of its own.

The size is known before the first chunk is read: a header that would make the products overflow has been refused.
-/
import Mathlib.Data.UInt
import EspectralClient.Lib.Checked
import EspectralClient.Lib.Predictor
import EspectralClient.Engine.Backgrounds

namespace EspectralClient.SkinPng

open Lib.Bytes (fromBe fromBe_lt)
open Lib.Fallible
open Lib.Checked
open Lib.Predictor
open Backgrounds (EngineError PngDims pngMagic ihdr)

/-! ## The decoder -/

/-- a slice of bytes in memory -/
abbrev Buffer := { bs : List UInt8 // bs.length < 2 ^ 63 }

abbrev Res (α : Type) := Except (Stop EngineError) α

def badImage (msg : String) : Stop EngineError := .err ⟨"BAD_IMAGE", msg⟩

def skinPngDimensions (buf : List UInt8) : Res (Option PngDims) := do
  if buf.length < 24 then return none
  else if (← slice buf 0 8) ≠ pngMagic then return none
  else if (← slice buf 12 16) ≠ ihdr then return none
  else
    let width := fromBe (← slice buf 16 20)
    let height := fromBe (← slice buf 20 24)
    return if 0 < width ∧ 0 < height then some ⟨width, height⟩ else none

def isSkinSize (dims : PngDims) : Bool := dims.width = 64 && (dims.height = 64 || dims.height = 32)

def isValidSkinPng (buf : List UInt8) : Res Bool := do
  let dims ← skinPngDimensions buf
  return dims.any isSkinSize

/-- the big-endian number of the four bytes at `p` -/
def rd (png : List UInt8) (p : ℕ) : Res ℕ := do
  let b0 ← index png p
  let b1 ← index png (← add 64 p 1)
  let b2 ← index png (← add 64 p 2)
  let b3 ← index png (← add 64 p 3)
  return fromBe [b0, b1, b2, b3]

def idatKind : List UInt8 := [0x49, 0x44, 0x41, 0x54]

def iendKind : List UInt8 := [0x49, 0x45, 0x4e, 0x44]

/-- the variables of the loop over the chunks -/
structure Scan where
  pos : ℕ
  seenIhdr : Bool
  width : ℕ
  height : ℕ
  idat : List UInt8
deriving DecidableEq, Repr

inductive Turn where
  | next (st : Scan)
  | leave (st : Scan)
deriving DecidableEq, Repr

/-- the first chunk -/
def header (png : List UInt8) (start len : ℕ) (kind : List UInt8) : Res (ℕ × ℕ) := do
  if kind ≠ ihdr ∨ len ≠ 13 then .error (badImage "skin PNG is missing its IHDR")
  else
    let width ← rd png start
    let height ← rd png (← add 64 start 4)
    let depth ← index png (← add 64 start 8)
    let color ← index png (← add 64 start 9)
    let comp ← index png (← add 64 start 10)
    let filter ← index png (← add 64 start 11)
    let interlace ← index png (← add 64 start 12)
    if depth ≠ 8 ∨ color ≠ 6 then .error (badImage "skin PNG must be 8-bit RGBA")
    else if comp ≠ 0 ∨ filter ≠ 0 then .error (badImage "unsupported skin PNG encoding")
    else if interlace ≠ 0 then .error (badImage "interlaced skin PNGs are not supported")
    else return (width, height)

/-- what a chunk does, from `start`, with the next one at `next` -/
def dispatch (png : List UInt8) (st : Scan) (kind : List UInt8) (start len next : ℕ) : Res Turn := do
  if st.seenIhdr = false then
    let (width, height) ← header png start len kind
    return .next { st with pos := next, seenIhdr := true, width := width, height := height }
  else if kind = idatKind then
    let data ← slice png start (start + len)
    return .next { st with pos := next, idat := st.idat ++ data }
  else if kind = iendKind then return .leave st
  else return .next { st with pos := next }

/-- one turn of the loop; the length is added with `checked_add` -/
def chunk (png : List UInt8) (st : Scan) : Res Turn := do
  let len ← rd png st.pos
  let kind ← slice png (← add 64 st.pos 4) (← add 64 st.pos 8)
  let start ← add 64 st.pos 8
  if 2 ^ 64 ≤ start + len then .error (badImage "truncated skin PNG")
  else
    let next ← add 64 (start + len) 4
    if png.length < next then .error (badImage "truncated skin PNG")
    else dispatch png st kind start len next

/-- the loop, with fuel for its turns -/
def scan (png : List UInt8) : ℕ → Scan → Res Scan
  | 0, _ => .error .endless
  | fuel + 1, st => do
    if (← add 64 st.pos 8) ≤ png.length then
      match ← chunk png st with
      | .next st => scan png fuel st
      | .leave st => return st
    else return st

/-- in 16-bit signed arithmetic -/
def paeth (a b c : UInt8) : Res UInt8 := do
  let sum ← signed 16 ((a.toNat : ℤ) + b.toNat)
  let p ← signed 16 (sum - c.toNat)
  let da ← signed 16 (p - a.toNat)
  let pa ← signed 16 |da|
  let db ← signed 16 (p - b.toNat)
  let pb ← signed 16 |db|
  let dc ← signed 16 (p - c.toNat)
  let pc ← signed 16 |dc|
  return if pa ≤ pb ∧ pa ≤ pc then a else if pb ≤ pc then b else c

/-- in 16-bit arithmetic -/
def average (a b : UInt8) : Res UInt8 := do
  let sum ← add 16 a.toNat b.toNat
  return .ofNat (sum / 2)

def predict (f a b c : UInt8) : Res UInt8 :=
  if f = 1 then .ok a else if f = 2 then .ok b else if f = 3 then average a b else paeth a b c

/-- the byte of the pixel to the left -/
def left (l : List UInt8) (i : ℕ) : Res UInt8 := if 4 ≤ i then index l (i - 4) else .ok 0

/-- one byte of a row -/
def unfilterByte (f : UInt8) (row prev out : List UInt8) (i : ℕ) : Res (List UInt8) := do
  let a ← left out i
  let b ← index prev i
  let c ← left prev i
  let pred ← predict f a b c
  let x ← index row i
  store out i (x + pred)

def unfilterRow (f : UInt8) (stride : ℕ) (row prev out : List UInt8) : Res (List UInt8) :=
  if f = 0 then copyFrom out row
  else if f ≤ 4 then (List.range stride).foldlM (unfilterByte f row prev) out
  else .error (badImage "corrupt skin PNG filter")

/-- one turn of the loop over the rows, on the pixels and the row before -/
def unfilterLine (raw : List UInt8) (stride : ℕ) (st : List UInt8 × List UInt8) (y : ℕ) :
    Res (List UInt8 × List UInt8) := do
  let line ← add 64 stride 1
  let first ← mul 64 y line
  let f ← index raw first
  let row ← slice raw (← add 64 first 1) (← mul 64 (← add 64 y 1) line)
  let low ← mul 64 y stride
  let high ← mul 64 (← add 64 y 1) stride
  let out ← unfilterRow f stride row st.2 (← slice st.1 low high)
  let px ← write st.1 low high out
  let prev ← copyFrom st.2 out
  return (px, prev)

def unfilter (width height : ℕ) (raw : List UInt8) : Res (ℕ × ℕ × List UInt8) := do
  let stride ← mul 64 width 4
  let size ← mul 64 height (← add 64 stride 1)
  if raw.length ≠ size then .error (badImage "corrupt skin PNG image data")
  else
    let count ← mul 64 (← mul 64 width height) 4
    let st ← (List.range height).foldlM (unfilterLine raw stride) (List.replicate count 0, List.replicate stride 0)
    return (width, height, st.1)

/-- `inflate` is the zlib decoder -/
def decodeSkinRgba (inflate : List UInt8 → Option (List UInt8)) (png : Buffer) : Res (ℕ × ℕ × List UInt8) := do
  if (← isValidSkinPng png.val) = false then
    .error (badImage "skin must be a 64x64 PNG (64x32 legacy accepted)")
  else
    let st ← scan png.val png.val.length ⟨8, false, 0, 0, []⟩
    if st.seenIhdr = false ∨ st.idat = [] then .error (badImage "skin PNG has no image data")
    else
      match inflate st.idat with
      | none => .error (badImage "could not decode skin PNG image data")
      | some raw => unfilter st.width st.height raw

/-! ## Numbers and slices -/

variable {E : Stop EngineError → Prop} {png : List UInt8}

/-- `k` bytes from `p` -/
def field (png : List UInt8) (p k : ℕ) : List UInt8 := (png.drop p).take k

theorem slice_field {p k stop : ℕ} (hstop : stop = p + k) (h : p + k ≤ png.length) :
    Ends E (fun s => s = field png p k) (slice png p stop) := by
  subst hstop
  refine (slice_ends (Nat.le_add_right p k) h).mono fun s hs => ?_
  rw [hs, field, List.drop_take, Nat.add_sub_cancel_left]

theorem rd_ends {p : ℕ} (hp : p + 4 ≤ png.length) (hroom : png.length < 2 ^ 63) :
    Ends E (fun n => n = fromBe (field png p 4)) (rd png p) := by
  refine bind_ends (index_ends (by omega) 0) fun b0 h0 => ?_
  refine bind_ends (add_ends (by omega)) fun p1 hp1 => ?_
  refine bind_ends (index_ends (by omega) 0) fun b1 h1 => ?_
  refine bind_ends (add_ends (by omega)) fun p2 hp2 => ?_
  refine bind_ends (index_ends (by omega) 0) fun b2 h2 => ?_
  refine bind_ends (add_ends (by omega)) fun p3 hp3 => ?_
  refine bind_ends (index_ends (by omega) 0) fun b3 h3 => ?_
  have hfield : field png p 4 = [png.getD p 0, png.getD (p + 1) 0, png.getD (p + 2) 0, png.getD (p + 3) 0] := by
    refine List.ext_getElem (by simp [field]; omega) fun i hi hi' => ?_
    have hlt : i < 4 := by simpa using hi'
    interval_cases i <;> simp [field, show p < png.length by omega,
      show p + 1 < png.length by omega, show p + 2 < png.length by omega, show p + 3 < png.length by omega]
  show fromBe [b0, b1, b2, b3] = _
  rw [hfield, h0, h1, h2, h3, hp1, hp2, hp3]

theorem slice_eq {p k stop : ℕ} (hstop : stop = p + k) (h : p + k ≤ png.length) :
    (slice png p stop : Res (List UInt8)) = .ok (field png p k) := by
  subst hstop
  rw [slice, if_pos ⟨Nat.le_add_right p k, h⟩, field, List.drop_take, Nat.add_sub_cancel_left]

/-- on a file that is long enough the checks are the plain ones -/
theorem skinPngDimensions_eq (buf : List UInt8) :
    skinPngDimensions buf = .ok (Backgrounds.skinPngDimensions buf) := by
  rw [skinPngDimensions, Backgrounds.skinPngDimensions]
  by_cases hshort : buf.length < 24
  · rw [if_pos hshort, if_pos (Or.inl hshort)]
    rfl
  · rw [if_neg hshort, slice_eq (p := 0) (k := 8) rfl (by omega), slice_eq (p := 12) (k := 4) rfl (by omega),
      slice_eq (p := 16) (k := 4) rfl (by omega), slice_eq (p := 20) (k := 4) rfl (by omega)]
    simp only [bind, Except.bind, pure, Except.pure, field, List.drop_zero, hshort, false_or]
    by_cases hmagic : buf.take 8 = pngMagic
    · by_cases hkind : (buf.drop 12).take 4 = ihdr
      · simp only [hmagic, hkind, ne_eq, not_true_eq_false, or_self, if_false]
        rfl
      · simp [hmagic, hkind]
    · simp [hmagic]

/-- what a file of a skin's size begins with -/
structure IsSkin (png : List UInt8) : Prop where
  long : 24 ≤ png.length
  magic : png.take 8 = pngMagic
  width : fromBe (field png 16 4) = 64
  height : fromBe (field png 20 4) = 64 ∨ fromBe (field png 20 4) = 32

theorem isValidSkinPng_ends (png : List UInt8) :
    Ends E (fun valid => valid = true → IsSkin png) (isValidSkinPng png) := by
  rw [isValidSkinPng, skinPngDimensions_eq]
  intro hvalid
  obtain ⟨dims, hdims, hsize⟩ := (Option.any_eq_true _ _).1 hvalid
  rw [Backgrounds.skinPngDimensions] at hdims
  split_ifs at hdims with hbad
  obtain ⟨-, hsome⟩ := Option.ite_none_right_eq_some.1 hdims
  cases hsome
  simp only [not_or, not_not, not_lt] at hbad
  simp only [isSkinSize, Bool.and_eq_true, Bool.or_eq_true, decide_eq_true_eq] at hsize
  exact ⟨hbad.1, hbad.2.1, hsize.1, hsize.2⟩

/-! ## The chunks -/

/-- the loop is inside of the file, at the first chunk until it has seen the header and with its size from then on -/
structure Scanned (png : List UInt8) (st : Scan) : Prop where
  inside : st.pos ≤ png.length
  first : st.seenIhdr = false → st.pos = 8
  width : st.seenIhdr = true → st.width = 64
  height : st.seenIhdr = true → st.height = 64 ∨ st.height = 32

/-- what a turn leaves -/
def Advances (png : List UInt8) (pos : ℕ) : Turn → Prop
  | .next st => Scanned png st ∧ pos < st.pos
  | .leave st => Scanned png st

variable (hskin : IsSkin png) (hroom : png.length < 2 ^ 63)

include hroom in
theorem header_ends {start len : ℕ} {kind : List UInt8} (hlen : start + len + 4 ≤ png.length) :
    Ends Stop.IsErr (fun dims => dims = (fromBe (field png start 4), fromBe (field png (start + 4) 4)))
      (header png start len kind) := by
  rw [header]
  split_ifs with hbad
  · exact trivial
  · rw [not_or, not_not, not_not] at hbad
    refine bind_ends (rd_ends (by omega) hroom) fun width hwidth => ?_
    refine bind_ends (add_ends (by omega)) fun p4 hp4 => ?_
    refine bind_ends (rd_ends (by omega) hroom) fun height hheight => ?_
    refine bind_ends (add_ends (by omega)) fun p8 hp8 => ?_
    refine bind_ends (index_ends (by omega) 0) fun depth _ => ?_
    refine bind_ends (add_ends (by omega)) fun p9 hp9 => ?_
    refine bind_ends (index_ends (by omega) 0) fun color _ => ?_
    refine bind_ends (add_ends (by omega)) fun p10 hp10 => ?_
    refine bind_ends (index_ends (by omega) 0) fun comp _ => ?_
    refine bind_ends (add_ends (by omega)) fun p11 hp11 => ?_
    refine bind_ends (index_ends (by omega) 0) fun filter _ => ?_
    refine bind_ends (add_ends (by omega)) fun p12 hp12 => ?_
    refine bind_ends (index_ends (by omega) 0) fun interlace _ => ?_
    split_ifs
    · exact trivial
    · exact trivial
    · exact trivial
    · show (width, height) = _
      rw [hwidth, hheight, hp4]

include hskin hroom in
theorem chunk_ends {st : Scan} (hst : Scanned png st) (hpos : st.pos + 8 ≤ png.length) :
    Ends Stop.IsErr (Advances png st.pos) (chunk png st) := by
  rw [chunk]
  refine bind_ends (rd_ends (by omega) hroom) fun len hlen => ?_
  refine bind_ends (add_ends (by omega)) fun p4 hp4 => ?_
  refine bind_ends (add_ends (by omega)) fun p8 hp8 => ?_
  refine bind_ends (slice_field (k := 4) (by omega) (by omega)) fun kind hkind => ?_
  refine bind_ends (add_ends (by omega)) fun start hstart => ?_
  have hshort : len < 2 ^ 32 := by
    have hlt := fromBe_lt (field png st.pos 4)
    have hfour : (field png st.pos 4).length ≤ 4 := List.length_take_le 4 _
    calc len = fromBe (field png st.pos 4) := hlen
      _ < 256 ^ (field png st.pos 4).length := hlt
      _ ≤ 256 ^ 4 := Nat.pow_le_pow_right (by decide) hfour
  refine ite_ends (fun _ => trivial) fun _ => ?_
  refine bind_ends (add_ends (by omega)) fun next hnext => ?_
  refine ite_ends (fun _ => trivial) fun hinside => ?_
  rw [dispatch]
  refine ite_ends (fun hfirst => ?_) fun hseen => ?_
  · refine bind_ends (header_ends hroom (by omega)) fun dims hdims => ?_
    have hp := hst.first hfirst
    refine ⟨⟨not_lt.1 hinside, fun h => (nomatch h), fun _ => ?_, fun _ => ?_⟩, ?_⟩
    · show dims.1 = 64
      rw [hdims, hstart, hp]
      exact hskin.width
    · show dims.2 = 64 ∨ dims.2 = 32
      rw [hdims, hstart, hp]
      exact hskin.height
    · show st.pos < next
      omega
  refine ite_ends (fun _ => ?_) fun _ => ite_ends (fun _ => hst) fun _ => ?_
  · refine bind_ends (slice_field (k := len) rfl (by omega)) fun data _ => ?_
    exact ⟨⟨not_lt.1 hinside, fun h => absurd h hseen, hst.width, hst.height⟩, show st.pos < next by omega⟩
  · exact ⟨⟨not_lt.1 hinside, fun h => absurd h hseen, hst.width, hst.height⟩, show st.pos < next by omega⟩

include hskin hroom in
/-- **The loop over the chunks ends.** The position grows in every turn. -/
theorem scan_ends {fuel : ℕ} {st : Scan} (hst : Scanned png st) (hfuel : png.length < st.pos + fuel) :
    Ends Stop.IsErr (Scanned png) (scan png fuel st) := by
  have hinside := hst.inside
  induction fuel generalizing st with
  | zero => omega
  | succ fuel ih =>
    rw [scan]
    refine bind_ends (add_ends (by omega)) fun p8 hp8 => ?_
    refine ite_ends (fun hmore => ?_) fun _ => hst
    refine bind_ends (chunk_ends hskin hroom hst (by omega)) fun turn hturn => ?_
    cases turn with
    | leave st' => exact hturn
    | next st' => exact ih hturn.1 (by have hadvance := hturn.2; omega) hturn.1.inside

/-! ## The filters -/

/-- the predictor of the format: the nearest to the sum of left and above without the one between, the left one first -/
def paethOf (a b c : UInt8) : UInt8 :=
  let p : ℤ := (a.toNat : ℤ) + b.toNat - c.toNat
  if |p - a.toNat| ≤ |p - b.toNat| ∧ |p - a.toNat| ≤ |p - c.toNat| then a
  else if |p - b.toNat| ≤ |p - c.toNat| then b
  else c

def averageOf (a b : UInt8) : UInt8 := .ofNat ((a.toNat + b.toNat) / 2)

def predictOf (f a b c : UInt8) : UInt8 :=
  if f = 1 then a else if f = 2 then b else if f = 3 then averageOf a b else paethOf a b c

-- kept folded, so that a goal about sums of bytes is not evaluated up to the width
attribute [local irreducible] signed add

/-- **The predictor's 16 bits have room.** -/
theorem paeth_ends (a b c : UInt8) : Ends E (fun x => x = paethOf a b c) (paeth a b c) := by
  have ha := a.toNat_lt
  have hb := b.toNat_lt
  have hc := c.toNat_lt
  refine bind_ends (signed_ends (by omega) (by omega)) fun sum hsum => ?_
  refine bind_ends (signed_ends (by omega) (by omega)) fun p hp => ?_
  refine bind_ends (signed_ends (by omega) (by omega)) fun da hda => ?_
  refine bind_ends (signed_abs_ends (by omega) (by omega)) fun pa hpa => ?_
  refine bind_ends (signed_ends (by omega) (by omega)) fun db hdb => ?_
  refine bind_ends (signed_abs_ends (by omega) (by omega)) fun pb hpb => ?_
  refine bind_ends (signed_ends (by omega) (by omega)) fun dc hdc => ?_
  refine bind_ends (signed_abs_ends (by omega) (by omega)) fun pc hpc => ?_
  subst hsum hp hda hpa hdb hpb hdc hpc
  exact rfl

theorem predict_ends (f a b c : UInt8) : Ends E (fun x => x = predictOf f a b c) (predict f a b c) := by
  rw [predict, predictOf]
  split_ifs
  · exact rfl
  · exact rfl
  · have ha := a.toNat_lt
    have hb := b.toNat_lt
    refine bind_ends (add_ends (by omega)) fun sum hsum => ?_
    show UInt8.ofNat (sum / 2) = averageOf a b
    rw [hsum, averageOf]
  · exact paeth_ends a b c

theorem left_ends {l : List UInt8} {i : ℕ} (h : i < l.length) : Ends E (fun x => x = back 4 l i) (left l i) := by
  rw [left, back]
  split_ifs
  · exact index_ends (by omega) 0
  · exact rfl

/-- one byte of a row, as the receiver of the differences has it -/
theorem unfilterByte_ends {f : UInt8} {row prev out : List UInt8} {i : ℕ} (hrow : i < row.length)
    (hprev : i < prev.length) (hout : i < out.length) :
    Ends E (fun out' => out' = restoreAt (predictOf f) 4 prev row out i) (unfilterByte f row prev out i) := by
  refine bind_ends (left_ends hout) fun a ha => ?_
  refine bind_ends (index_ends hprev 0) fun b hb => ?_
  refine bind_ends (left_ends hprev) fun c hc => ?_
  refine bind_ends (predict_ends f a b c) fun pred hpred => ?_
  refine bind_ends (index_ends hrow 0) fun x hx => ?_
  refine (store_ends (x + pred) hout).mono fun out' hout' => ?_
  rw [hout', hpred, ha, hb, hc, hx]
  rfl

/-- the loop over the bytes of a row -/
theorem unfilterBytes_ends {f : UInt8} {stride : ℕ} {row prev out : List UInt8} (hrow : row.length = stride)
    (hprev : prev.length = stride) (hout : out.length = stride) :
    Ends E (fun out' => out' = restore (predictOf f) 4 prev row out)
      ((List.range stride).foldlM (unfilterByte f row prev) out) := by
  have hloop := foldlM_ends (E := E) (n := stride) (f := unfilterByte f row prev)
    (I := fun k out' => out'.length = stride ∧ out' = (List.range k).foldl (restoreAt (predictOf f) 4 prev row) out)
    (b := out) (fun i hi out' hout' => ?_) ⟨hout, rfl⟩
  · exact hloop.mono fun out' hout' => by rw [restore, hout]; exact hout'.2
  · refine (unfilterByte_ends (by omega) (by omega) (by omega)).mono fun out'' h => ?_
    refine ⟨by rw [h, restoreAt, List.length_set, hout'.1], ?_⟩
    rw [h, List.range_succ, List.foldl_append, ← hout'.2]
    rfl

theorem length_restore (pred : UInt8 → UInt8 → UInt8 → UInt8) (prev row out : List UInt8) :
    (restore pred 4 prev row out).length = out.length := by
  rw [restore]
  generalize List.range out.length = l
  induction l generalizing out with
  | nil => rfl
  | cons i l ih => rw [List.foldl_cons, ih, restoreAt, List.length_set]

theorem unfilterRow_ends {f : UInt8} {stride : ℕ} {row prev out : List UInt8} (hrow : row.length = stride)
    (hprev : prev.length = stride) (hout : out.length = stride) :
    Ends Stop.IsErr (fun out' => out'.length = stride) (unfilterRow f stride row prev out) := by
  rw [unfilterRow]
  refine ite_ends (fun _ => ?_) fun _ => ite_ends (fun _ => ?_) fun _ => trivial
  · exact (copyFrom_ends (hout.trans hrow.symm)).mono fun out' h => h ▸ hrow
  · exact (unfilterBytes_ends hrow hprev hout).mono fun out' h => by rw [h, length_restore, hout]

section Lines

variable {height : ℕ} {raw px prev : List UInt8} (hraw : raw.length = height * 257) (hpx : px.length = height * 256)
  (hprev : prev.length = 256) (hheight : height ≤ 64)

include hraw hpx hprev hheight

/-- one row of 64 pixels, from what undoing its filter ends with -/
theorem unfilterLine_ends {y : ℕ} (hy : y < height) {R : List UInt8 → Prop}
    (hrow : Ends E R
      (unfilterRow (raw.getD (y * 257) 0) 256 (field raw (y * 257 + 1) 256) prev (field px (y * 256) 256)))
    (hlength : ∀ out, R out → out.length = 256) :
    Ends E (fun st => ∃ out, R out ∧ st = (px.take (y * 256) ++ out ++ px.drop ((y + 1) * 256), out))
      (unfilterLine raw 256 (px, prev) y) := by
  refine bind_ends (add_ends (by omega)) fun line hline => ?_
  refine bind_ends (mul_ends (by rw [hline]; omega)) fun first hfirst => ?_
  rw [hline] at hfirst
  refine bind_ends (index_ends (by omega) 0) fun f hf => ?_
  refine bind_ends (add_ends (by omega)) fun start hstart => ?_
  refine bind_ends (add_ends (by omega)) fun y1 hy1 => ?_
  refine bind_ends (mul_ends (by rw [hline, hy1]; omega)) fun stop hstop => ?_
  rw [hline, hy1] at hstop
  refine bind_ends (slice_field (k := 256) (by omega) (by omega)) fun row hfield => ?_
  refine bind_ends (mul_ends (by omega)) fun low hlow => ?_
  refine bind_ends (add_ends (by omega)) fun y1' hy1' => ?_
  refine bind_ends (mul_ends (by rw [hy1']; omega)) fun high hhigh => ?_
  rw [hy1'] at hhigh
  refine bind_ends (slice_field (k := 256) (by omega) (by simp only; omega)) fun out hout => ?_
  rw [hf, hfield, hout, hstart, hfirst, hlow]
  refine bind_ends hrow fun out' hR => ?_
  have hlen := hlength out' hR
  refine bind_ends (write_ends (by omega) (by simp only; omega) (by omega)) fun px' hpx' => ?_
  refine bind_ends (copyFrom_ends (hprev.trans hlen.symm)) fun prev' hprev' => ?_
  refine ⟨out', hR, ?_⟩
  rw [hprev', hpx', hhigh]

end Lines

/-- **The filters stay inside of the rows.** -/
theorem unfilter_ends {height : ℕ} (hheight : height = 64 ∨ height = 32) (raw : List UInt8) :
    Ends Stop.IsErr (fun image => image.2.2.length = image.1 * image.2.1 * 4) (unfilter 64 height raw) := by
  refine bind_ends (mul_ends (by decide)) fun stride hstride => ?_
  refine bind_ends (add_ends (by omega)) fun line hline => ?_
  refine bind_ends (mul_ends (by rw [hline, hstride]; omega)) fun size hsize => ?_
  refine ite_ends (fun _ => trivial) fun hraw => ?_
  refine bind_ends (mul_ends (by omega)) fun pixels hpixels => ?_
  refine bind_ends (mul_ends (by omega)) fun count hcount => ?_
  rw [hline, hstride] at hsize
  subst hstride
  have hloop := foldlM_ends (E := Stop.IsErr) (n := height) (f := unfilterLine raw 256)
    (I := fun _ st => st.1.length = height * 256 ∧ st.2.length = 256)
    (b := (List.replicate count 0, List.replicate 256 0)) ?_ ?_
  · refine bind_ends hloop fun st hst => ?_
    show st.1.length = 64 * height * 4
    omega
  · intro y hy st hst
    have hlines : raw.length = height * 257 := by omega
    refine (unfilterLine_ends hlines hst.1 hst.2 (by omega) hy
      (unfilterRow_ends (by simp [field]; omega) hst.2 (by simp [field]; omega)) fun _ h => h).mono ?_
    rintro st' ⟨out, hout, rfl⟩
    refine ⟨?_, hout⟩
    simp only [List.length_append, List.length_take, List.length_drop, hout]
    omega
  · refine ⟨?_, List.length_replicate⟩
    rw [List.length_replicate]
    omega

/-- **Whatever the file, the decoder ends with an image of its size or with an error of its own.** -/
theorem decodeSkinRgba_ends (inflate : List UInt8 → Option (List UInt8)) (png : Buffer) :
    Ends Stop.IsErr (fun image => image.2.2.length = image.1 * image.2.1 * 4) (decodeSkinRgba inflate png) := by
  refine bind_ends (isValidSkinPng_ends png.val) fun valid hvalid => ?_
  refine ite_ends (fun _ => trivial) fun hskin => ?_
  have hfile := hvalid (by simpa using hskin)
  have hlong := hfile.long
  have hstart : Scanned png.val ⟨8, false, 0, 0, []⟩ :=
    ⟨by simp only; omega, fun _ => rfl, fun h => (nomatch h), fun h => (nomatch h)⟩
  refine bind_ends (scan_ends hfile png.property hstart (by simp only; omega)) fun st hst => ?_
  refine ite_ends (fun _ => trivial) fun hdata => ?_
  rw [not_or] at hdata
  have hseen : st.seenIhdr = true := by simpa using hdata.1
  cases inflate st.idat with
  | none => exact trivial
  | some raw =>
    simp only [hst.width hseen]
    exact unfilter_ends (hst.height hseen) raw

end EspectralClient.SkinPng
