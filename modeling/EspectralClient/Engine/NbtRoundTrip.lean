/-
`servers.dat` round trip. `Encodes` is the NBT format: what bytes spell a value, the elements of a list, or the entries
of a compound, within a number of nesting levels. The reader is complete for the format, so none of its guards (the
minimum element size, the depth cap, the clamping of strings, the end of the buffer) fires on well-formed bytes, and the
writer emits the format.

- `encodes_read`: the reader reads back every encoded item and stops right behind it.
- `writeServersDat_ok`, `payload_encodes`: the writer emits an encoding of the entries.
- `servers_dat_round_trip`: what is written parses to the same entries, without icons.
-/
import EspectralClient.Engine.Nbt

namespace EspectralClient.Nbt

open EspectralClient.Lib
open EspectralClient.Lib.Bytes

/-! ## The format -/

/-- a length-prefixed string -/
def strBytes (s : String) : List UInt8 := toBe 2 (utf8 s).length ++ utf8 s

/-- what a stretch of bytes can spell -/
inductive Item where
  | value (ty : UInt8) (v : NbtValue)
  | elems (ty : UInt8) (vs : List NbtValue)
  | entries (fs : List (String × NbtValue))

/-- the map a run of entries leaves; a repeated name keeps its last value -/
def insertAll (out fs : List (String × NbtValue)) : List (String × NbtValue) :=
  fs.foldl (fun out f => Assoc.insert f.1 f.2 out) out

/-- `Encodes n item bs`: the bytes spell the item with at most `n` levels of lists and compounds -/
inductive Encodes : ℕ → Item → List UInt8 → Prop where
  | byte {n bs} (h : bs.length = 1) : Encodes n (.value tagByte (.byte (.ofNat (fromBe bs)))) bs
  | short {n bs} (h : bs.length = 2) : Encodes n (.value tagShort (.short (.ofNat (fromBe bs)))) bs
  | int {n bs} (h : bs.length = 4) : Encodes n (.value tagInt (.int (.ofNat (fromBe bs)))) bs
  | long {n bs} (h : bs.length = 8) : Encodes n (.value tagLong (.long (.ofNat (fromBe bs)))) bs
  | float {n bs} (h : bs.length = 4) : Encodes n (.value tagFloat (.float (.ofNat (fromBe bs)))) bs
  | double {n bs} (h : bs.length = 8) : Encodes n (.value tagDouble (.double (.ofNat (fromBe bs)))) bs
  | string {n} (s : String) (h : (utf8 s).length ≤ 65535) : Encodes n (.value tagString (.string s)) (strBytes s)
  | byteArray {n} (bs : List UInt8) (h : bs.length < 2 ^ 31) :
      Encodes n (.value tagByteArray (.byteArray bs)) (toBe 4 bs.length ++ bs)
  | intArray {n} (ws : List (List UInt8)) (hw : ∀ w ∈ ws, w.length = 4) (h : ws.length < 2 ^ 31) :
      Encodes n (.value tagIntArray (.intArray (ws.map fun w => .ofNat (fromBe w)))) (toBe 4 ws.length ++ ws.flatten)
  | list {n ty vs bs} (h : Encodes n (.elems ty vs) bs) (hlen : vs.length < 2 ^ 31) :
      Encodes (n + 1) (.value tagList (.list vs)) (ty :: (toBe 4 vs.length ++ bs))
  | compound {n fs bs} (h : Encodes n (.entries fs) bs) :
      Encodes (n + 1) (.value tagCompound (.compound (insertAll [] fs))) bs
  | nilElem {n ty} : Encodes n (.elems ty []) []
  | consElem {n ty v vs b bs} (h : Encodes n (.value ty v) b) (ht : Encodes n (.elems ty vs) bs) :
      Encodes n (.elems ty (v :: vs)) (b ++ bs)
  | endEntry {n} : Encodes n (.entries []) [tagEnd]
  | entry {n ty name v fs b bs} (hname : (utf8 name).length ≤ 65535) (h : Encodes n (.value ty v) b)
      (ht : Encodes n (.entries fs) bs) : Encodes n (.entries ((name, v) :: fs)) (ty :: (strBytes name ++ (b ++ bs)))

/-! ## Reading at a position -/

namespace Reader

/-- the bytes from the cursor on are `s` -/
def At (r : Reader) (s : List UInt8) : Prop := ∃ pre, r.buf = pre ++ s ∧ r.off = pre.length

variable {r : Reader} {s xs : List UInt8}

theorem At.skip (h : r.At (xs ++ s)) : (r.skip xs.length).At s := by
  obtain ⟨pre, hb, ho⟩ := h
  exact ⟨pre ++ xs, by simp [Reader.skip, hb], by simp [Reader.skip, ho]⟩

theorem At.skip_cons {b : UInt8} (h : r.At (b :: s)) : (r.skip 1).At s := by
  have h' : r.At ([b] ++ s) := h
  exact h'.skip

theorem At.remaining (h : r.At s) : r.remaining = s.length := by
  obtain ⟨pre, hb, ho⟩ := h
  simp [Reader.remaining, hb, ho]

theorem At.off_lt {b : UInt8} (h : r.At (b :: s)) : r.off < r.buf.length := by
  obtain ⟨pre, hb, ho⟩ := h
  simp [hb, ho]

theorem At.deeper (h : r.At s) (d : ℕ) : ({ r with depth := d } : Reader).At s := h

theorem take_at (h : r.At (xs ++ s)) : r.take xs.length = .ok (xs, r.skip xs.length) := by
  obtain ⟨pre, hb, ho⟩ := h
  have hle : r.off + xs.length ≤ r.buf.length := by
    simp only [hb, ho, List.length_append]
    omega
  rw [take, if_pos hle, hb, ho, List.drop_left, List.take_left]

theorem be_at {n : ℕ} (h : r.At (xs ++ s)) (hn : xs.length = n) : r.be n = .ok (fromBe xs, r.skip n) := by
  subst hn
  simp [be, take_at h]

theorem u8_at {b : UInt8} (h : r.At (b :: s)) : r.u8 = .ok (b, r.skip 1) := by
  have h' : r.At ([b] ++ s) := h
  have hb : r.be 1 = .ok (b.toNat, r.skip 1) := by simpa [fromBe] using be_at h' rfl
  rw [u8, hb]
  simp

theorem u16_at {n : ℕ} (h : r.At (toBe 2 n ++ s)) (hn : n < 65536) : r.u16 = .ok (.ofNat n, r.skip 2) := by
  rw [u16, be_at h (length_toBe 2 n), fromBe_toBe hn]
  rfl

theorem i32_at {w : List UInt8} (h : r.At (w ++ s)) (hw : w.length = 4) :
    r.i32 = .ok (.ofNat (fromBe w), r.skip 4) := by
  rw [i32, be_at h hw]
  rfl

theorem clamped_at (h : r.At (xs ++ s)) : r.clamped xs.length = .ok (xs, r.skip xs.length) := by
  obtain ⟨pre, hb, ho⟩ := h
  have hlen : r.buf.length = pre.length + (xs.length + s.length) := by simp [hb]
  have hstart : min r.off r.buf.length = pre.length := by omega
  have hstop : min (r.off + xs.length) r.buf.length = pre.length + xs.length := by omega
  have hslice : slice r.buf pre.length (pre.length + xs.length) = .ok xs := by
    rw [slice, if_pos (by omega), hb]
    simp
  simp only [clamped, hstart, hstop, hslice, ok_bind]

theorem string_at {name : String} (h : r.At (strBytes name ++ s)) (hn : (utf8 name).length ≤ 65535) :
    r.string = .ok (name, r.skip (strBytes name).length) := by
  rw [strBytes, List.append_assoc] at h
  have hat : (r.skip 2).At (utf8 name ++ s) := by simpa using h.skip
  have hlen : (UInt16.ofNat (utf8 name).length).toNat = (utf8 name).length := by
    rw [UInt16.toNat_ofNat']
    omega
  simp [string, u16_at h (by omega), hlen, clamped_at hat, fromUtf8Lossy_utf8, strBytes]

end Reader

/-- a count that an `i32` holds is not clamped -/
theorem clampCount_ofNat {n : ℕ} (h : n < 2 ^ 31) : clampCount (.ofNat n) = n := by
  rw [clampCount, Int32.toInt_ofNat_of_lt h]
  rfl

theorem count_at {r : Reader} {s : List UInt8} {n : ℕ} (h : r.At (toBe 4 n ++ s)) (hn : n < 2 ^ 31) :
    ∃ c, r.i32 = .ok (c, r.skip 4) ∧ clampCount c = n := by
  refine ⟨_, Reader.i32_at h (length_toBe 4 n), ?_⟩
  rw [fromBe_toBe (by omega), clampCount_ofNat hn]

/-! ## The reader is complete for the format -/

/-- the bytes an item needs at least -/
def Item.atLeast : Item → ℕ
  | .value ty _ => minSize ty
  | .elems ty vs => vs.length * minSize ty
  | .entries fs => fs.length + 1

/-- The guard on declared counts never rejects an encoded list. -/
theorem Encodes.atLeast_le {n : ℕ} {item : Item} {bs : List UInt8} (h : Encodes n item bs) :
    item.atLeast ≤ bs.length := by
  induction h with
  | byte h | short h | int h | long h | float h | double h =>
    simp only [Item.atLeast, h]
    decide
  | string s h => simp [Item.atLeast, strBytes, show minSize tagString = 2 from rfl]
  | byteArray bs h => simp [Item.atLeast, show minSize tagByteArray = 4 from rfl]
  | intArray ws hw h => simp [Item.atLeast, show minSize tagIntArray = 4 from rfl]
  | list h hlen ih =>
    simp only [Item.atLeast, show minSize tagList = 5 from rfl, List.length_cons, List.length_append, length_toBe]
    omega
  | compound h ih =>
    simp only [Item.atLeast, show minSize tagCompound = 1 from rfl] at ih ⊢
    omega
  | nilElem => simp [Item.atLeast]
  | consElem h ht ih iht =>
    simp only [Item.atLeast, List.length_cons, List.length_append, Nat.succ_mul] at ih iht ⊢
    omega
  | endEntry => simp [Item.atLeast]
  | entry hname h ht ih iht =>
    simp only [Item.atLeast, List.length_cons, List.length_append] at iht ⊢
    omega

/-- what reading an item's bytes must do, wherever they stand and at every depth that leaves room for its levels -/
def Reads (n : ℕ) (bs : List UInt8) : Item → Prop
  | .value ty v => ∀ (r : Reader) (s : List UInt8), r.At (bs ++ s) → r.depth + n ≤ maxDepth →
      value n ty r = .ok (v, r.skip bs.length)
  | .elems ty vs => ∀ (r : Reader) (s : List UInt8) (arr : List NbtValue), r.At (bs ++ s) → r.depth + n ≤ maxDepth →
      listLoop (value n) ty vs.length arr r = .ok (arr ++ vs, r.skip bs.length)
  | .entries fs => ∀ (r : Reader) (s : List UInt8) (out : List (String × NbtValue)) (steps : ℕ), r.At (bs ++ s) →
      r.depth + n ≤ maxDepth → bs.length ≤ steps →
      compoundLoop (value n) steps out r = .ok (insertAll out fs, r.skip bs.length)

/-- leaving undoes entering, however far the cursor moved in between -/
theorem leave_enter (r : Reader) (n : ℕ) :
    (({ r with depth := r.depth + 1 } : Reader).skip n).leave = .ok (r.skip n) := by
  simp [Reader.leave, Reader.skip]

theorem reads_list {n : ℕ} {ty : UInt8} {vs : List NbtValue} {bs : List UInt8} (h : Encodes n (.elems ty vs) bs)
    (hlen : vs.length < 2 ^ 31) (ih : Reads n bs (.elems ty vs)) :
    Reads (n + 1) (ty :: (toBe 4 vs.length ++ bs)) (.value tagList (.list vs)) := by
  intro r s hat hd
  simp only [List.cons_append, List.append_assoc] at hat
  obtain ⟨c, hc, hcount⟩ := count_at hat.skip_cons hlen
  have hat' : (r.skip 5).At (bs ++ s) := by simpa using hat.skip_cons.skip
  -- the declared count fits the bytes that remain
  have hfit : ¬ (r.skip 5).remaining < vs.length * minSize ty := by
    have hle := h.atLeast_le
    simp only [Item.atLeast] at hle
    rw [hat'.remaining, List.length_append]
    omega
  have hloop := ih { r.skip 5 with depth := r.depth + 1 } s [] (hat'.deeper _) (by simp only; omega)
  have hlist : readList (value n) r = .ok (vs, r.skip (5 + bs.length)) := by
    simp only [readList, Reader.u8_at hat, hc, hcount, ok_bind, Reader.skip_skip]
    rw [if_neg hfit, Reader.enter_ok (by simp only [Reader.skip_depth]; omega)]
    simp only [ok_bind, Reader.skip_depth, hloop, List.nil_append]
    rw [show r.depth = (r.skip 5).depth from rfl, leave_enter]
    simp
  have hv : value (n + 1) tagList r = (readList (value n) r >>= fun p => .ok (.list p.1, p.2)) := rfl
  rw [hv, hlist]
  simp [Nat.add_comm, Nat.add_left_comm]

theorem reads_compound {n : ℕ} {fs : List (String × NbtValue)} {bs : List UInt8} (ih : Reads n bs (.entries fs)) :
    ∀ (r : Reader) (s : List UInt8), r.At (bs ++ s) → r.depth + (n + 1) ≤ maxDepth →
      compound (value n) r = .ok (insertAll [] fs, r.skip bs.length) := by
  intro r s hat hd
  have hsteps : bs.length ≤ ({ r with depth := r.depth + 1 } : Reader).remaining := by
    rw [(hat.deeper _).remaining, List.length_append]
    omega
  have hloop := ih { r with depth := r.depth + 1 } s [] _ (hat.deeper _) (by simp only; omega) hsteps
  rw [compound, Reader.enter_ok (by omega)]
  simp only [ok_bind, hloop, leave_enter]

theorem reads_entry {n : ℕ} {ty : UInt8} {name : String} {v : NbtValue} {fs : List (String × NbtValue)}
    {b bs : List UInt8} (hname : (utf8 name).length ≤ 65535) (hty : ty ≠ tagEnd) (ih : Reads n b (.value ty v))
    (iht : Reads n bs (.entries fs)) : Reads n (ty :: (strBytes name ++ (b ++ bs))) (.entries ((name, v) :: fs)) := by
  intro r s out steps hat hd hsteps
  simp only [List.cons_append, List.append_assoc] at hat
  obtain ⟨steps, rfl⟩ : ∃ m, steps = m + 1 := ⟨steps - 1, by simp only [List.length_cons] at hsteps; omega⟩
  have hat1 := hat.skip_cons
  have hat2 := hat1.skip
  have hat3 := hat2.skip
  have htail := iht _ s (Assoc.insert name v out) steps hat3 hd (by
    simp only [List.length_cons, List.length_append] at hsteps
    omega)
  simp only [compoundLoop, if_pos hat.off_lt, Reader.u8_at hat, ok_bind, if_neg hty, Reader.string_at hat1 hname,
    ih _ _ hat2 hd, htail]
  have hend : 1 + ((strBytes name).length + (b.length + bs.length)) = (ty :: (strBytes name ++ (b ++ bs))).length := by
    simp only [List.length_cons, List.length_append]
    omega
  simp only [Reader.skip_skip, Nat.add_assoc]
  rw [hend]
  rfl

theorem reads_ints {r : Reader} {s : List UInt8} (ws : List (List UInt8)) (hw : ∀ w ∈ ws, w.length = 4)
    (hat : r.At (ws.flatten ++ s)) (arr : List Int32) :
    intLoop ws.length arr r = .ok (arr ++ ws.map fun w => .ofNat (fromBe w), r.skip ws.flatten.length) := by
  induction ws generalizing r arr with
  | nil => simp [intLoop, Reader.skip]
  | cons w ws ih =>
    rw [List.flatten_cons, List.append_assoc] at hat
    have hlen : w.length = 4 := hw w (by simp)
    have hat' := hat.skip
    rw [hlen] at hat'
    simp only [List.length_cons, intLoop, Reader.i32_at hat hlen, ok_bind,
      ih (fun w hm => hw w (by simp [hm])) hat']
    simp [hlen]

/-- an encoded value never has the tag that ends a compound -/
theorem Encodes.ne_tagEnd {n : ℕ} {ty : UInt8} {v : NbtValue} {bs : List UInt8} (h : Encodes n (.value ty v) bs) :
    ty ≠ tagEnd := by
  cases h <;> decide

/-- **Completeness.** The reader reads back every encoded item, and stops right behind it. -/
theorem encodes_read {n : ℕ} {item : Item} {bs : List UInt8} (h : Encodes n item bs) : Reads n bs item := by
  induction h with
  | @byte n bs h | @short n bs h | @long n bs h | @float n bs h | @double n bs h =>
    intro r s hat hd
    have hb := Reader.be_at hat h
    rw [value_eq]
    simp [valueOf, tagByte, tagShort, tagInt, tagLong, tagFloat, tagDouble, hb, h]
  | @int n bs h =>
    intro r s hat hd
    have hb := Reader.i32_at hat h
    rw [value_eq]
    simp [valueOf, tagByte, tagShort, tagInt, hb, h]
  | @string n str h =>
    intro r s hat hd
    have hv : value n tagString r = (r.string >>= fun p => .ok (.string p.1, p.2)) := by
      rw [value_eq]
      rfl
    rw [hv, Reader.string_at hat h]
    rfl
  | @byteArray n bs h =>
    intro r s hat hd
    rw [List.append_assoc] at hat
    obtain ⟨c, hc, hcount⟩ := count_at hat h
    have hat' : (r.skip 4).At (bs ++ s) := by simpa using hat.skip
    have hv : value n tagByteArray r = (readByteArray r >>= fun p => .ok (.byteArray p.1, p.2)) := by
      rw [value_eq]
      rfl
    simp [hv, readByteArray, hc, hcount, Reader.clamped_at hat']
  | @intArray n ws hw h =>
    intro r s hat hd
    rw [List.append_assoc] at hat
    obtain ⟨c, hc, hcount⟩ := count_at hat h
    have hat' : (r.skip 4).At (ws.flatten ++ s) := by simpa using hat.skip
    have hflat : ws.flatten.length = ws.length * 4 := by
      rw [List.length_flatten, List.map_congr_left hw]
      simp
    have hfit : ¬ (r.skip 4).remaining < ws.length * 4 := by
      rw [hat'.remaining, List.length_append]
      omega
    have hv : value n tagIntArray r = (readIntArray r >>= fun p => .ok (.intArray p.1, p.2)) := by
      rw [value_eq]
      rfl
    simp only [hv, readIntArray, hc, hcount, ok_bind, if_neg hfit, reads_ints ws hw hat']
    simp
  | list h hlen ih => exact reads_list h hlen ih
  | @compound n fs bs h ih =>
    intro r s hat hd
    have hv : value (n + 1) tagCompound r = (compound (value n) r >>= fun p => .ok (.compound p.1, p.2)) := rfl
    rw [hv, reads_compound ih r s hat hd]
    rfl
  | nilElem =>
    intro r s arr hat hd
    simp [listLoop, Reader.skip]
  | @consElem n ty v vs b bs h ht ih iht =>
    intro r s arr hat hd
    rw [List.append_assoc] at hat
    simp only [List.length_cons, listLoop, ih r _ hat hd, ok_bind, iht _ s _ hat.skip hd]
    simp
  | endEntry =>
    intro r s out steps hat hd hsteps
    obtain ⟨steps, rfl⟩ : ∃ m, steps = m + 1 := ⟨steps - 1, by simp only [List.length_cons] at hsteps; omega⟩
    simp [compoundLoop, if_pos hat.off_lt, Reader.u8_at hat, insertAll]
  | entry hname h ht ih iht => exact reads_entry hname h.ne_tagEnd ih iht

/-! ## The writer emits the format -/

/-- the compound an entry is written as -/
def entryFields (e : ServerEntry) : List (String × NbtValue) :=
  [("hidden", .byte (if e.hidden then 1 else 0)), ("ip", .string e.ip), ("name", .string e.name),
    ("icon", .string ""), ("acceptTextures", .byte (if e.acceptTextures then 1 else 0))]

/-- the names and addresses a `servers.dat` string can hold -/
def Fits (e : ServerEntry) : Prop := (utf8 e.name).length ≤ 65535 ∧ (utf8 e.ip).length ≤ 65535

instance (e : ServerEntry) : Decidable (Fits e) := inferInstanceAs (Decidable (_ ∧ _))

/-- the bytes an entry is written as -/
def entryBytes (e : ServerEntry) : List UInt8 :=
  tagByte :: (strBytes "hidden" ++ ([flag e.hidden] ++
    tagString :: (strBytes "ip" ++ (strBytes e.ip ++
    tagString :: (strBytes "name" ++ (strBytes e.name ++
    tagString :: (strBytes "icon" ++ (strBytes "" ++
    tagByte :: (strBytes "acceptTextures" ++ ([flag e.acceptTextures] ++ [tagEnd]))))))))))

theorem flag_encodes (n : ℕ) (b : Bool) : Encodes n (.value tagByte (.byte (if b then 1 else 0))) [flag b] := by
  have h : Encodes n (.value tagByte (.byte (.ofNat (fromBe [flag b])))) [flag b] := .byte rfl
  cases b <;> exact h

theorem entry_encodes (n : ℕ) {e : ServerEntry} (h : Fits e) : Encodes n (.entries (entryFields e)) (entryBytes e) :=
  .entry (by decide) (flag_encodes n _) <|
  .entry (by decide) (.string _ h.2) <|
  .entry (by decide) (.string _ h.1) <|
  .entry (by decide) (.string _ (by decide)) <|
  .entry (by decide) (flag_encodes n _) .endEntry

theorem putStr_ok (out : List UInt8) {s : String} (h : (utf8 s).length ≤ 65535) :
    putStr out s = .ok (out ++ strBytes s) := by
  rw [putStr, if_pos h, List.append_assoc]
  rfl

theorem putStr_long (out : List UInt8) {s : String} (h : ¬ (utf8 s).length ≤ 65535) :
    putStr out s = .error .outOfRange := if_neg h

theorem writeEntry_ok (out : List UInt8) {e : ServerEntry} (h : Fits e) :
    writeEntry out e = .ok (out ++ entryBytes e) := by
  have hkey : ∀ (k : String) (out : List UInt8), k ∈ ["hidden", "ip", "name", "icon", "", "acceptTextures"] →
      putStr out k = .ok (out ++ strBytes k) := by
    intro k out hk
    refine putStr_ok out ?_
    revert k
    decide
  simp only [writeEntry, hkey, List.mem_cons, true_or, or_true, bind, Except.bind, putStr_ok _ h.1, putStr_ok _ h.2]
  simp [entryBytes]

theorem writeEntry_long (out : List UInt8) {e : ServerEntry} (h : ¬ Fits e) :
    writeEntry out e = .error .outOfRange := by
  by_cases hip : (utf8 e.ip).length ≤ 65535
  · have hname : ¬ (utf8 e.name).length ≤ 65535 := fun hn => h ⟨hn, hip⟩
    simp only [writeEntry, putStr_ok _ hip, putStr_long _ hname,
      putStr_ok _ (show (utf8 "hidden").length ≤ 65535 by decide),
      putStr_ok _ (show (utf8 "ip").length ≤ 65535 by decide),
      putStr_ok _ (show (utf8 "name").length ≤ 65535 by decide), bind, Except.bind]
  · simp only [writeEntry, putStr_long _ hip,
      putStr_ok _ (show (utf8 "hidden").length ≤ 65535 by decide),
      putStr_ok _ (show (utf8 "ip").length ≤ 65535 by decide), bind, Except.bind]

theorem writeEntries_ok (entries : List ServerEntry) (out : List UInt8) (h : ∀ e ∈ entries, Fits e) :
    entries.foldlM writeEntry out = .ok (out ++ entries.flatMap entryBytes) := by
  induction entries generalizing out with
  | nil => simp [pure, Except.pure]
  | cons e es ih =>
    rw [List.foldlM_cons, writeEntry_ok out (h e (by simp))]
    show es.foldlM writeEntry (out ++ entryBytes e) = _
    rw [ih _ fun e' he => h e' (by simp [he])]
    simp

theorem writeEntries_long (entries : List ServerEntry) (out : List UInt8) (h : ∃ e ∈ entries, ¬ Fits e) :
    entries.foldlM writeEntry out = .error .outOfRange := by
  induction entries generalizing out with
  | nil => simp at h
  | cons e es ih =>
    rw [List.foldlM_cons]
    by_cases he : Fits e
    · have htail : ∃ e' ∈ es, ¬ Fits e' := by
        obtain ⟨e', hm, hn⟩ := h
        rcases List.mem_cons.1 hm with rfl | hm
        · exact absurd he hn
        · exact ⟨e', hm, hn⟩
      rw [writeEntry_ok out he]
      exact ih _ htail
    · rw [writeEntry_long out he]
      rfl

/-- the root compound's entries as they are written -/
def rootBytes (entries : List ServerEntry) : List UInt8 :=
  tagList :: (strBytes "servers" ++
    (tagCompound :: (toBe 4 entries.length ++ entries.flatMap entryBytes) ++ [tagEnd]))

theorem writeServersDat_ok {entries : List ServerEntry} (hlen : entries.length ≤ 2 ^ 31 - 1)
    (h : ∀ e ∈ entries, Fits e) :
    writeServersDat entries = .ok (tagCompound :: (strBytes "" ++ rootBytes entries)) := by
  simp only [writeServersDat, putStr_ok _ (show (utf8 "servers").length ≤ 65535 by decide), bind, Except.bind,
    if_neg (Nat.not_lt.2 hlen), writeEntries_ok _ _ h]
  simp [rootBytes, strBytes]

/-- the value an entry is read as -/
def entryValue (e : ServerEntry) : NbtValue := .compound (insertAll [] (entryFields e))

theorem entries_encode (n : ℕ) (entries : List ServerEntry) (h : ∀ e ∈ entries, Fits e) :
    Encodes (n + 1) (.elems tagCompound (entries.map entryValue)) (entries.flatMap entryBytes) := by
  induction entries with
  | nil => exact .nilElem
  | cons e es ih =>
    have hhead := Encodes.compound (entry_encodes n (h e (by simp)))
    exact .consElem hhead (ih fun e' he => h e' (by simp [he]))

theorem root_encodes (n : ℕ) {entries : List ServerEntry} (hlen : entries.length ≤ 2 ^ 31 - 1)
    (h : ∀ e ∈ entries, Fits e) :
    Encodes (n + 2) (.entries [("servers", .list (entries.map entryValue))]) (rootBytes entries) := by
  have helems := entries_encode n entries h
  have hlist := Encodes.list helems (by rw [List.length_map]; omega)
  rw [List.length_map] at hlist
  exact .entry (by decide) hlist .endEntry

theorem entryFromValue_entryValue (e : ServerEntry) :
    entryFromValue (entryValue e) = { e with hasIcon := false } := by
  have hone : ∀ b : Bool, NbtValue.isJsOne (.byte (if b then 1 else 0)) = b := by decide
  simp [entryValue, entryFields, insertAll, Assoc.insert, entryFromValue, NbtValue.asStr, hone]

/-! ## Round trip -/

/-- the version prefixes a reader skips, and none -/
def prefixes : List (List UInt8) := [[], [0x02], [0x03]]

theorem parse_payload {pre : List UInt8} (hpre : pre ∈ prefixes) {body : List UInt8}
    {fs : List (String × NbtValue)} (h : Encodes (maxDepth - 1) (.entries fs) body) :
    parseServersDat (pre ++ tagCompound :: (strBytes "" ++ body)) =
      .ok ((serversOf (insertAll [] fs)).map entryFromValue) := by
  set buf := pre ++ tagCompound :: (strBytes "" ++ body) with hbuf
  have hlen : prefixLen buf = pre.length := by
    simp only [prefixes, List.mem_cons, List.not_mem_nil, or_false] at hpre
    rcases hpre with rfl | rfl | rfl <;> rfl
  have hget : buf[pre.length]? = some tagCompound := by simp [hbuf]
  have hat : (Reader.mk buf (pre.length + 1) 0).At (strBytes "" ++ (body ++ [])) :=
    ⟨pre ++ [tagCompound], by simp [hbuf], by simp⟩
  have hroot := reads_compound (encodes_read h) _ [] hat.skip (by simp only [Reader.skip_depth]; decide)
  simp only [parseServersDat, hlen, hget, ne_eq, not_true_eq_false, if_false,
    Reader.string_at hat (by decide), ok_bind, rootCompound, hroot]

/-- **Round trip.** Entries whose strings fit are written, and what is written parses to the same entries in order,
without icons, with or without a version prefix. A name or address that does not fit fails the write. -/
theorem servers_dat_round_trip :
    (∀ entries : List ServerEntry, entries.length ≤ 2 ^ 31 - 1 → (∀ e ∈ entries, Fits e) →
      ∃ bytes, writeServersDat entries = .ok bytes ∧ ∀ pre ∈ prefixes,
        parseServersDat (pre ++ bytes) = .ok (entries.map fun e => { e with hasIcon := false })) ∧
    (∀ entries : List ServerEntry, (∃ e ∈ entries, ¬ Fits e) → writeServersDat entries = .error .outOfRange) := by
  refine ⟨fun entries hlen h => ⟨_, writeServersDat_ok hlen h, ?_⟩, ?_⟩
  · intro pre hpre
    rw [parse_payload hpre (root_encodes 61 hlen h)]
    simp [serversOf, insertAll, Assoc.insert, Function.comp_def, entryFromValue_entryValue]
  · intro entries h
    simp only [writeServersDat, putStr_ok _ (show (utf8 "servers").length ≤ 65535 by decide), bind, Except.bind,
      writeEntries_long _ _ h, ite_self]

theorem length_utf8_replicate (n : ℕ) : (utf8 (.ofList (List.replicate n 'a'))).length = n := by
  simp [utf8, List.length_flatMap, show Char.utf8Size 'a' = 1 from rfl]

theorem servers_dat_round_trip_example :
    (∃ bytes, writeServersDat [⟨"español 😀", "localhost", true, false, true⟩] = .ok bytes ∧ ∀ pre ∈ prefixes,
      parseServersDat (pre ++ bytes) = .ok [⟨"español 😀", "localhost", true, false, false⟩]) ∧
    writeServersDat [⟨.ofList (List.replicate 65536 'a'), "", false, false, false⟩] = .error .outOfRange := by
  refine ⟨servers_dat_round_trip.1 _ (by decide) (by decide),
    servers_dat_round_trip.2 _ ⟨_, List.mem_singleton_self _, ?_⟩⟩
  intro h
  have hname := h.1
  rw [length_utf8_replicate] at hname
  omega

end EspectralClient.Nbt
