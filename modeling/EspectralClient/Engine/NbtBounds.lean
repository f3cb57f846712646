/-
What untrusted NBT can cost. The reader never slices or indexes out of range, never nests deeper than `maxDepth` levels,
and decodes at most `maxDepth + 1` nodes for each byte of the buffer.

The bound is amortised. Before the end of the buffer every node is paid by a byte of its own (`Counted.paid`). Past the
end a list can still leave a tail of empty elements, one for each element it declared, and its count is checked
against the bytes that remain, so one level costs at most the remaining bytes once more (`Counted.total`).

- `value_returns`: the invariant for `value`, by induction on the levels.
- `value_below`: allowing more levels changes no result.
- `untrusted_nbt_bounded`: termination, safety and the bound for the root compound, and the number of entries.
-/
import EspectralClient.Engine.Nbt

namespace EspectralClient.Nbt

open EspectralClient.Lib
open EspectralClient.Lib.Bytes

/-! ## Nodes -/

mutual
/-- the values in a value, itself included, and the ints of its int arrays -/
def NbtValue.nodes : NbtValue → ℕ
  | .list vs => 1 + elemNodes vs
  | .compound fs => 1 + entryNodes fs
  | .intArray vs => 1 + vs.length
  | .byte _ | .short _ | .int _ | .long _ | .float _ | .double _ | .string _ | .byteArray _ => 1

def elemNodes : List NbtValue → ℕ
  | [] => 0
  | v :: vs => v.nodes + elemNodes vs

def entryNodes : List (String × NbtValue) → ℕ
  | [] => 0
  | (_, v) :: fs => v.nodes + entryNodes fs
end

theorem elemNodes_append (vs ws : List NbtValue) : elemNodes (vs ++ ws) = elemNodes vs + elemNodes ws := by
  induction vs with
  | nil => simp [elemNodes]
  | cons v vs ih => simp [elemNodes, ih, Nat.add_assoc]

/-- a repeated name replaces its value, so inserting adds at most the new one -/
theorem entryNodes_insert (name : String) (v : NbtValue) (out : List (String × NbtValue)) :
    entryNodes (Assoc.insert name v out) ≤ entryNodes out + v.nodes := by
  induction out with
  | nil => simp [Assoc.insert, entryNodes]
  | cons f out ih =>
    unfold Assoc.insert
    split_ifs <;> simp only [entryNodes] <;> omega

theorem minSize_pos (ty : UInt8) : 0 < minSize ty := by
  unfold minSize
  split_ifs <;> decide

/-! ## Outcomes -/

/-- the outcome is a value that meets `P`, or an error of the source: no panic, and the fuel sufficed -/
def Returns {α : Type} (P : α → Reader → Prop) : Except Fault (α × Reader) → Prop
  | .ok (a, r) => P a r
  | .error (.err _) => True
  | .error .panic => False
  | .error .outOfFuel => False

theorem Returns.bind {α β : Type} {P : α → Reader → Prop} {Q : β → Reader → Prop} {x : Except Fault (α × Reader)}
    {f : α × Reader → Except Fault (β × Reader)} (hx : Returns P x) (hf : ∀ a r, P a r → Returns Q (f (a, r))) :
    Returns Q (x >>= f) := by
  match x, hx with
  | .ok (a, r), hx => exact hf a r hx
  | .error (.err _), _ => trivial

theorem Returns.mono {α : Type} {P Q : α → Reader → Prop} {x : Except Fault (α × Reader)} (hx : Returns P x)
    (h : ∀ a r, P a r → Q a r) : Returns Q x := by
  match x, hx with
  | .ok (a, r), hx => exact h a r hx
  | .error (.err _), _ => trivial

/-- the cursor moves on in the same buffer, at the same depth -/
structure Moves (r r' : Reader) : Prop where
  buf : r'.buf = r.buf
  depth : r'.depth = r.depth
  off : r.off ≤ r'.off

theorem Moves.trans {r₁ r₂ r₃ : Reader} (h : Moves r₁ r₂) (h' : Moves r₂ r₃) : Moves r₁ r₃ :=
  ⟨h'.buf.trans h.buf, h'.depth.trans h.depth, h.off.trans h'.off⟩

theorem Moves.skip (r : Reader) (n : ℕ) : Moves r (r.skip n) := ⟨rfl, rfl, Nat.le_add_right ..⟩

/-! ### The primitive reads -/

/-- a fixed-width read moves by its width, within the buffer -/
def Fixed {α : Type} (r : Reader) (n : ℕ) (_ : α) (r' : Reader) : Prop :=
  r' = r.skip n ∧ r.off + n ≤ r.buf.length

theorem take_returns (r : Reader) (n : ℕ) : Returns (fun b r' => Fixed r n b r' ∧ b.length = n) (r.take n) := by
  unfold Reader.take
  split_ifs with h
  · refine ⟨⟨rfl, h⟩, ?_⟩
    rw [List.length_take, List.length_drop]
    omega
  · trivial

theorem be_returns (r : Reader) (n : ℕ) : Returns (Fixed r n) (r.be n) := by
  apply (take_returns r n).bind
  intro b r' h
  simp only [h.2, if_true]
  exact h.1

theorem u8_returns (r : Reader) : Returns (Fixed r 1) r.u8 := (be_returns r 1).bind fun _ _ h => h

theorem u16_returns (r : Reader) : Returns (Fixed r 2) r.u16 := (be_returns r 2).bind fun _ _ h => h

theorem i32_returns (r : Reader) : Returns (Fixed r 4) r.i32 := (be_returns r 4).bind fun _ _ h => h

/-- the clamped slice is in range wherever the cursor is -/
theorem clamped_returns (r : Reader) (n : ℕ) : Returns (fun _ r' => Moves r r') (r.clamped n) := by
  have hin : min r.off r.buf.length ≤ min (r.off + n) r.buf.length ∧
      min (r.off + n) r.buf.length ≤ r.buf.length := by omega
  simp only [Reader.clamped, slice, if_pos hin, ok_bind]
  exact Moves.skip r n

/-- a read of `n` bytes at least -/
structure Prefixed {α : Type} (n : ℕ) (r : Reader) (_ : α) (r' : Reader) : Prop extends Moves r r' where
  far : r.off + n ≤ r'.off

theorem Fixed.moves {α β : Type} {r r₁ r₂ : Reader} {n : ℕ} {a : α} {b : β} (h : Fixed r n a r₁) (h' : Moves r₁ r₂) :
    Prefixed n r b r₂ := by
  obtain ⟨rfl, -⟩ := h
  exact ⟨(Moves.skip r n).trans h', h'.off⟩

theorem string_returns (r : Reader) : Returns (Prefixed 2 r) r.string :=
  (u16_returns r).bind fun _ r₁ h => (clamped_returns r₁ _).bind fun _ _ h' => h.moves h'

theorem readByteArray_returns (r : Reader) : Returns (Prefixed 4 r) (readByteArray r) :=
  (i32_returns r).bind fun _ r₁ h => (clamped_returns r₁ _).mono fun _ _ h' => h.moves h'

/-! ## The measure -/

/-- a list of at most `L` elements, or no list -/
def Short (L : ℕ) (v : NbtValue) : Prop := ∀ vs, v = .list vs → vs.length ≤ L

/-- what reading one value at `r` leaves, when `K` more levels may be entered there -/
structure Counted (K : ℕ) (r : Reader) (v : NbtValue) (r' : Reader) : Prop extends Moves r r' where
  /-- before the end of the buffer every node is paid by a byte -/
  paid : r'.off < r.buf.length → v.nodes + r.off ≤ r'.off
  /-- in any case a value costs itself and the remaining bytes once for each level and once more -/
  total : v.nodes ≤ 1 + (K + 1) * r.remaining
  short : Short r.buf.length v

/-- nodes paid by the bytes before a position leave the bound for what follows -/
theorem spend {m c R R₁ K : ℕ} (hm : m ≤ c) (hR : c + R₁ ≤ R) : m + (K + 1) * R₁ ≤ (K + 1) * R := by
  have hc : c ≤ (K + 1) * c := Nat.le_mul_of_pos_left c (Nat.succ_pos K)
  calc m + (K + 1) * R₁ ≤ (K + 1) * c + (K + 1) * R₁ := by omega
    _ = (K + 1) * (c + R₁) := (Nat.mul_add ..).symm
    _ ≤ (K + 1) * R := Nat.mul_le_mul_left _ hR

/-- a value and all that the rest may cost, against what the value's position may cost -/
theorem Counted.spend {K : ℕ} {r r₁ : Reader} {v : NbtValue} (h : Counted K r v r₁) :
    v.nodes + (K + 1) * r₁.remaining ≤ 1 + (K + 1) * r.remaining := by
  have hoff := h.off
  by_cases hend : r₁.off < r.buf.length
  · have hpaid := h.paid hend
    have hR : (r₁.off - r.off) + r₁.remaining ≤ r.remaining := by
      rw [Reader.remaining, Reader.remaining, h.buf]
      omega
    have := EspectralClient.Nbt.spend (K := K) (m := v.nodes) (by omega) hR
    omega
  · have hR : r₁.remaining = 0 := by
      rw [Reader.remaining, h.buf]
      omega
    rw [hR]
    exact h.total

/-- `f` reads values wherever `K` more levels may be entered -/
def Bounded (K : ℕ) (f : UInt8 → Reader → Except Fault (NbtValue × Reader)) : Prop :=
  ∀ ty r, r.depth + K = maxDepth → Returns (Counted K r) (f ty r)

/-- what the element loop of a list leaves, from the elements `arr` -/
structure CountedElems (K count : ℕ) (arr : List NbtValue) (r : Reader) (vs : List NbtValue) (r' : Reader) : Prop
    extends Moves r r' where
  length : vs.length = arr.length + count
  paid : r'.off < r.buf.length → elemNodes vs + r.off ≤ elemNodes arr + r'.off
  total : elemNodes vs ≤ elemNodes arr + count + (K + 1) * r.remaining

/-- what the entry loop of a compound leaves, from the entries `out`; before the end it consumed its end tag as well -/
structure CountedEntries (K : ℕ) (out : List (String × NbtValue)) (r : Reader) (fs : List (String × NbtValue))
    (r' : Reader) : Prop extends Moves r r' where
  paid : r'.off < r.buf.length → entryNodes fs + r.off + 1 ≤ entryNodes out + r'.off
  total : entryNodes fs ≤ entryNodes out + (K + 1) * r.remaining
  short : (∀ f ∈ out, Short r.buf.length f.2) → ∀ f ∈ fs, Short r.buf.length f.2

section Loops
variable {K : ℕ} {f : UInt8 → Reader → Except Fault (NbtValue × Reader)} (hf : Bounded K f)
include hf

theorem listLoop_returns (elem : UInt8) (count : ℕ) (arr : List NbtValue) (r : Reader) (hd : r.depth + K = maxDepth) :
    Returns (CountedElems K count arr r) (listLoop f elem count arr r) := by
  induction count generalizing arr r with
  | zero => exact ⟨⟨rfl, rfl, Nat.le_refl _⟩, rfl, fun _ => Nat.le_refl _, by omega⟩
  | succ count ih =>
    apply (hf elem r hd).bind
    intro v r₁ hv
    apply (ih (arr ++ [v]) r₁ (by rw [hv.depth, hd])).mono
    intro vs r' h
    have hone : elemNodes (arr ++ [v]) = elemNodes arr + v.nodes := by simp [elemNodes_append, elemNodes]
    have hpaid := h.paid
    have htotal := h.total
    have hspend := hv.spend
    have hoff := h.off
    rw [hone, hv.buf] at hpaid
    rw [hone] at htotal
    refine ⟨hv.toMoves.trans h.toMoves, ?_, ?_, by omega⟩
    · rw [h.length, List.length_append, List.length_singleton]
      omega
    · intro hend
      have := hv.paid (by omega)
      have := hpaid hend
      omega

theorem compoundLoop_returns (steps : ℕ) (out : List (String × NbtValue)) (r : Reader) (hd : r.depth + K = maxDepth)
    (hsteps : r.remaining ≤ steps) : Returns (CountedEntries K out r) (compoundLoop f steps out r) := by
  induction steps generalizing out r with
  | zero =>
    have hend : ¬ r.off < r.buf.length := by
      rw [Reader.remaining] at hsteps
      omega
    rw [compoundLoop, if_neg hend]
    exact ⟨⟨rfl, rfl, Nat.le_refl _⟩, fun h => absurd h hend, by omega, fun h => h⟩
  | succ steps ih =>
    rw [compoundLoop]
    split_ifs with hend
    · apply (u8_returns r).bind
      intro ty r₁ h₁
      obtain ⟨rfl, -⟩ := h₁
      dsimp only
      split_ifs with hty
      · exact ⟨Moves.skip r 1, fun _ => by simp only [Reader.skip_off]; omega, by omega, fun h => h⟩
      apply (string_returns _).bind
      intro name r₂ h₂
      apply (hf ty r₂ (by rw [h₂.depth, Reader.skip_depth, hd])).bind
      intro v r₃ h₃
      have hmoves := ((Moves.skip r 1).trans h₂.toMoves).trans h₃.toMoves
      have hfar := h₂.far
      have hins := entryNodes_insert name v out
      rw [Reader.skip_off] at hfar
      refine (ih (Assoc.insert name v out) r₃ (by rw [hmoves.depth, hd]) ?_).mono fun fs r' h => ?_
      · have := h₃.off
        rw [Reader.remaining, hmoves.buf]
        rw [Reader.remaining] at hsteps
        omega
      have hpaid := h.paid
      have htotal := h.total
      have hshort := h.short
      have hoff := h.off
      rw [hmoves.buf] at hpaid hshort
      refine ⟨hmoves.trans h.toMoves, ?_, ?_, fun hout => hshort ?_⟩
      · intro hend'
        have := h₃.paid (by rw [h₂.buf, Reader.skip_buf]; omega)
        have := hpaid hend'
        omega
      · -- the type byte pays for the value itself
        have hR : 1 + r₂.remaining ≤ r.remaining := by
          rw [Reader.remaining, Reader.remaining, h₂.buf, Reader.skip_buf]
          omega
        have := h₃.spend
        have := spend (K := K) (Nat.le_refl 1) hR
        omega
      · intro p hp
        rcases Assoc.mem_insert hp with hp | hp
        · exact hout p hp
        · have := h₃.short
          rwa [hp, ← Reader.skip_buf r 1, ← h₂.buf]
    · exact ⟨⟨rfl, rfl, Nat.le_refl _⟩, fun h => absurd h hend, by omega, fun h => h⟩

theorem compound_returns (r : Reader) (hd : r.depth + (K + 1) = maxDepth) :
    Returns (CountedEntries K [] r) (compound f r) := by
  rw [compound, Reader.enter_ok (by omega), ok_bind]
  apply (compoundLoop_returns hf _ [] _ (by simp only; omega) (Nat.le_refl _)).bind
  intro fs r' h
  have hdepth : r'.depth = r.depth + 1 := h.depth
  simp only [Reader.leave, hdepth, Nat.succ_ne_zero, if_false, ok_bind, Nat.add_sub_cancel]
  exact ⟨⟨h.buf, rfl, h.off⟩, h.paid, h.total, h.short⟩

theorem readList_returns (r : Reader) (hd : r.depth + (K + 1) = maxDepth) :
    Returns (fun vs r' => Counted (K + 1) r (.list vs) r') (readList f r) := by
  apply (u8_returns r).bind
  intro elem r₁ h₁
  obtain ⟨rfl, -⟩ := h₁
  apply (i32_returns _).bind
  intro n r₂ h₂
  obtain ⟨rfl, -⟩ := h₂
  simp only [Reader.skip_skip, Nat.reduceAdd]
  split_ifs with hfit
  · trivial
  rw [Reader.enter_ok (by simp only [Reader.skip_depth]; omega), ok_bind]
  apply (listLoop_returns hf elem _ [] _ (by simp only [Reader.skip_depth]; omega)).bind
  intro vs r' h
  have hdepth : r'.depth = r.depth + 1 := h.depth
  simp only [Reader.leave, hdepth, Nat.succ_ne_zero, if_false, ok_bind, Nat.add_sub_cancel]
  have hlen : vs.length = clampCount n := by simpa using h.length
  have hcount : clampCount n ≤ (r.skip 5).remaining := by
    have := Nat.le_mul_of_pos_right (clampCount n) (minSize_pos elem)
    omega
  have hoff : (r.skip 5).off ≤ r'.off := h.off
  have hrem : (r.skip 5).remaining ≤ r.remaining := by
    simp only [Reader.remaining, Reader.skip_buf, Reader.skip_off]
    omega
  have hpaid : r'.off < r.buf.length → elemNodes vs + (r.skip 5).off ≤ r'.off := by
    intro hend
    have := h.paid hend
    simpa [elemNodes] using this
  have htotal : elemNodes vs ≤ clampCount n + (K + 1) * (r.skip 5).remaining := by
    have : elemNodes vs ≤ 0 + clampCount n + (K + 1) * (r.skip 5).remaining := h.total
    omega
  rw [Reader.skip_off] at hoff hpaid
  refine ⟨⟨h.buf, rfl, by simp only; omega⟩, ?_, ?_, ?_⟩
  · intro hend
    have := hpaid hend
    simp only [NbtValue.nodes]
    omega
  · -- the declared elements cost the remaining bytes once, what is in them costs `K + 1` times
    calc (NbtValue.list vs).nodes = 1 + elemNodes vs := rfl
      _ ≤ 1 + ((K + 1) * (r.skip 5).remaining + (r.skip 5).remaining) := by omega
      _ = 1 + (K + 1 + 1) * (r.skip 5).remaining := by ring
      _ ≤ 1 + (K + 1 + 1) * r.remaining := Nat.add_le_add_left (Nat.mul_le_mul_left _ hrem) 1
  · intro ws hws
    cases hws
    have : (r.skip 5).remaining ≤ r.buf.length := by
      rw [Reader.remaining, Reader.skip_buf]
      omega
    omega

end Loops

theorem intLoop_returns (count : ℕ) (arr : List Int32) (r : Reader) :
    Returns (fun vs r' => r' = r.skip (count * 4) ∧ vs.length = arr.length + count) (intLoop count arr r) := by
  induction count generalizing arr r with
  | zero => exact ⟨by simp [Reader.skip], rfl⟩
  | succ count ih =>
    apply (i32_returns r).bind
    intro n r₁ h₁
    apply (ih (arr ++ [n]) r₁).mono
    intro vs r' h
    obtain ⟨rfl, -⟩ := h₁
    obtain ⟨rfl, hlen⟩ := h
    rw [List.length_append, List.length_singleton] at hlen
    refine ⟨?_, by omega⟩
    rw [Reader.skip_skip, Nat.succ_mul, Nat.add_comm]

theorem readIntArray_returns (r : Reader) :
    Returns (fun vs r' => r' = r.skip (4 + vs.length * 4) ∧ vs.length ≤ r.remaining) (readIntArray r) := by
  apply (i32_returns r).bind
  intro n r₁ h₁
  obtain ⟨rfl, -⟩ := h₁
  dsimp only
  split_ifs with hfit
  · trivial
  apply (intLoop_returns (clampCount n) [] _).mono
  intro vs r' h
  obtain ⟨rfl, hlen⟩ := h
  rw [List.length_nil, Nat.zero_add] at hlen
  refine ⟨by rw [hlen, Reader.skip_skip], ?_⟩
  simp only [Reader.remaining, Reader.skip_buf, Reader.skip_off] at hfit ⊢
  omega

/-! ## Values -/

/-- a value without values in it is paid by the first byte read for it -/
theorem Returns.single {α : Type} {n K : ℕ} {r : Reader} {x : Except Fault (α × Reader)} (hx : Returns (Prefixed n r) x)
    (hn : 0 < n) (c : α → NbtValue) (hc : ∀ a, (c a).nodes = 1) (hs : ∀ a vs, c a ≠ .list vs) :
    Returns (Counted K r) (x >>= fun p => .ok (c p.1, p.2)) := by
  apply hx.bind
  intro a r' h
  have hfar := h.far
  have hnodes := hc a
  show Counted K r (c a) r'
  exact ⟨h.toMoves, fun _ => by omega, by omega, fun vs hvs => absurd hvs (hs a vs)⟩

theorem Returns.prefixed {α : Type} {n : ℕ} {r : Reader} {x : Except Fault (α × Reader)} (hx : Returns (Fixed r n) x) :
    Returns (Prefixed n r) x :=
  hx.mono fun _ _ h => h.moves ⟨rfl, rfl, Nat.le_refl _⟩

/-- at the depth cap no level is entered -/
theorem enter_capped {r : Reader} (hd : r.depth = maxDepth) : ∃ e, r.enter = .error (.err e) := by
  rw [Reader.enter, if_pos (by omega)]
  exact ⟨_, rfl⟩

theorem readList_counted {K : ℕ} {f : UInt8 → Reader → Except Fault (NbtValue × Reader)}
    (hf : ∀ k, K = k + 1 → Bounded k f) (r : Reader) (hd : r.depth + K = maxDepth) :
    Returns (fun vs r' => Counted K r (.list vs) r') (readList f r) := by
  cases K with
  | succ k => exact readList_returns (hf k rfl) r hd
  | zero =>
    apply (u8_returns r).bind
    intro elem r₁ h₁
    obtain ⟨rfl, -⟩ := h₁
    apply (i32_returns _).bind
    intro n r₂ h₂
    obtain ⟨rfl, -⟩ := h₂
    dsimp only
    split_ifs with hfit
    · trivial
    · obtain ⟨e, he⟩ := enter_capped (r := (r.skip 1).skip 4) hd
      rw [he]
      trivial

theorem compound_counted {K : ℕ} {f : UInt8 → Reader → Except Fault (NbtValue × Reader)}
    (hf : ∀ k, K = k + 1 → Bounded k f) (r : Reader) (hd : r.depth + K = maxDepth) :
    Returns (fun fs r' => Counted K r (.compound fs) r') (compound f r) := by
  cases K with
  | succ k =>
    apply (compound_returns (hf k rfl) r hd).mono
    intro fs r' h
    have hpaid := h.paid
    have htotal := h.total
    have hmul : (k + 1) * r.remaining ≤ (k + 1 + 1) * r.remaining := Nat.mul_le_mul_right _ (Nat.le_succ _)
    simp only [entryNodes] at hpaid htotal
    refine ⟨h.toMoves, ?_, ?_, nofun⟩
    · intro hend
      have := hpaid hend
      simp only [NbtValue.nodes]
      omega
    · simp only [NbtValue.nodes]
      omega
  | zero =>
    obtain ⟨e, he⟩ := enter_capped hd
    rw [compound, he]
    trivial

theorem readIntArray_counted {K : ℕ} (r : Reader) :
    Returns (fun vs r' => Counted K r (.intArray vs) r') (readIntArray r) := by
  apply (readIntArray_returns r).mono
  intro vs r' h
  obtain ⟨rfl, hlen⟩ := h
  have hmul : r.remaining ≤ (K + 1) * r.remaining := Nat.le_mul_of_pos_left _ (Nat.succ_pos K)
  refine ⟨Moves.skip r _, ?_, ?_, nofun⟩
  · intro _
    simp only [NbtValue.nodes, Reader.skip_off]
    omega
  · simp only [NbtValue.nodes]
    omega

theorem Returns.ite {α : Type} {P : α → Reader → Prop} {c : Prop} [Decidable c] {x y : Except Fault (α × Reader)}
    (hx : Returns P x) (hy : Returns P y) : Returns P (if c then x else y) := by
  split_ifs
  · exact hx
  · exact hy

/-- One level: a reader that is bounded for the values one level in makes a bounded reader. -/
theorem valueOf_returns {K : ℕ} {f : UInt8 → Reader → Except Fault (NbtValue × Reader)}
    (hf : ∀ k, K = k + 1 → Bounded k f) : Bounded K (valueOf f) := by
  intro ty r hd
  refine .ite ?byte <| .ite ?short <| .ite ?int <| .ite ?long <| .ite ?float <| .ite ?double <| .ite ?string <|
    .ite ?list <| .ite ?compound <| .ite ?byteArray <| .ite ?intArray trivial
  case byte => exact (be_returns r 1).prefixed.single (by decide) (fun n => .byte (.ofNat n)) (fun _ => rfl) nofun
  case short => exact (be_returns r 2).prefixed.single (by decide) (fun n => .short (.ofNat n)) (fun _ => rfl) nofun
  case int => exact (i32_returns r).prefixed.single (by decide) .int (fun _ => rfl) nofun
  case long => exact (be_returns r 8).prefixed.single (by decide) (fun n => .long (.ofNat n)) (fun _ => rfl) nofun
  case float => exact (be_returns r 4).prefixed.single (by decide) (fun n => .float (.ofNat n)) (fun _ => rfl) nofun
  case double => exact (be_returns r 8).prefixed.single (by decide) (fun n => .double (.ofNat n)) (fun _ => rfl) nofun
  case string => exact (string_returns r).single (by decide) .string (fun _ => rfl) nofun
  case list => exact (readList_counted hf r hd).bind fun _ _ h => h
  case compound => exact (compound_counted hf r hd).bind fun _ _ h => h
  case byteArray => exact (readByteArray_returns r).single (by decide) .byteArray (fun _ => rfl) nofun
  case intArray => exact (readIntArray_counted r).bind fun _ _ h => h

/-- **The measure.** Wherever `K` more levels may be entered, `value` with at least `K` levels is bounded. -/
theorem value_returns (n K : ℕ) (h : K ≤ n) : Bounded K (value n) := by
  induction n generalizing K with
  | zero => exact valueOf_returns fun k hk => absurd hk (by omega)
  | succ n ih => exact valueOf_returns fun k hk => ih k (by omega)

/-! ## More levels change nothing -/

/-- the second outcome is the first, unless the first ran out of fuel -/
def Below {α : Type} (x y : Except Fault α) : Prop := x = .error .outOfFuel ∨ x = y

theorem Below.rfl {α : Type} {x : Except Fault α} : Below x x := Or.inr (Eq.refl x)

theorem Below.bind {α β : Type} {x y : Except Fault α} {f g : α → Except Fault β} (h : Below x y)
    (hfg : ∀ a, Below (f a) (g a)) : Below (x >>= f) (y >>= g) := by
  rcases h with h | h
  · exact Or.inl (by rw [h, error_bind])
  · subst h
    cases x with
    | error e => exact Below.rfl
    | ok a => exact hfg a

theorem Below.ite {α : Type} {c : Prop} [Decidable c] {x y x' y' : Except Fault α} (h : Below x y) (h' : Below x' y') :
    Below (if c then x else x') (if c then y else y') := by
  split_ifs
  · exact h
  · exact h'

section Levels
variable {f g : UInt8 → Reader → Except Fault (NbtValue × Reader)} (hfg : ∀ ty r, Below (f ty r) (g ty r))
include hfg

theorem compoundLoop_below (steps : ℕ) (out : List (String × NbtValue)) (r : Reader) :
    Below (compoundLoop f steps out r) (compoundLoop g steps out r) := by
  induction steps generalizing out r with
  | zero => exact .rfl
  | succ steps ih =>
    exact .ite (.bind .rfl fun _ => .ite .rfl (.bind .rfl fun _ => .bind (hfg _ _) fun _ => ih _ _)) .rfl

theorem listLoop_below (elem : UInt8) (count : ℕ) (arr : List NbtValue) (r : Reader) :
    Below (listLoop f elem count arr r) (listLoop g elem count arr r) := by
  induction count generalizing arr r with
  | zero => exact .rfl
  | succ count ih => exact .bind (hfg _ _) fun _ => ih _ _

theorem compound_below (r : Reader) : Below (compound f r) (compound g r) :=
  .bind .rfl fun _ => .bind (compoundLoop_below hfg _ _ _) fun _ => .rfl

theorem readList_below (r : Reader) : Below (readList f r) (readList g r) :=
  .bind .rfl fun _ => .bind .rfl fun _ => .ite .rfl <| .bind .rfl fun _ => .bind (listLoop_below hfg _ _ _ _) fun _ => .rfl

theorem valueOf_below (ty : UInt8) (r : Reader) : Below (valueOf f ty r) (valueOf g ty r) := by
  refine .ite .rfl <| .ite .rfl <| .ite .rfl <| .ite .rfl <| .ite .rfl <| .ite .rfl <| .ite .rfl <| .ite ?list <|
    .ite ?compound .rfl
  case list => exact .bind (readList_below hfg r) fun _ => .rfl
  case compound => exact .bind (compound_below hfg r) fun _ => .rfl

end Levels

theorem value_below {n m : ℕ} (h : n ≤ m) (ty : UInt8) (r : Reader) : Below (value n ty r) (value m ty r) := by
  induction n generalizing m ty r with
  | zero =>
    rw [value_eq m]
    exact valueOf_below (fun _ _ => Or.inl rfl) ty r
  | succ n ih =>
    obtain ⟨m, rfl⟩ : ∃ k, m = k + 1 := ⟨m - 1, by omega⟩
    exact valueOf_below (fun ty r => ih (Nat.le_of_succ_le_succ h) ty r) ty r

/-! ## The root -/

theorem rootCompound_returns {r : Reader} (hd : r.depth = 0) :
    Returns (CountedEntries (maxDepth - 1) [] r) (rootCompound r) :=
  compound_returns (value_returns _ _ (Nat.le_refl _)) r (by rw [hd]; rfl)

/-- the root's `servers` is no longer than the lists in it may be -/
theorem serversOf_length {L : ℕ} {root : List (String × NbtValue)} (h : ∀ f ∈ root, Short L f.2) :
    (serversOf root).length ≤ L := by
  unfold serversOf
  split
  · next l hl => exact h _ (Assoc.mem_of_get? hl) l rfl
  · exact Nat.zero_le _

/-- `parseServersDat` answers an error of the source, or at most one entry for each byte -/
theorem parse_returns (b : List UInt8) :
    (∃ e, parseServersDat b = .error (.err e)) ∨
      ∃ entries, parseServersDat b = .ok entries ∧ entries.length ≤ b.length := by
  unfold parseServersDat
  dsimp only
  cases hb : b[prefixLen b]? with
  | none => exact Or.inl ⟨_, rfl⟩
  | some t =>
    dsimp only
    split_ifs with ht
    · exact Or.inl ⟨_, rfl⟩
    have hname := string_returns ⟨b, prefixLen b + 1, 0⟩
    match hs : (Reader.mk b (prefixLen b + 1) 0).string, hname with
    | .error (.err e), _ => exact Or.inl ⟨e, rfl⟩
    | .ok (name, r), hname =>
      have hroot := rootCompound_returns hname.depth
      simp only [ok_bind]
      match hr : rootCompound r, hroot with
      | .error (.err e), _ => exact Or.inl ⟨e, rfl⟩
      | .ok (root, r'), hroot =>
        refine Or.inr ⟨_, rfl, ?_⟩
        have hshort := hroot.short (by simp)
        rw [hname.buf] at hshort
        rw [List.length_map]
        exact serversOf_length hshort

/-- **Untrusted NBT cannot expand.** The root compound of any byte string, read from any position, ends without a read
outside the buffer and without a value more than `maxDepth` levels deep; it decodes at most `maxDepth + 1` nodes for each
byte, and `parseServersDat` answers at most one entry for each byte. -/
theorem untrusted_nbt_bounded (b : List UInt8) (off : ℕ) :
    rootCompound ⟨b, off, 0⟩ ≠ .error .panic ∧ rootCompound ⟨b, off, 0⟩ ≠ .error .outOfFuel ∧
    (∀ levels, maxDepth - 1 ≤ levels → compound (value levels) ⟨b, off, 0⟩ = rootCompound ⟨b, off, 0⟩) ∧
    (∀ root r, rootCompound ⟨b, off, 0⟩ = .ok (root, r) → entryNodes root ≤ (maxDepth + 1) * b.length) ∧
    (∀ entries, parseServersDat b = .ok entries → entries.length ≤ b.length) := by
  have hroot := rootCompound_returns (r := ⟨b, off, 0⟩) rfl
  have hfuel : rootCompound ⟨b, off, 0⟩ ≠ .error .outOfFuel := fun h => by simp [h, Returns] at hroot
  refine ⟨fun h => by simp [h, Returns] at hroot, hfuel, ?_, ?_, ?_⟩
  · intro levels hl
    rcases compound_below (value_below hl) ⟨b, off, 0⟩ with hb | hb
    · exact absurd hb hfuel
    · exact hb.symm
  · intro root r h
    rw [h] at hroot
    have hrem : (Reader.mk b off 0).remaining ≤ b.length := Nat.sub_le ..
    calc entryNodes root ≤ entryNodes [] + (maxDepth - 1 + 1) * (Reader.mk b off 0).remaining := hroot.total
      _ = maxDepth * (Reader.mk b off 0).remaining := Nat.zero_add _
      _ ≤ (maxDepth + 1) * b.length := Nat.mul_le_mul (Nat.le_succ _) hrem
  · intro entries h
    rcases parse_returns b with ⟨e, he⟩ | ⟨entries', he, hle⟩
    · simp [he] at h
    · rw [he] at h
      cases h
      exact hle

end EspectralClient.Nbt
