/-
The NBT codec behind `servers.dat` (`src/native/engine/src/nbt.rs`): a recursive reader over a byte cursor, and a writer
of the modern format.

A reading function takes the cursor and answers a value with the moved cursor, or a `Fault`. Beside the source's errors
a fault is `panic`, where the source would index or slice out of range, or `outOfFuel`: `value n` reads values with at
most `n` lists and compounds around them, and the entry loop of a compound is given as many rounds as bytes remain.
`usize` offsets are naturals: a length is at most `i32::MAX`, so a cursor never passes the end of the buffer by more.
-/
import EspectralClient.Lib.Bytes
import EspectralClient.Lib.IndexMap

namespace EspectralClient.Nbt

open EspectralClient.Lib
open EspectralClient.Lib.Bytes

/-! ## Values and errors -/

def tagEnd : UInt8 := 0x00
def tagByte : UInt8 := 0x01
def tagShort : UInt8 := 0x02
def tagInt : UInt8 := 0x03
def tagLong : UInt8 := 0x04
def tagFloat : UInt8 := 0x05
def tagDouble : UInt8 := 0x06
def tagByteArray : UInt8 := 0x07
def tagString : UInt8 := 0x08
def tagList : UInt8 := 0x09
def tagCompound : UInt8 := 0x0a
def tagIntArray : UInt8 := 0x0b

inductive NbtError where
  /-- a read or write past a bound -/
  | outOfRange
  | unsupported (msg : String)
  | notServersDat (msg : String)
deriving DecidableEq, Repr

inductive Fault where
  | err (e : NbtError)
  | panic
  | outOfFuel
deriving DecidableEq, Repr

/-- a decoded value; floats are given by their bits -/
inductive NbtValue where
  | byte (v : Int8)
  | short (v : Int16)
  | int (v : Int32)
  | long (v : Int64)
  | float (bits : UInt32)
  | double (bits : UInt64)
  | string (s : String)
  | list (vs : List NbtValue)
  | compound (fs : List (String × NbtValue))
  | byteArray (bs : List UInt8)
  | intArray (vs : List Int32)
deriving Repr

namespace NbtValue

/-- `v === 1`: numbers only, and never a long. One is the only float with its bits, and so for doubles. -/
def isJsOne : NbtValue → Bool
  | .byte v => v = 1
  | .short v => v = 1
  | .int v => v = 1
  | .float bits => bits = 0x3f800000
  | .double bits => bits = 0x3ff0000000000000
  | _ => false

def asStr : NbtValue → Option String
  | .string s => some s
  | _ => none

end NbtValue

/-- deepest list and compound nesting accepted -/
def maxDepth : ℕ := 64

/-- smallest possible encoding of one list element of type `ty` -/
def minSize (ty : UInt8) : ℕ :=
  if ty = tagEnd ∨ ty = tagByte ∨ ty = tagCompound then 1
  else if ty = tagShort ∨ ty = tagString then 2
  else if ty = tagInt ∨ ty = tagFloat ∨ ty = tagByteArray ∨ ty = tagIntArray then 4
  else if ty = tagLong ∨ ty = tagDouble then 8
  else if ty = tagList then 5
  else 1

/-- `{:x}` of a byte -/
def hex (b : UInt8) : String := .ofList (Nat.toDigits 16 b.toNat)

/-! ## Reader -/

structure Reader where
  buf : List UInt8
  off : ℕ
  depth : ℕ
deriving DecidableEq, Repr

/-- `&buf[start..stop]` -/
def slice (buf : List UInt8) (start stop : ℕ) : Except Fault (List UInt8) :=
  if start ≤ stop ∧ stop ≤ buf.length then .ok ((buf.drop start).take (stop - start)) else .error .panic

@[simp] theorem ok_bind {α β : Type} (a : α) (f : α → Except Fault β) : (Except.ok a >>= f) = f a := rfl

@[simp] theorem error_bind {α β : Type} (e : Fault) (f : α → Except Fault β) :
    ((Except.error e : Except Fault α) >>= f) = .error e := rfl

namespace Reader

/-- the cursor `n` bytes further -/
def skip (r : Reader) (n : ℕ) : Reader := { r with off := r.off + n }

@[simp] theorem skip_buf (r : Reader) (n : ℕ) : (r.skip n).buf = r.buf := rfl

@[simp] theorem skip_off (r : Reader) (n : ℕ) : (r.skip n).off = r.off + n := rfl

@[simp] theorem skip_depth (r : Reader) (n : ℕ) : (r.skip n).depth = r.depth := rfl

@[simp] theorem skip_skip (r : Reader) (m n : ℕ) : (r.skip m).skip n = r.skip (m + n) := by
  simp [skip, Nat.add_assoc]

def take (r : Reader) (n : ℕ) : Except Fault (List UInt8 × Reader) :=
  if r.off + n ≤ r.buf.length then .ok ((r.buf.drop r.off).take n, r.skip n)
  else .error (.err .outOfRange)

/-- the big-endian number in the next `n` bytes; indexing the slice, or converting it to an array, panics unless it
holds them -/
def be (r : Reader) (n : ℕ) : Except Fault (ℕ × Reader) := do
  let (b, r) ← r.take n
  if b.length = n then .ok (fromBe b, r) else .error .panic

def u8 (r : Reader) : Except Fault (UInt8 × Reader) := do
  let (n, r) ← r.be 1
  .ok (.ofNat n, r)

def u16 (r : Reader) : Except Fault (UInt16 × Reader) := do
  let (n, r) ← r.be 2
  .ok (.ofNat n, r)

def i32 (r : Reader) : Except Fault (Int32 × Reader) := do
  let (n, r) ← r.be 4
  .ok (.ofNat n, r)

/-- the next `n` bytes, clamped at the end of the buffer; the cursor moves past all `n` -/
def clamped (r : Reader) (n : ℕ) : Except Fault (List UInt8 × Reader) := do
  let start := min r.off r.buf.length
  let stop := min (r.off + n) r.buf.length
  let s ← slice r.buf start stop
  .ok (s, r.skip n)

def string (r : Reader) : Except Fault (String × Reader) := do
  let (len, r) ← r.u16
  let (s, r) ← r.clamped len.toNat
  .ok (fromUtf8Lossy s, r)

def remaining (r : Reader) : ℕ := r.buf.length - r.off

def enter (r : Reader) : Except Fault Reader :=
  if maxDepth < r.depth + 1 then
    .error (.err (.unsupported ("NBT nested deeper than " ++ toString maxDepth ++ " levels")))
  else .ok { r with depth := r.depth + 1 }

theorem enter_ok {r : Reader} (h : r.depth + 1 ≤ maxDepth) : r.enter = .ok { r with depth := r.depth + 1 } := by
  rw [enter, if_neg (by omega)]

/-- `self.depth -= 1` -/
def leave (r : Reader) : Except Fault Reader :=
  if r.depth = 0 then .error .panic else .ok { r with depth := r.depth - 1 }

end Reader

/-- `max(0) as usize` -/
def clampCount (n : Int32) : ℕ := n.toInt.toNat

/-! ## Compounds and values -/

section Loops
-- reads one nested value of the given type
variable (value : UInt8 → Reader → Except Fault (NbtValue × Reader))

/-- the entry loop of `compound` -/
def compoundLoop : ℕ → List (String × NbtValue) → Reader → Except Fault (List (String × NbtValue) × Reader)
  | 0, out, r => if r.off < r.buf.length then .error .outOfFuel else .ok (out, r)
  | steps + 1, out, r =>
    if r.off < r.buf.length then do
      let (ty, r) ← r.u8
      if ty = tagEnd then .ok (out, r)
      else do
        let (name, r) ← r.string
        let (v, r) ← value ty r
        compoundLoop steps (Assoc.insert name v out) r
    else .ok (out, r)

def compound (r : Reader) : Except Fault (List (String × NbtValue) × Reader) := do
  let r ← r.enter
  let (out, r) ← compoundLoop value r.remaining [] r
  let r ← r.leave
  .ok (out, r)

/-- the element loop of a list -/
def listLoop (elem : UInt8) : ℕ → List NbtValue → Reader → Except Fault (List NbtValue × Reader)
  | 0, arr, r => .ok (arr, r)
  | count + 1, arr, r => do
    let (v, r) ← value elem r
    listLoop elem count (arr ++ [v]) r

/-- the element loop of an int array -/
def intLoop : ℕ → List Int32 → Reader → Except Fault (List Int32 × Reader)
  | 0, arr, r => .ok (arr, r)
  | count + 1, arr, r => do
    let (n, r) ← r.i32
    intLoop count (arr ++ [n]) r

/-- the list branch of `value` -/
def readList (r : Reader) : Except Fault (List NbtValue × Reader) := do
  let (elem, r) ← r.u8
  let (n, r) ← r.i32
  let count := clampCount n
  if r.remaining < count * minSize elem then .error (.err .outOfRange)
  else do
    let r ← r.enter
    let (arr, r) ← listLoop value elem count [] r
    let r ← r.leave
    .ok (arr, r)

/-- the int array branch of `value` -/
def readIntArray (r : Reader) : Except Fault (List Int32 × Reader) := do
  let (n, r) ← r.i32
  let count := clampCount n
  if r.remaining < count * 4 then .error (.err .outOfRange) else intLoop count [] r

/-- the byte array branch of `value` -/
def readByteArray (r : Reader) : Except Fault (List UInt8 × Reader) := do
  let (n, r) ← r.i32
  r.clamped (clampCount n)

/-- `value`, with the reader of the values one level in -/
def valueOf (ty : UInt8) (r : Reader) : Except Fault (NbtValue × Reader) :=
  if ty = tagByte then do
    let (n, r) ← r.be 1
    .ok (.byte (.ofNat n), r)
  else if ty = tagShort then do
    let (n, r) ← r.be 2
    .ok (.short (.ofNat n), r)
  else if ty = tagInt then do
    let (n, r) ← r.i32
    .ok (.int n, r)
  else if ty = tagLong then do
    let (n, r) ← r.be 8
    .ok (.long (.ofNat n), r)
  else if ty = tagFloat then do
    let (n, r) ← r.be 4
    .ok (.float (.ofNat n), r)
  else if ty = tagDouble then do
    let (n, r) ← r.be 8
    .ok (.double (.ofNat n), r)
  else if ty = tagString then do
    let (s, r) ← r.string
    .ok (.string s, r)
  else if ty = tagList then do
    let (vs, r) ← readList value r
    .ok (.list vs, r)
  else if ty = tagCompound then do
    let (fs, r) ← compound value r
    .ok (.compound fs, r)
  else if ty = tagByteArray then do
    let (bs, r) ← readByteArray r
    .ok (.byteArray bs, r)
  else if ty = tagIntArray then do
    let (vs, r) ← readIntArray r
    .ok (.intArray vs, r)
  else
    .error (.err (.unsupported ("unsupported NBT tag 0x" ++ hex ty ++ " at offset " ++ toString r.off)))

end Loops

/-- `Reader::value`; the number bounds the lists and compounds that nest inside one another from here on -/
def value : ℕ → UInt8 → Reader → Except Fault (NbtValue × Reader)
  | 0 => valueOf fun _ _ => .error .outOfFuel
  | levels + 1 => valueOf (value levels)

/-- the reader `value n` hands to the values one level in -/
def inner : ℕ → UInt8 → Reader → Except Fault (NbtValue × Reader)
  | 0 => fun _ _ => .error .outOfFuel
  | levels + 1 => value levels

theorem value_eq (n : ℕ) : value n = valueOf (inner n) := by
  cases n <;> rfl

/-- `Reader::compound` at the root: it enters the first of `maxDepth` levels -/
def rootCompound (r : Reader) : Except Fault (List (String × NbtValue) × Reader) := compound (value (maxDepth - 1)) r

/-! ## servers.dat -/

structure ServerEntry where
  name : String
  ip : String
  hidden : Bool
  acceptTextures : Bool
  hasIcon : Bool
deriving DecidableEq, Repr

def entryFromValue (v : NbtValue) : ServerEntry :=
  let c := match v with
    | .compound c => c
    | _ => []
  let s (k : String) : String := ((Assoc.get? k c).bind NbtValue.asStr).getD ""
  let one (k : String) : Bool := ((Assoc.get? k c).map NbtValue.isJsOne).getD false
  { name := s "name", ip := s "ip", hidden := one "hidden", acceptTextures := one "acceptTextures",
    hasIcon := s "icon" ≠ "" }

def notServersDat (seen : String) : Fault :=
  .err (.notServersDat ("not a servers.dat NBT payload (first byte " ++ seen ++ ")"))

/-- the length of the legacy version prefix -/
def prefixLen : List UInt8 → ℕ
  | [] => 0
  | b :: _ => if b = 0x02 ∨ b = 0x03 then 1 else 0

/-- the elements of the root's `servers` list -/
def serversOf (root : List (String × NbtValue)) : List NbtValue :=
  match Assoc.get? "servers" root with
  | some (.list l) => l
  | _ => []

def parseServersDat (buf : List UInt8) : Except Fault (List ServerEntry) :=
  let offset := prefixLen buf
  match buf[offset]? with
  | none => .error (notServersDat "end-of-buffer")
  | some b =>
    if b ≠ tagCompound then .error (notServersDat ("0x" ++ hex b))
    else do
      let (_, r) ← (Reader.mk buf (offset + 1) 0).string
      let (root, _) ← rootCompound r
      .ok ((serversOf root).map entryFromValue)

def putStr (out : List UInt8) (s : String) : Except NbtError (List UInt8) :=
  if (utf8 s).length ≤ 65535 then .ok (out ++ toBe 2 (utf8 s).length ++ utf8 s) else .error .outOfRange

/-- `u8::from(bool)` -/
def flag (b : Bool) : UInt8 := if b then 1 else 0

/-- the loop body of `write_servers_dat` -/
def writeEntry (out : List UInt8) (e : ServerEntry) : Except NbtError (List UInt8) := do
  let out ← putStr (out ++ [tagByte]) "hidden"
  let out := out ++ [flag e.hidden]
  let out ← putStr (out ++ [tagString]) "ip"
  let out ← putStr out e.ip
  let out ← putStr (out ++ [tagString]) "name"
  let out ← putStr out e.name
  let out ← putStr (out ++ [tagString]) "icon"
  let out ← putStr out ""
  let out ← putStr (out ++ [tagByte]) "acceptTextures"
  let out := out ++ [flag e.acceptTextures]
  .ok (out ++ [tagEnd])

def writeServersDat (entries : List ServerEntry) : Except NbtError (List UInt8) := do
  let out ← putStr ([tagCompound] ++ toBe 2 0 ++ [tagList]) "servers"
  let out := out ++ [tagCompound]
  if 2 ^ 31 - 1 < entries.length then .error .outOfRange
  else do
    let out ← entries.foldlM writeEntry (out ++ toBe 4 entries.length)
    .ok (out ++ [tagEnd])

end EspectralClient.Nbt
