/-
The ZIP reader for untrusted archives (`native/engine/src/ziputil.rs`).

- `findEocd`: the last end-of-central-directory record within 65557 bytes of the end.
- `scanCentralDirectory`: as many records as that record counts, one after another.
- `entryPayload`: the bytes of an entry, found through its local header.
- `readZipEntryFromCapped`: the first entry of a name, stored or inflated, as long as it has at most `max` bytes.

A computation stops with an error of the reader or with a panic: an addition past 64 bits, or an index outside the archive.
Byte strings in memory have fewer than 2^63 bytes. The DEFLATE decoder is a parameter: what its whole output is, and what
comes out of it when reading stops at a limit.
-/
import EspectralClient.Lib.Bytes

namespace EspectralClient.Ziputil

open Lib.Bytes (fromLe fromUtf8Lossy)

/-! ## Memory -/

/-- a slice or a vector of bytes -/
abbrev Buffer := { bs : List UInt8 // bs.length < 2 ^ 63 }

inductive ZipError where
  | corrupt (text : String)
  | unsupported (text : String)
deriving DecidableEq, Repr

inductive Stop where
  | err (e : ZipError)
  /-- an addition past 64 bits -/
  | overflow
  /-- an index outside a slice -/
  | outside
deriving DecidableEq, Repr

def corrupt (text : String) : Stop := .err (.corrupt text)

/-- an addition of `usize` -/
def add (a b : ℕ) : Except Stop ℕ := if a + b < 2 ^ 64 then .ok (a + b) else .error .overflow

/-- `ok_or_else` -/
def okOr {α : Type} (e : Stop) : Option α → Except Stop α
  | some a => .ok a
  | none => .error e

/-- the bytes from `a` up to `b` -/
def between (buf : List UInt8) (a b : ℕ) : List UInt8 := (buf.take b).drop a

/-- `buf.get(a..b)` -/
def get (buf : Buffer) (a b : ℕ) : Option (List UInt8) :=
  if a ≤ b ∧ b ≤ buf.val.length then some (between buf.val a b) else none

/-- `buf[a..b]` -/
def index (buf : Buffer) (a b : ℕ) : Except Stop (List UInt8) := okOr .outside (get buf a b)

/-- the little-endian number of `w` bytes at `off`, if they are there -/
def wordLe (w : ℕ) (buf : Buffer) (off : ℕ) : Except Stop (Option ℕ) := do
  let stop ← add off w
  return (get buf off stop).map fromLe

def u16le (buf : Buffer) (off : ℕ) : Except Stop (Option ℕ) := wordLe 2 buf off

def u32le (buf : Buffer) (off : ℕ) : Except Stop (Option ℕ) := wordLe 4 buf off

/-- `u16le(buf, off + k).ok_or_else(…)?` -/
def need16 (e : Stop) (buf : Buffer) (off k : ℕ) : Except Stop ℕ := do
  okOr e (← u16le buf (← add off k))

/-- `u32le(buf, off + k).ok_or_else(…)?` -/
def need32 (e : Stop) (buf : Buffer) (off k : ℕ) : Except Stop ℕ := do
  okOr e (← u32le buf (← add off k))

/-! ## The directory -/

def sigEocd : ℕ := 0x06054b50
def sigCentral : ℕ := 0x02014b50
def sigLocal : ℕ := 0x04034b50

structure Entry where
  name : String
  method : ℕ
  compSize : ℕ
  localOffset : ℕ
deriving DecidableEq, Repr

def notFound : Stop := corrupt "end-of-central-directory record not found"

/-- the count of entries, where the directory begins and its length -/
def readEocd (buf : Buffer) (i : ℕ) : Except Stop (ℕ × ℕ × ℕ) := do
  let total ← need16 notFound buf i 10
  let cdSize ← need32 notFound buf i 12
  let cdOffset ← need32 notFound buf i 16
  return (total, cdOffset, cdSize)

/-- the search, from `i` down -/
def findEocdFrom (buf : Buffer) (windowStart : ℕ) : ℕ → Except Stop (ℕ × ℕ × ℕ)
  | 0 => do
    if (← u32le buf 0) = some sigEocd then readEocd buf 0
    else .error notFound
  | i + 1 => do
    if (← u32le buf (i + 1)) = some sigEocd then readEocd buf (i + 1)
    else if i + 1 = windowStart then .error notFound
    else findEocdFrom buf windowStart i

def findEocd (buf : Buffer) : Except Stop (ℕ × ℕ × ℕ) :=
  if buf.val.length < 22 then .error notFound
  else findEocdFrom buf (buf.val.length - 65557) (buf.val.length - 22)

def badHeader (off : ℕ) : Stop := corrupt ("bad central directory header at offset " ++ toString off)

/-- the record at `off`, and where the next one begins -/
def readCentral (buf : Buffer) (off stop : ℕ) : Except Stop (Entry × ℕ) := do
  if stop < (← add off 46) then .error (badHeader off)
  else if (← u32le buf off) ≠ some sigCentral then .error (badHeader off)
  else
    let method ← need16 (badHeader off) buf off 10
    let compSize ← need32 (badHeader off) buf off 20
    let nameLen ← need16 (badHeader off) buf off 28
    let extraLen ← need16 (badHeader off) buf off 30
    let commentLen ← need16 (badHeader off) buf off 32
    let localOffset ← need32 (badHeader off) buf off 42
    let start ← add off 46
    let nameBytes ← okOr (badHeader off) (get buf start (← add start nameLen))
    let next ← add off (← add (← add (← add 46 nameLen) extraLen) commentLen)
    return (⟨fromUtf8Lossy nameBytes, method, compSize, localOffset⟩, next)

def scanFrom (buf : Buffer) (stop : ℕ) : ℕ → ℕ → Except Stop (List Entry)
  | 0, _ => .ok []
  | left + 1, off => do
    let (e, next) ← readCentral buf off stop
    let rest ← scanFrom buf stop left next
    return e :: rest

def scanCentralDirectory (buf : Buffer) : Except Stop (List Entry) := do
  let (total, cdOffset, cdSize) ← findEocd buf
  let stop ← add cdOffset cdSize
  scanFrom buf stop total cdOffset

/-! ## One entry -/

def badLocal (e : Entry) : Stop := corrupt ("bad local header for '" ++ e.name ++ "'")

def entryPayload (buf : Buffer) (e : Entry) : Except Stop (List UInt8) := do
  let off := e.localOffset
  if buf.val.length < (← add off 30) then .error (badLocal e)
  else if (← u32le buf off) ≠ some sigLocal then .error (badLocal e)
  else
    let nameLen := (← u16le buf (← add off 26)).getD 0
    let extraLen := (← u16le buf (← add off 28)).getD 0
    let start ← add (← add (← add off 30) nameLen) extraLen
    let stop ← add start e.compSize
    if buf.val.length < stop then .error (corrupt ("truncated data for '" ++ e.name ++ "'"))
    else index buf start stop

/-- the DEFLATE decoder: `whole` is what a stream decompresses to, `read` what is read from it up to a limit -/
structure Decoder where
  whole : List UInt8 → Option (List UInt8)
  read : List UInt8 → ℕ → Except String Buffer
  /-- reading that ends before the limit has come to the end of the stream -/
  read_whole : ∀ data limit out, read data limit = .ok out → out.val.length < limit → whole data = some out.val

def tooLarge (e : Entry) (max : UInt64) : Stop :=
  corrupt ("'" ++ e.name ++ "' expands past the " ++ toString max.toNat ++ "-byte limit")

/-- `take(limit)` and `read_to_end` on the reader that the entry's method asks for -/
def readEntry (dec : Decoder) (e : Entry) (data : List UInt8) (limit : ℕ) : Except Stop (List UInt8) :=
  if e.method = 0 then .ok (data.take limit)
  else if e.method = 8 then
    match dec.read data limit with
    | .ok out => .ok out.val
    | .error text => .error (corrupt ("bad deflate stream for '" ++ e.name ++ "': " ++ text))
  else
    .error (.err (.unsupported ("compression method " ++ toString e.method ++ " for '" ++ e.name ++ "'")))

def decompress (dec : Decoder) (e : Entry) (data : List UInt8) (max : UInt64) : Except Stop (List UInt8) := do
  let out ← readEntry dec e data (min (max.toNat + 1) (2 ^ 64 - 1))
  if max.toNat < out.length then .error (tooLarge e max)
  else return out

def readZipEntryFromCapped (dec : Decoder) (buf : Buffer) (entryName : String) (max : UInt64) :
    Except Stop (Option (List UInt8)) := do
  let entries ← scanCentralDirectory buf
  match entries.find? fun e => e.name = entryName with
  | none => return none
  | some e =>
    let data ← entryPayload buf e
    let out ← decompress dec e data max
    return some out

end EspectralClient.Ziputil
