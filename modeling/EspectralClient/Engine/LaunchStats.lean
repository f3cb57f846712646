/-
The launch statistics (`native/engine/src/stats.rs`): one line of JSON a record, appended to `launch-stats.jsonl` and read
from its tail.

A call appends the line and its newline, looks at the size of the file, and past the window reads it all and writes back the
last five hundred lines. No lock is held: each of these is one step, and any other call's steps may come in between.

- `LaunchStat`: a record, with its JSON in both directions; `Codec` is the text of a JSON value.
- `step`: one file operation of one call. `St.rows` is of the model only: the records in the order their lines were appended.
- `readInner`: the newest records.
- `owed`: how many of the last records a reader is to get.
-/
import EspectralClient.Engine.ConfigStore
import EspectralClient.Lib.Bytes
import EspectralClient.Lib.LineFile

namespace EspectralClient.LaunchStats

open Lib
open Lib.Bytes (utf8 fromUtf8 fromUtf8Lossy)
open Lib.LineFile (joined afterFirst)

/-! ## Records -/

/-- `i64` -/
abbrev I64 := { n : ℤ // -2 ^ 63 ≤ n ∧ n < 2 ^ 63 }

structure LaunchStat where
  key : String
  instanceName : String
  version : Option String
  startedAt : Option I64
  menuAt : Option I64
  menuMs : Option I64
  playedMs : Option I64
  spawnMs : Option I64
  bootMs : Option I64
  phases : Option (IndexMap String Json)
  /-- fields of other versions -/
  extra : IndexMap String Json

def fieldNames : List String :=
  ["key", "instance", "version", "started_at", "menu_at", "menu_ms", "played_ms", "spawn_ms", "boot_ms", "phases"]

def optStr (v : Option String) : Json := (v.map Json.str).getD .null

def optI64 (v : Option I64) : Json := (v.map fun n => Json.int n.1).getD .null

def LaunchStat.fields (r : LaunchStat) : List (String × Json) :=
  [("key", .str r.key), ("instance", .str r.instanceName), ("version", optStr r.version), ("started_at", optI64 r.startedAt),
    ("menu_at", optI64 r.menuAt), ("menu_ms", optI64 r.menuMs), ("played_ms", optI64 r.playedMs),
    ("spawn_ms", optI64 r.spawnMs), ("boot_ms", optI64 r.bootMs),
    ("phases", (r.phases.map fun m => Json.obj m.entries).getD .null)]

/-- the fields, and then those of `extra` -/
def LaunchStat.toJson (r : LaunchStat) : Json := .obj (r.fields ++ r.extra.entries)

def asI64 : Json → Option I64
  | .int n => if h : -2 ^ 63 ≤ n ∧ n < 2 ^ 63 then some ⟨n, h⟩ else none
  | _ => none

/-- `from_value`; a missing field has its default, one of another type fails -/
def LaunchStat.ofJson (v : Json) : Option LaunchStat :=
  v.asObject.bind fun m => do
    let key ← Json.defaultField Json.asStr "" m.entries "key"
    let instanceName ← Json.defaultField Json.asStr "" m.entries "instance"
    let version ← Json.optField Json.asStr m.entries "version"
    let startedAt ← Json.optField asI64 m.entries "started_at"
    let menuAt ← Json.optField asI64 m.entries "menu_at"
    let menuMs ← Json.optField asI64 m.entries "menu_ms"
    let playedMs ← Json.optField asI64 m.entries "played_ms"
    let spawnMs ← Json.optField asI64 m.entries "spawn_ms"
    let bootMs ← Json.optField asI64 m.entries "boot_ms"
    let phases ← Json.optField Json.asObject m.entries "phases"
    some ⟨key, instanceName, version, startedAt, menuAt, menuMs, playedMs, spawnMs, bootMs, phases,
      m.retain fun k v => if fieldNames.contains k then none else some v⟩

/-- `serde_json::to_string` and `from_str` -/
structure Codec where
  toStr : Json → String
  fromStr : String → Option Json

/-! ## The file -/

abbrev File := Option (List UInt8)

def maxStatsRecords : ℕ := 500

def statsWindowBytes : ℕ := 256 * 1024

def newline : UInt8 := 0x0a

def isBlank (l : List Char) : Bool := l.all ConfigStore.isWhitespace

/-- the lines of a text that are not blank -/
def linesOf (t : List Char) : List (List Char) := (t.splitOn '\n').filter fun l => !isBlank l

/-- what a rotation writes; `none` where it does not -/
def rotated (bytes : List UInt8) : Option (List UInt8) :=
  (fromUtf8 bytes).bind fun t =>
    let lines := linesOf t.toList
    if maxStatsRecords < lines.length then
      let kept := lines.drop (lines.length - maxStatsRecords)
      some (utf8 (.ofList (['\n'].intercalate kept ++ ['\n'])))
    else none

/-- where a call stands: its next step is the newline, the size check, the read, or the rewrite -/
inductive Phase where
  | idle
  | line
  | written
  | large
  | rotating (content : List UInt8)

structure St where
  file : File
  phase : ℕ → Phase
  rows : List LaunchStat

def start : St := ⟨none, fun _ => .idle, []⟩

inductive Op where
  | append (i : ℕ) (stat : LaunchStat)
  | newline (i : ℕ)
  | check (i : ℕ)
  | read (i : ℕ)
  | rewrite (i : ℕ)

def St.bytes (s : St) : List UInt8 := s.file.getD []

def St.setPhase (s : St) (i : ℕ) (p : Phase) : St := { s with phase := Function.update s.phase i p }

/-- one file operation of a call; one that is not the call's next leaves everything -/
def step (c : Codec) (s : St) : Op → St
  | .append i stat =>
    match s.phase i with
    | .idle =>
      { s.setPhase i .line with file := some (s.bytes ++ utf8 (c.toStr stat.toJson)), rows := s.rows ++ [stat] }
    | _ => s
  | .newline i =>
    match s.phase i with
    | .line => { s.setPhase i .written with file := some (s.bytes ++ [newline]) }
    | _ => s
  | .check i =>
    match s.phase i with
    | .written => s.setPhase i (if statsWindowBytes < s.bytes.length then .large else .idle)
    | _ => s
  | .read i =>
    match s.phase i with
    | .large => s.setPhase i (((rotated s.bytes).map Phase.rotating).getD .idle)
    | _ => s
  | .rewrite i =>
    match s.phase i with
    | .rotating content => { s.setPhase i .idle with file := some content }
    | _ => s

/-! ## Reading -/

/-- where the window begins -/
def windowOffset (bytes : List UInt8) : ℕ := bytes.length - min bytes.length statsWindowBytes

def readLine (c : Codec) (l : List Char) : Option LaunchStat :=
  ((c.fromStr (.ofList l)).filter fun v => v.asObject.isSome).bind LaunchStat.ofJson

/-- the newest records, newest first -/
def readInner (c : Codec) (file : File) (limit : ℕ) : List LaunchStat :=
  match file with
  | none => []
  | some bytes =>
    let readSize := min bytes.length statsWindowBytes
    let offset := bytes.length - readSize
    let t := (fromUtf8Lossy ((bytes.drop offset).take readSize)).toList
    let slice := if 0 < offset then afterFirst '\n' t else t
    let records := (linesOf slice).filterMap (readLine c)
    (records.drop (records.length - limit)).reverse

/-! ## What a reader is owed -/

/-- the window begins with a line -/
def atLineStart (bytes : List UInt8) : Bool :=
  0 < windowOffset bytes && bytes[windowOffset bytes - 1]? = some newline

/-- the complete lines in the window -/
def completeLines (bytes : List UInt8) : ℕ :=
  let n := (bytes.drop (windowOffset bytes)).count newline
  if windowOffset bytes = 0 || atLineStart bytes then n else n - 1

def owed (s : St) (limit : ℕ) : ℕ := min (min limit maxStatsRecords) (min s.rows.length (completeLines s.bytes))

/-- the reader gets the last records it is owed, newest first -/
def Kept (c : Codec) (s : St) (limit : ℕ) : Prop := s.rows.reverse.take (owed s limit) <+: readInner c s.file limit

/-- no field of `extra` has the name of one of the record's own -/
def LaunchStat.Plain (r : LaunchStat) : Prop := ∀ k ∈ r.extra.keys, k ∉ fieldNames

/-- no line is appended between the two appends of another call or between its read and its rewrite, and the file is not
rewritten between the two appends of another call -/
def Apart (s : St) : Op → Prop
  | .append i stat =>
    stat.Plain ∧ (s.phase i = .idle → ∀ j, s.phase j ≠ .line ∧ ∀ content, s.phase j ≠ .rotating content)
  | .rewrite i => (∃ content, s.phase i = .rotating content) → ∀ j, s.phase j ≠ .line
  | _ => True

/-- what is known of the codec on a record: its line is one line, not a blank one, and is read back -/
structure Writes (c : Codec) (r : LaunchStat) : Prop where
  oneLine : '\n' ∉ (c.toStr r.toJson).toList
  visible : isBlank (c.toStr r.toJson).toList = false
  readBack : c.fromStr (c.toStr r.toJson) = some r.toJson

end EspectralClient.LaunchStats
