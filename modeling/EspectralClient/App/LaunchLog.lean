/-
The log of one launch, from the engine to the launcher's log view (`native/engine/src/api/game_launch.rs`,
`native/app/src/pages/home_instances/launchlog.rs`).

The engine numbers each line under the lock of its buffers and publishes it after the lock is released; the pipe readers,
the log watcher and the exit path do so side by side. The view handles the published lines in the order they arrive, and
the one reply to the request it makes when a launch begins.

- `LaunchBuffer`, `Buf`: the two buffers, with `push`, `bufferView`, `append` and `backfill` as the sources have them.
- `step`: one locked section, one publication, or one callback of the view.
- `St.produced`, `St.before`, `St.after` are of the model only: the lines of the launch, and the events the view has
  handled before and after the reply.
-/
import Mathlib.Tactic

namespace EspectralClient.LaunchLog

/-! ## The engine's buffer -/

def ringCapacity : ℕ := 2000

/-- a line and its number -/
abbrev Line := ℕ × String

structure LaunchBuffer where
  seq : ℕ
  entries : List Line
deriving DecidableEq

structure LogChunk where
  cursor : ℕ
  lines : List String
deriving DecidableEq

/-- the oldest entries beyond the capacity go -/
def LaunchBuffer.push (b : LaunchBuffer) (line : String) : LaunchBuffer × Line :=
  let seq := b.seq + 1
  let entries := b.entries ++ [(seq, line)]
  (⟨seq, entries.drop (entries.length - ringCapacity)⟩, (seq, line))

def LaunchBuffer.pushAll (b : LaunchBuffer) : List String → LaunchBuffer × List Line
  | [] => (b, [])
  | line :: rest =>
    let (b, l) := b.push line
    let (b, ls) := b.pushAll rest
    (b, l :: ls)

/-- `\r\n` and `\r` become `\n` -/
def normalizeNewlines : List Char → List Char
  | '\r' :: '\n' :: rest => '\n' :: normalizeNewlines rest
  | '\r' :: rest => '\n' :: normalizeNewlines rest
  | c :: rest => c :: normalizeNewlines rest
  | [] => []

/-- the lines of a chunk of raw output; empty ones are dropped -/
def outputLines (chunk : String) : List String :=
  (((normalizeNewlines chunk.toList).splitOn '\n').filter fun l => !l.isEmpty).map String.ofList

def LaunchBuffer.bufferView (b : LaunchBuffer) (cursor : ℕ) : LogChunk :=
  let lines := b.entries.filter fun l => cursor < l.1
  ⟨(lines.getLast?.map Prod.fst).getD cursor, lines.map Prod.snd⟩

/-! ## The view's buffer -/

def maxLines : ℕ := 2000

/-- how far into an escape sequence the text is -/
inductive Ansi where
  | text
  | escape
  /-- after `\x1b[`, up to a letter -/
  | csi
  /-- after `\x1b(`, one character -/
  | charset

/-- the text without `\x1b[..m` and `\x1b(B` -/
def cleanAnsiFrom : Ansi → List Char → List Char
  | _, [] => []
  | .csi, c :: rest => cleanAnsiFrom (if c.isAlpha then .text else .csi) rest
  | .charset, _ :: rest => cleanAnsiFrom .text rest
  | .escape, c :: rest =>
    if c = '[' then cleanAnsiFrom .csi rest
    else if c = '(' then cleanAnsiFrom .charset rest
    else if c = '\x1b' then cleanAnsiFrom .escape rest
    else c :: cleanAnsiFrom .text rest
  | .text, c :: rest => if c = '\x1b' then cleanAnsiFrom .escape rest else c :: cleanAnsiFrom .text rest

def cleanAnsi (line : String) : String := String.ofList (cleanAnsiFrom .text line.toList)

structure Buf where
  /-- line number and cleaned text -/
  lines : List Line
  nextNum : ℕ
  /-- the last number of the engine applied -/
  lastSeq : ℕ
deriving DecidableEq

def Buf.new : Buf := ⟨[], 1, 0⟩

/-- a `launch-log` event -/
def Buf.append (b : Buf) (event : Line) : Buf :=
  if event.1 ≠ 0 ∧ event.1 ≤ b.lastSeq then b  -- already there from the reply
  else
    let lines := b.lines ++ [(b.nextNum, cleanAnsi event.2)]
    ⟨if lines.length > maxLines then lines.drop 1 else lines, b.nextNum + 1, max b.lastSeq event.1⟩

/-- the lines numbered from `n` -/
def numberFrom (n : ℕ) : List String → List Line
  | [] => []
  | t :: rest => (n, t) :: numberFrom (n + 1) rest

/-- the reply of `start`: its lines replace the view's unless it is older or has no more of them -/
def Buf.backfill (b : Buf) (chunk : LogChunk) : Buf :=
  if chunk.cursor < b.lastSeq ∨ chunk.lines.length ≤ b.lines.length then b
  else
    let kept := (chunk.lines.reverse.take maxLines).reverse
    ⟨numberFrom 1 (kept.map cleanAnsi), kept.length + 1, chunk.cursor⟩

/-! ## Both sides -/

/-- who appends lines and publishes them -/
inductive Source where
  | prepare
  | stdout
  | stderr
  | watcher
  | exit
deriving DecidableEq

inductive Backfill where
  | idle
  | requested
  | replied (chunk : LogChunk)
  /-- handled, with the lines the reply had -/
  | handled (count : ℕ)
deriving DecidableEq

structure St where
  buffer : LaunchBuffer
  /-- appended and not yet published, by their publishers -/
  pending : List (Source × Line)
  /-- published and not yet handled -/
  bus : List Line
  backfill : Backfill
  /-- none until the view has a buffer for the launch -/
  buf : Option Buf
  produced : List String
  before : List Line
  after : List Line

def start : St := ⟨⟨0, []⟩, [], [], .idle, none, [], [], []⟩

inductive Act where
  /-- `append_output` with a chunk of raw output -/
  | appendOutput (source : Source) (chunk : String)
  | appendSystem (source : Source) (line : String)
  /-- the source publishes the first line it has not published -/
  | publish (source : Source)
  /-- the launch begins in the view: its buffer is made and the log requested -/
  | startView
  /-- the engine answers the request -/
  | launchLog
  | handleReply
  | handleEvent

/-- a section under the lock, by a source that has published what it appended before -/
def appendLines (s : St) (source : Source) (lines : List String) : St :=
  if s.pending.any fun p => p.1 = source then s
  else
    let (buffer, ls) := s.buffer.pushAll lines
    { s with
      buffer := buffer
      pending := s.pending ++ ls.map fun l => (source, l)
      produced := s.produced ++ lines }

def publishFirst (s : St) (source : Source) : St :=
  match s.pending.find? fun p => p.1 = source with
  | some p => { s with pending := s.pending.eraseP fun p => p.1 = source, bus := s.bus ++ [p.2] }
  | none => s

def startView (s : St) : St :=
  match s.backfill with
  | .idle => { s with buf := some (s.buf.getD .new), backfill := .requested }
  | _ => s

def launchLog (s : St) : St :=
  match s.backfill with
  | .requested => { s with backfill := .replied (s.buffer.bufferView 0) }
  | _ => s

def handleReply (s : St) : St :=
  match s.backfill with
  | .replied chunk =>
    { s with buf := some ((s.buf.getD .new).backfill chunk), backfill := .handled chunk.lines.length }
  | _ => s

/-- remembers the event on its side of the reply -/
def record (s : St) (event : Line) : St :=
  match s.backfill with
  | .handled _ => { s with after := s.after ++ [event] }
  | _ => { s with before := s.before ++ [event] }

def handleEvent (s : St) : St :=
  match s.bus with
  | event :: rest => record { s with bus := rest, buf := some ((s.buf.getD .new).append event) } event
  | [] => s

def step (s : St) : Act → St
  | .appendOutput source chunk => appendLines s source (outputLines chunk)
  | .appendSystem source line => appendLines s source [line]
  | .publish source => publishFirst s source
  | .startView => startView s
  | .launchLog => launchLog s
  | .handleReply => handleReply s
  | .handleEvent => handleEvent s

end EspectralClient.LaunchLog
