/-
The decode thread, the ring it feeds and the ticks that watch it (`media/MediaDecoder.java`, `media/MediaRing.java` and the
parts of `media/MediaPlayer.java` that open, stop and end a track, under `branding-mod/src/main/java/es/spectral/menu`).

- `Shared`: what the threads share, the ring and the decoder's volatile fields.
- `decodeStep`: `decodeLoop`, one statement on shared state at a time; `sound.read` returns at some later step.
- `Client`: the client thread inside `open`, `stop` or a tick, at its next statement on shared state. Its wait for the old
  thread ends whenever the run goes on from it, so it may time out.
- `step`: a call on the client thread, its next statement, a step of a decode thread, or a read of the sound thread.
- `track`, `file`, `got`, `ends` are of the model only: the number of the track, the decoded PCM of the file that `open`
  last opened, the bytes read since, and the tracks whose end was declared. `open` ends with the start of its thread.
-/
import EspectralClient.Lib.RingBuffer

namespace EspectralClient.MediaDecoder

open EspectralClient.Lib

/-- `MediaRing.CAPACITY` -/
def capacity : ℕ := 786432

def chunkLength : ℕ := 16 * 1024

theorem capacity_pos : 0 < capacity := Nat.succ_pos _

/-- `new MediaRing()` -/
def newRing : Ring UInt8 capacity :=
  { buffer := fun _ => 0, head := 0, tail := 0, count := 0, head_lt := capacity_pos, count_le := Nat.zero_le _,
    tail_eq := rfl }

/-- an opened file: what reading it gives, and whether it then fails or ends -/
structure Sound where
  pcm : List UInt8
  fails : Bool
deriving DecidableEq

/-- what the decode threads, the client thread and the sound thread share -/
structure Shared where
  ring : Ring UInt8 capacity
  running : Bool
  eof : Bool
  error : Bool

/-! ## The decode thread -/

/-- the next statement of `decodeLoop`; `rest` is what is left of the chunk to write -/
inductive Pc where
  /-- `while (running)` -/
  | loop
  /-- `ring.awaitRoom(250)` -/
  | await
  /-- `sound.read(chunk, 0, chunk.length)` -/
  | read
  /-- `eof = true` at the end of the file -/
  | eofSet
  /-- `while (written < n && running)` -/
  | writeCheck (rest : List UInt8)
  | write (rest : List UInt8)
  /-- `ring.awaitRoom(250)` of a full ring -/
  | waitWrite (rest : List UInt8)
  /-- `if (running)` of the failure path -/
  | errorCheck
  | errorSet
  /-- `if (running)` of `finally` -/
  | finallyCheck
  /-- `eof = true` of `finally` -/
  | finallySet
  | ended
deriving DecidableEq

structure DecodeThread where
  pc : Pc
  /-- what `sound` has still to give -/
  left : List UInt8
  fails : Bool
  interrupted : Bool
deriving DecidableEq

/-- how a wait, or a blocking read, ends -/
inductive Wake where
  | done
  | interrupted
deriving DecidableEq

def decodeStep (sh : Shared) (t : DecodeThread) (wake : Wake) : Shared × DecodeThread :=
  match t.pc with
  | .loop => (sh, { t with pc := if sh.running then .await else .finallyCheck })
  | .await =>
    if 0 < sh.ring.room then (sh, { t with pc := .read })
    else if wake = .interrupted ∧ t.interrupted = true then (sh, { t with pc := .finallyCheck })
    else (sh, { t with pc := .loop })
  | .read =>
    if wake = .interrupted ∧ t.interrupted = true then (sh, { t with pc := .errorCheck })
    else if t.left = [] then (sh, { t with pc := if t.fails then .errorCheck else .eofSet })
    else (sh, { t with pc := .writeCheck (t.left.take chunkLength), left := t.left.drop chunkLength })
  | .eofSet => ({ sh with eof := true }, { t with pc := .finallyCheck })
  | .writeCheck rest => (sh, { t with pc := if rest ≠ [] ∧ sh.running = true then .write rest else .loop })
  | .write rest =>
    let w := sh.ring.write rest
    ({ sh with ring := w.2 },
      { t with pc := if w.1 = 0 then .waitWrite rest else .writeCheck (rest.drop w.1) })
  | .waitWrite rest =>
    if sh.ring.room = 0 ∧ wake = .interrupted ∧ t.interrupted = true then (sh, { t with pc := .finallyCheck })
    else (sh, { t with pc := .writeCheck rest })
  | .errorCheck => (sh, { t with pc := if sh.running then .errorSet else .finallyCheck })
  | .errorSet => ({ sh with error := true }, { t with pc := .finallyCheck })
  | .finallyCheck => (sh, { t with pc := if sh.running then .finallySet else .ended })
  | .finallySet => ({ sh with eof := true }, { t with pc := .ended })
  | .ended => (sh, t)

/-! ## The client thread -/

/-- what is to be played: a file that opens, or one that does not -/
abbrev Track := Option Sound

/-- the next statement of the client thread; `next` is the track to open once the decoder is stopped, none for a stop -/
inductive Client where
  | idle
  /-- `running = false` -/
  | runningOff (next : Option Track)
  /-- `thread = null`, and the thread is interrupted -/
  | takeThread (next : Option Track)
  /-- `t.join(400L)` -/
  | join (next : Option Track)
  | clear (next : Option Track)
  | eofOff (track : Track)
  | errorOff (track : Track)
  /-- `new Sound(in)` -/
  | openSound (track : Track)
  /-- `running = true` -/
  | runningOn (sound : Sound)
  /-- `thread = t; t.start()` -/
  | startThread (sound : Sound)
  /-- `decoder.error()` of the tick; `next` is what the end of the track would start, none if it would stop -/
  | tickError (next : Option Track)
  /-- `decoder.atEof()` -/
  | tickEof (next : Option Track)
  /-- `ring.available()` -/
  | tickRoom (next : Option Track)
deriving DecidableEq

/-- a declared end: the number of the track, its PCM and what was read of it -/
structure Ended where
  track : ℕ
  file : List UInt8
  got : List UInt8
deriving DecidableEq

structure St where
  shared : Shared
  threads : List DecodeThread
  /-- the decoder's field, by the thread's place -/
  thread : Option ℕ
  client : Client
  playing : Bool
  paused : Bool
  eofHandled : Bool
  track : ℕ
  file : List UInt8
  got : List UInt8
  ends : List Ended

def start : St := ⟨⟨newRing, false, false, false⟩, [], none, .idle, false, false, false, 0, [], [], []⟩

/-- `startDecode` -/
def startDecode (s : St) (track : Track) : St :=
  { s with playing := true, paused := false, eofHandled := false, client := .runningOff (some track) }

/-- `stop` of the player -/
def stop (s : St) : St := { s with playing := false, paused := false, client := .runningOff none }

/-- what the end of a track, or a failure, goes on with -/
def goOn (s : St) : Option Track → St
  | none => stop s
  | some track => startDecode s track

def clientStep (s : St) : St :=
  match s.client with
  | .idle => s
  | .runningOff next => { s with shared := { s.shared with running := false }, client := .takeThread next }
  | .takeThread next =>
    { s with
      threads := match s.thread with
        | none => s.threads
        | some i => s.threads.modify i fun t => { t with interrupted := true }
      thread := none
      client := .join next }
  | .join next => { s with client := .clear next }
  | .clear next =>
    { s with
      shared := { s.shared with ring := s.shared.ring.clear }
      client := match next with
        | none => .idle
        | some track => .eofOff track }
  | .eofOff track => { s with shared := { s.shared with eof := false }, client := .errorOff track }
  | .errorOff track => { s with shared := { s.shared with error := false }, client := .openSound track }
  | .openSound none =>
    { s with
      shared := { s.shared with error := true }, client := .idle, track := s.track + 1, file := [], got := [] }
  | .openSound (some sound) => { s with client := .runningOn sound }
  | .runningOn sound => { s with shared := { s.shared with running := true }, client := .startThread sound }
  | .startThread sound =>
    { s with
      threads := s.threads ++ [⟨.loop, sound.pcm, sound.fails, false⟩]
      thread := some s.threads.length
      client := .idle, track := s.track + 1, file := sound.pcm, got := [] }
  | .tickError next =>
    if s.shared.error = true ∧ s.paused = false then stop s else { s with client := .tickEof next }
  | .tickEof next => { s with client := if s.shared.eof then .tickRoom next else .idle }
  | .tickRoom next =>
    if s.shared.ring.count = 0 ∧ s.paused = false ∧ s.eofHandled = false then
      goOn { s with eofHandled := true, ends := s.ends ++ [⟨s.track, s.file, s.got⟩] } next
    else { s with client := .idle }

inductive Op where
  /-- a track is chosen, by the user -/
  | play (track : Track)
  | stop
  | pause
  | resume
  /-- a client tick, with the feature on or off -/
  | tick (enabled : Bool) (next : Option Track)
  /-- the next statement of the client thread -/
  | client
  /-- the next statement of a decode thread -/
  | decode (i : ℕ) (wake : Wake)
  /-- `ring.read` of the sound thread -/
  | read (len : ℕ)
deriving DecidableEq

/-- a call is made on the client thread once the last one returned -/
def call (s : St) : Op → St
  | .play track => startDecode s track
  | .stop => stop s
  | .pause => if s.playing = true ∧ s.paused = false then { s with paused := true } else s
  | .resume => if s.playing = true ∧ s.paused = true then { s with paused := false } else s
  | .tick enabled next =>
    if s.playing = false then s
    else if enabled = false then stop s
    else { s with client := .tickError next }
  | .client | .decode .. | .read .. => s

def step (s : St) (o : Op) : St :=
  match o with
  | .client => clientStep s
  | .decode i wake =>
    match s.threads[i]? with
    | none => s
    | some t =>
      let next := decodeStep s.shared t wake
      { s with shared := next.1, threads := s.threads.set i next.2 }
  | .read len =>
    let r := s.shared.ring.read len
    { s with shared := { s.shared with ring := r.2 }, got := s.got ++ r.1 }
  | o => if s.client = .idle then call s o else s

end EspectralClient.MediaDecoder
