/-
A live recording (`branding-mod/.../agent/AgentRecorder.java`): the render thread takes frames at increasing slots and
stops the recording, asynchronous readbacks fill buffers and queue them, and a writer thread sends frames to the encoder,
repeating the previous one for the slots that were skipped and up to the stop.

The three run in any order, each step below being one of theirs. A frame is the pixels it was read back with; the buffers
they travel in are reused, so the state keeps what is in each. The encoder is one that takes what it is sent, and the
`long` arithmetic on times does not overflow (at 120 frames a second that takes two years).

- `onFrameEnd`, `stopNow`, `accept`, `reject`: the render thread.
- `take`, `write`, `finishWriting`: the three turns of `writeLoop`; `publish` is where `finish` sets the end slot.
-/
import EspectralClient.Lib.Run
import EspectralClient.Lib.Hold

namespace EspectralClient.Menu.AgentRecorder

open EspectralClient.Lib EspectralClient.Lib.Hold

/-! ## Model -/

/-- readbacks allowed in flight -/
def maxPending : ℕ := 6

/-- places in the writer's queue -/
def queueCapacity : ℕ := maxPending + 2

/-- places in the pool of buffers -/
def poolCapacity : ℕ := maxPending + 3

variable {α : Type}

/-- one recording; a buffer is a number, and `mem` what is in it -/
structure Session (α : Type) where
  width : ℕ
  height : ℕ
  fps : ℕ
  maxSeconds : ℕ
  startNs : ℤ
  /-- the slot of the last frame taken, −1 at first -/
  lastSlot : ℤ
  gameFrames : ℕ
  encoderBusy : ℕ
  failed : Option String
  /-- readbacks that are not done, in order: slot and buffer -/
  inFlight : List (ℕ × ℕ)
  queue : List (ℕ × ℕ)
  pool : List ℕ
  /-- the next buffer that was never used -/
  fresh : ℕ
  mem : ℕ → α
  /-- when it was stopped -/
  stopped : Option ℤ
  /-- the last slot to write, once the writer can see it -/
  endSlot : Option ℕ
  /-- what the writer has polled and not handled -/
  polled : Option (ℕ × ℕ)
  nextSlot : ℕ
  unique : ℕ
  repeats : ℕ
  previous : Option ℕ
  /-- what the encoder was sent -/
  stdin : List α
  closed : Bool
  /-- every frame that was queued, with its slot: kept for the statements -/
  accepted : List (ℕ × α)

/-- a recording that starts now -/
def newSession (width height fps maxSeconds : ℕ) (startNs : ℤ) (mem : ℕ → α) : Session α where
  width := width
  height := height
  fps := fps
  maxSeconds := maxSeconds
  startNs := startNs
  lastSlot := -1
  gameFrames := 0
  encoderBusy := 0
  failed := none
  inFlight := []
  queue := []
  pool := []
  fresh := 0
  mem := mem
  stopped := none
  endSlot := none
  polled := none
  nextSlot := 0
  unique := 0
  repeats := 0
  previous := none
  stdin := []
  closed := false
  accepted := []

/-- `offer` of a buffer to the pool: dropped when it is full -/
def offer (pool : List ℕ) (buffer : ℕ) : List ℕ := if pool.length < poolCapacity then pool ++ [buffer] else pool

/-- the output slot of a time -/
def slotOf (s : Session α) (now : ℤ) : ℤ := ((now - s.startNs) * s.fps).tdiv 1000000000

/-- the last slot of a recording that is stopped at `stopNs` -/
def endOf (s : Session α) (stopNs : ℤ) : ℕ := (max 0 (slotOf s stopNs - 1)).toNat

def stopNow (s : Session α) (stopNs : ℤ) : Session α := { s with stopped := some stopNs }

/-- a readback that failed; `why` is the end of its message -/
def reject (s : Session α) (buffer : ℕ) (why : String) : Session α :=
  { s with failed := some ("frame readback failed: " ++ why), pool := offer s.pool buffer }

/-- the end of a frame at `now`; `stopNs` is the clock when the time limit stops the recording, `target` the size of the
render target, `thrown` an exception of the readback -/
def onFrameEnd (s : Session α) (now stopNs : ℤ) (target : Option (ℕ × ℕ)) (thrown : Option String) : Session α :=
  if s.stopped ≠ none then s
  else if s.maxSeconds * 1000000000 < now - s.startNs then stopNow s stopNs
  else if s.failed ≠ none then s
  else
    let s := { s with gameFrames := s.gameFrames + 1 }
    let slot := slotOf s now
    if slot ≤ s.lastSlot then s
    else
      match target with
      | none => s
      | some (width, height) =>
        if width < s.width ∨ height < s.height then s
        else if maxPending ≤ s.inFlight.length then { s with encoderBusy := s.encoderBusy + 1 }
        else
          let s := { s with lastSlot := slot }
          let (buffer, s) := match s.pool with
            | buffer :: pool => (buffer, { s with pool := pool })
            | [] => (s.fresh, { s with fresh := s.fresh + 1 })
          match thrown with
          | some why => reject s buffer why
          | none => { s with inFlight := s.inFlight ++ [(slot.toNat, buffer)] }

/-- the oldest readback is done: its buffer holds `pixels`, and the frame is queued -/
def accept (s : Session α) (pixels : α) : Session α :=
  match s.inFlight with
  | [] => s
  | (slot, buffer) :: rest =>
    let s := { s with mem := Function.update s.mem buffer pixels }
    if s.queue.length < queueCapacity then
      { s with queue := s.queue ++ [(slot, buffer)], inFlight := rest, accepted := s.accepted ++ [(slot, pixels)] }
    else { s with pool := offer s.pool buffer, encoderBusy := s.encoderBusy + 1, inFlight := rest }

/-- the oldest readback fails, whatever it left in its buffer -/
def readbackFails (s : Session α) (pixels : α) (why : String) : Session α :=
  match s.inFlight with
  | [] => s
  | (_, buffer) :: rest => { reject { s with mem := Function.update s.mem buffer pixels } buffer why with inFlight := rest }

/-- `record_stop` while the recording runs -/
def stop (s : Session α) (stopNs : ℤ) : Session α := if s.stopped = none then stopNow s stopNs else s

/-- `finish` sets the end slot -/
def publish (s : Session α) : Session α :=
  match s.stopped, s.endSlot with
  | some stopNs, none => { s with endSlot := some (endOf s stopNs) }
  | _, _ => s

/-- the writer polls a frame -/
def take (s : Session α) : Session α :=
  match s.closed, s.polled, s.queue with
  | false, none, item :: rest => { s with polled := some item, queue := rest }
  | _, _, _ => s

/-- the previous frame for the slots up to `limit` -/
def repeatTo (s : Session α) (limit : ℕ) : Session α :=
  match s.previous with
  | none => s
  | some previous =>
    { s with
      stdin := s.stdin ++ List.replicate (limit - s.nextSlot) (s.mem previous)
      repeats := s.repeats + (limit - s.nextSlot)
      nextSlot := max s.nextSlot limit }

/-- the frame is behind the end slot, if that is set -/
def isLate (s : Session α) (slot : ℕ) : Bool := s.endSlot.any fun limit => limit < slot

/-- the writer handles the frame it polled -/
def write (s : Session α) : Session α :=
  match s.polled with
  | none => s
  | some (slot, buffer) =>
    let s := { s with polled := none }
    if isLate s slot then { s with pool := offer s.pool buffer }
    else
      let s := repeatTo s slot
      { s with
        stdin := s.stdin ++ [s.mem buffer]
        unique := s.unique + 1
        nextSlot := slot + 1
        pool := match s.previous with
          | some previous => offer s.pool previous
          | none => s.pool
        previous := some buffer }

/-- nothing to poll: when the recording was stopped and drained, the writer pads to the end slot and closes -/
def finishWriting (s : Session α) : Session α :=
  match s.closed, s.endSlot with
  | false, some limit =>
    if s.polled = none ∧ s.queue = [] ∧ s.inFlight = [] then { repeatTo s (limit + 1) with closed := true } else s
  | _, _ => s

inductive Event (α : Type) where
  | frameEnd (now stopNs : ℤ) (target : Option (ℕ × ℕ)) (thrown : Option String)
  | accept (pixels : α)
  | reject (pixels : α) (why : String)
  | stop (stopNs : ℤ)
  | publish
  | take
  | write
  | finishWriting

def step (s : Session α) : Event α → Session α
  | .frameEnd now stopNs target thrown => onFrameEnd s now stopNs target thrown
  | .accept pixels => accept s pixels
  | .reject pixels why => readbackFails s pixels why
  | .stop stopNs => stop s stopNs
  | .publish => publish s
  | .take => take s
  | .write => write s
  | .finishWriting => finishWriting s

end EspectralClient.Menu.AgentRecorder
