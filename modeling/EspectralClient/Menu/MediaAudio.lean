/-
The audio channel of the media player (`branding-mod/src/main/java/es/spectral/menu/media/MediaAudio.java`).

The player streams its ring through a handle of the game's own channel pool. A handle is asked for and comes later, or
comes as null; the request carries no identity, and the answer is taken if one is being waited for.

- `Audio`: the fields of the class that decide which handle is held, with the handles it was ever given.
- `startStreaming`, `acquire`, `created`, `setPaused`, `stopStreaming`, `tick` as the source has them; each runs under the
  object's lock.
- `playing` and `ticked` are of the model only: whether a track is playing for the player, and whether the last step was a
  client tick that found the sound manager.
-/
import Mathlib.Tactic

namespace EspectralClient.MediaAudio

/-- a `ChannelHandle` of the pool -/
structure ChannelHandle where
  /-- it was given a `MediaStream` on the ring -/
  stream : Bool
  released : Bool
  stopped : Bool
deriving DecidableEq

inductive State where
  | idle
  | requested
  | active
deriving DecidableEq

/-- what `acquire` finds of the game's sound engine -/
inductive Pool where
  /-- the client, its sound manager, engine or channel pool is not there -/
  | missing
  /-- asking for a handle fails -/
  | throws
  | asked
deriving DecidableEq

structure Audio where
  /-- every handle obtained, oldest first -/
  handles : List ChannelHandle
  /-- the field `handle`, by its place among them -/
  handle : Option ℕ
  state : State
  paused : Bool
  /-- `createHandle` calls that have not completed -/
  outstanding : ℕ
  playing : Bool
  ticked : Bool
deriving DecidableEq

def initial : Audio := ⟨[], none, .idle, false, 0, false, false⟩

def release (m : Audio) (i : ℕ) : Audio :=
  { m with handles := m.handles.modify i fun h => { h with released := true, stopped := true } }

def acquire (m : Audio) : Pool → Audio
  | .missing => m
  | .throws => { m with state := .idle }
  | .asked => { m with outstanding := m.outstanding + 1 }

/-- the next track, or the same one again -/
def startStreaming (m : Audio) (pool : Pool) : Audio :=
  acquire { m with paused := false, state := .requested, playing := true } pool

/-- the completion of a `createHandle` call, with a handle or with null -/
def created (m : Audio) (given : Bool) : Audio :=
  let m := { m with outstanding := m.outstanding - 1 }
  if given = false then m
  else if m.state = .requested then
    { m with
      handles := m.handles ++ [⟨true, false, false⟩]
      handle := some m.handles.length
      state := .active }
  else { m with handles := m.handles ++ [⟨false, true, true⟩] }

def stopStreaming (m : Audio) : Audio :=
  let m := { m with playing := false }
  match m.handle with
  | none => { m with state := .idle }
  | some i => release { m with handle := none, state := .idle } i

/-- the handle at this place was released, or destroyed with its pool -/
def stoppedAt (m : Audio) (i : ℕ) : Bool := (m.handles[i]?).any ChannelHandle.stopped

/-- the tick finds no channel in a state that should have one -/
def lost (m : Audio) : Bool := m.state = .active && m.handle.all (stoppedAt m)

/-- `tick`, once the sound manager is there -/
def tick (m : Audio) (pool : Pool) : Audio :=
  if lost m then
    let m := match m.handle with
      | none => m
      | some i => release m i
    acquire { m with handle := none, state := .requested } pool
  else m

inductive Op where
  | startStreaming (pool : Pool)
  | created (given : Bool)
  | setPaused (value : Bool)
  | stopStreaming
  /-- a client tick; `manager` is whether the client has its sound manager -/
  | tick (manager : Bool) (pool : Pool)
  /-- a reload of the sound engine, or the end of its stream, stops a handle -/
  | destroy (i : ℕ)
deriving DecidableEq

def step (m : Audio) (o : Op) : Audio :=
  let m := { m with ticked := false }
  match o with
  | .startStreaming pool => startStreaming m pool
  | .created given => if m.outstanding = 0 then m else created m given
  | .setPaused value => { m with paused := value }
  | .stopStreaming => stopStreaming m
  | .tick manager pool => if manager then { tick m pool with ticked := true } else m
  | .destroy i => { m with handles := m.handles.modify i fun h => { h with stopped := true } }

end EspectralClient.MediaAudio
