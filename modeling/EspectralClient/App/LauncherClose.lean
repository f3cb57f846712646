/-
When the launcher closes itself (`maybe_close_launcher` in `native/app/src/store.rs`; the launch buffers, markers and exits
in `native/engine/src/api/game_launch.rs`).

A launch of the player that reaches its menu publishes `LaunchReady`. The store then asks the engine for its configuration
and for the launches, each call on its own, and ends the event loop if none of the rows is still preparing.

- `Buffer`: what the engine keeps of a launch; `pruneBuffers`, `createBuffer`, `listLaunches` as the source has them.
- `Launch`: of the model only, the launch itself: it is alive from the moment its key is minted until it fails, is
  cancelled or its process ends, and at its menu once its marker was seen. A game of an earlier session is a launch here
  once it is adopted.
- `step`: one locked section of the engine, one event, one engine call of the store or one callback on the UI thread.
-/
import Mathlib.Tactic

namespace EspectralClient.LauncherClose

/-! ## The engine's buffers -/

def bufferTtlMs : ℤ := 10 * 60 * 1000

def bufferLruCap : ℕ := 8

structure Buffer where
  key : String
  inst : String
  version : String
  account : Option String
  running : Bool
  startedAt : ℤ
  menuAt : Option ℤ
  endedAt : Option ℤ
  lastRead : ℤ
  agent : Bool
deriving DecidableEq

/-- a row of `list_launches` -/
structure LaunchHandle where
  key : String
  inst : String
  version : String
  account : Option String
  running : Bool
  agent : Bool
  startedAt : ℤ
  menuAt : Option ℤ
  endedAt : Option ℤ
deriving DecidableEq

/-- finished buffers go, the longest unread first, until the cap is met -/
def evict : List Buffer → List (ℤ × String) → List Buffer
  | b, [] => b
  | b, (_, k) :: rest => if b.length ≤ bufferLruCap then b else evict (b.filter fun buf => buf.key ≠ k) rest

/-- the order of the sort in `prune_buffers` -/
def readBefore (x y : ℤ × String) : Prop := x.1 < y.1 ∨ x.1 = y.1 ∧ x.2 ≤ y.2

instance (x y : ℤ × String) : Decidable (readBefore x y) := inferInstanceAs (Decidable (_ ∨ _))

def finished (b : List Buffer) : List (ℤ × String) :=
  ((b.filter fun v => !v.running).map fun v => (v.lastRead, v.key)).insertionSort readBefore

def pruneBuffers (now : ℤ) (b : List Buffer) : List Buffer :=
  let b := b.filter fun buf => buf.running || buf.endedAt.all fun e => decide (now - e < bufferTtlMs)
  if b.length ≤ bufferLruCap then b else evict b (finished b)

/-- a map keeps one entry for a key -/
def insertBuffer (b : List Buffer) (buf : Buffer) : List Buffer := (b.filter fun x => x.key ≠ buf.key) ++ [buf]

def createBuffer (now : ℤ) (key inst version : String) (account : Option String) (b : List Buffer) : List Buffer :=
  insertBuffer (pruneBuffers now b)
    { key := key, inst := inst, version := version, account := account, running := true, startedAt := now, menuAt := none,
      endedAt := none, lastRead := now, agent := false }

def withBuffer (b : List Buffer) (key : String) (f : Buffer → Buffer) : List Buffer :=
  b.map fun buf => if buf.key = key then f buf else buf

def Buffer.finish (now : ℤ) (b : Buffer) : Buffer := { b with running := false, endedAt := some now }

def handleOf (b : Buffer) : LaunchHandle :=
  { key := b.key, inst := b.inst, version := b.version, account := b.account, running := b.running, agent := b.agent,
    startedAt := b.startedAt, menuAt := b.menuAt, endedAt := b.endedAt }

/-- newest first -/
def listLaunches (b : List Buffer) : List LaunchHandle :=
  (b.map handleOf).insertionSort fun x y => y.startedAt ≤ x.startedAt

/-! ## The store's decision -/

/-- the answer of `maybe_close_launcher` once the launches are read -/
def shouldClose (launches : List LaunchHandle) (readyKey : String) : Bool :=
  !launches.any fun x => x.running && x.menuAt.isNone && decide (x.key ≠ readyKey)

/-! ## The launches themselves -/

structure Launch where
  key : String
  inst : String
  agent : Bool
  alive : Bool
  menu : Bool
deriving DecidableEq

def Launch.preparing (l : Launch) : Prop := l.alive = true ∧ l.menu = false

def Launch.atMenu (l : Launch) : Prop := l.alive = true ∧ l.menu = true

instance (l : Launch) : Decidable l.preparing := inferInstanceAs (Decidable (_ ∧ _))

instance (l : Launch) : Decidable l.atMenu := inferInstanceAs (Decidable (_ ∧ _))

def Launch.ended (l : Launch) : Launch := { l with alive := false }

def Launch.marked (l : Launch) : Launch := { l with menu := true }

def withLaunch (ls : List Launch) (key : String) (f : Launch → Launch) : List Launch :=
  ls.map fun l => if l.key = key then f l else l

/-- a call of `maybe_close_launcher`, by what it waits for -/
inductive Check where
  /-- the configuration -/
  | asked (key : String)
  /-- the launches -/
  | listing (key : String)
  /-- the UI thread, with the answer and the launches as they were when it was taken -/
  | answered (key : String) (close : Bool) (seen : List Launch)
deriving DecidableEq

/-- the event loop ended for this ready launch, on an answer taken with these launches -/
structure Closing where
  key : String
  seen : List Launch
deriving DecidableEq

structure St where
  active : List String
  buffers : List Buffer
  launches : List Launch
  /-- launches that have not spawned their game -/
  starting : List String
  /-- spawned games whose marker was not seen -/
  watched : List String
  /-- markers seen, their `LaunchReady` not yet published -/
  reached : List String
  /-- published `LaunchReady` events the store has not handled -/
  ready : List String
  checks : List Check
  closed : List Closing
deriving DecidableEq

def start : St := ⟨[], [], [], [], [], [], [], [], []⟩

inductive Op where
  /-- `launch_instance`, up to the new buffer -/
  | launch (name key version : String) (account : Option String) (agent : Bool) (now : ℤ)
  /-- `adopt_running_games`, up to the new buffer, for a recorded game that is still running -/
  | adopt (name key version : String) (account : Option String) (agent menu : Bool) (now : ℤ)
  /-- the buffer is told whether an agent launched it -/
  | tag (key : String)
  /-- an adopted buffer gets its recorded times -/
  | adoptTimes (key : String) (startedAt : ℤ) (menuAt : Option ℤ)
  /-- the game is spawned, and its marker watched for -/
  | spawn (key : String)
  /-- the launch fails, is cancelled, or its process ends -/
  | gone (key : String)
  /-- the failure path or the exit finalizer, also from the sweep over dead processes -/
  | finish (key : String) (now : ℤ)
  /-- `on_marker`, up to the recorded time -/
  | marker (key : String) (now : ℤ)
  /-- `on_marker` publishes `LaunchReady` -/
  | publish (key : String)
  /-- `launch_log` reads the buffer -/
  | read (key : String) (now : ℤ)
  /-- the store handles a `LaunchReady` -/
  | handle (key : String)
  /-- `get_config` answers, with `close_on_game_start`, or fails -/
  | config (key : String) (closeOnGameStart : Option Bool)
  /-- `list_launches` answers -/
  | list (key : String)
  /-- the answer reaches the UI thread -/
  | ui (key : String) (close : Bool) (seen : List Launch)
deriving DecidableEq

/-- the name a launch marked active -/
def St.nameOf (s : St) (key : String) : List String := (s.launches.filter fun l => l.key = key).map Launch.inst

def step (s : St) : Op → St
  | .launch name key version account agent now =>
    if name ∈ s.active ∨ ∃ l ∈ s.launches, l.key = key then s
    else
      { s with
        active := s.active ++ [name]
        buffers := createBuffer now key name version account s.buffers
        launches := s.launches ++ [⟨key, name, agent, true, false⟩]
        starting := s.starting ++ [key] }
  | .adopt name key version account agent menu now =>
    if name ∈ s.active ∨ ∃ l ∈ s.launches, l.key = key ∧ (l.alive = true ∨ l.agent ≠ agent) then s
    else
      { s with
        active := s.active ++ [name]
        buffers := createBuffer now key name version account s.buffers
        launches := (s.launches.filter fun l => l.key ≠ key) ++ [⟨key, name, agent, true, menu⟩] }
  | .tag key =>
    { s with
      buffers := withBuffer s.buffers key fun b =>
        { b with agent := s.launches.any fun l => decide (l.key = key) && l.agent } }
  | .adoptTimes key startedAt menuAt =>
    if ∃ l ∈ s.launches, l.key = key ∧ l.menu ≠ menuAt.isSome then s
    else { s with buffers := withBuffer s.buffers key fun b => { b with startedAt := startedAt, menuAt := menuAt } }
  | .spawn key =>
    if key ∈ s.starting then { s with starting := s.starting.erase key, watched := s.watched ++ [key] } else s
  | .gone key =>
    { s with
      launches := withLaunch s.launches key Launch.ended
      starting := s.starting.filter fun k => k ≠ key }
  | .finish key now =>
    if ∃ l ∈ s.launches, l.key = key ∧ l.alive = true then s
    else
      { s with
        active := s.active.filter fun name => name ∉ s.nameOf key
        buffers := withBuffer s.buffers key (Buffer.finish now) }
  | .marker key now =>
    if key ∈ s.watched then
      { s with
        buffers := withBuffer s.buffers key fun b => { b with menuAt := some now }
        launches := withLaunch s.launches key Launch.marked
        watched := s.watched.erase key
        reached := if ∃ l ∈ s.launches, l.key = key ∧ l.agent = true then s.reached else s.reached ++ [key] }
    else s
  | .publish key =>
    if key ∈ s.reached then { s with reached := s.reached.erase key, ready := s.ready ++ [key] } else s
  | .read key now => { s with buffers := withBuffer s.buffers key fun b => { b with lastRead := now } }
  | .handle key =>
    if key ∈ s.ready then { s with ready := s.ready.erase key, checks := s.checks ++ [.asked key] } else s
  | .config key closeOnGameStart =>
    if .asked key ∈ s.checks then
      let checks := s.checks.erase (.asked key)
      { s with checks := if closeOnGameStart = some true then checks ++ [.listing key] else checks }
    else s
  | .list key =>
    if .listing key ∈ s.checks then
      { s with
        checks := s.checks.erase (.listing key) ++
          [.answered key (shouldClose (listLaunches s.buffers) key) s.launches] }
    else s
  | .ui key close seen =>
    if .answered key close seen ∈ s.checks then
      { s with
        checks := s.checks.erase (.answered key close seen)
        closed := if close = true then s.closed ++ [⟨key, seen⟩] else s.closed }
    else s

end EspectralClient.LauncherClose
