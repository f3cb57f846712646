/-
Single instance and the hand-over of later launches (`native/app/src/single_instance.rs`, and `run_ui` and
`take_second_launch` in `native/app/src/main.rs`).

Every launch tries the lock. The one that gets it is the first instance; the others send it their arguments and read one
reply line, and try again on any reply but `ok`.

- `Launch`, `Request`: a launch by its next statement, and a forwarded frame by how far its connection thread came.
- `step`: one statement of `acquire_within`, one mutex section of the first instance, one message, or one closure of its
  UI event loop. A posted closure may run late or never, and a launch may give up an answer at any time.
- `imports` is of the model only: which launch's arguments were given to the import, and by which instance; `own` is the
  same for an instance's own arguments. An entry of `queued` is a launch in the start-up queue of its holder.
-/
import Mathlib.Tactic

namespace EspectralClient.SingleInstance

/-- the suffix, whatever its ASCII case; no byte of it is part of a longer character -/
def isMrpackArg (arg : String) : Bool :=
  let b := arg.toList
  decide (7 ≤ b.length) && decide ((b.drop (b.length - 7)).map Char.toLower = ".mrpack".toList)

/-- the states of an instance that holds the lock -/
inductive State where
  | starting
  | running
  | closing
deriving DecidableEq

inductive Reply where
  | ok
  | closing
  | busy
deriving DecidableEq

/-- the next statement of a launch -/
inductive Pc where
  /-- `lock_file.try_lock()` -/
  | trying
  /-- `become_primary`, with the lock held -/
  | claiming
  /-- the port file is read -/
  | blocked
  /-- `TcpStream::connect_timeout` to the instance the port file names -/
  | connecting (target : ℕ)
  /-- the reply line of a request is waited for -/
  | waiting (request : ℕ)
  /-- no `ok`: the deadline is checked -/
  | again
  | primary (state : State)
  | forwarded
  | unresponsive
  /-- the lock is unusable: `Err` -/
  | unguarded
deriving DecidableEq

structure Launch where
  args : List String
  pc : Pc
deriving DecidableEq

/-- how far a request came at the first instance -/
inductive Stage where
  | sent
  /-- `take` found the instance running; the handler's mutex is waited for -/
  | handling
  /-- the handler posted its closure and waits for it -/
  | posted
  /-- the closure ran, the handler has not returned -/
  | ran
  | replied (reply : Reply)
  /-- no reply will come, or it was read -/
  | over
deriving DecidableEq

structure Request where
  launch : ℕ
  target : ℕ
  args : List String
  stage : Stage
deriving DecidableEq

/-- the arguments of a second launch, queued at its holder -/
structure Queued where
  holder : ℕ
  launch : ℕ
  args : List String
deriving DecidableEq

/-- a call of `import_mrpacks`, for the arguments of one launch -/
structure Import where
  holder : ℕ
  launch : ℕ
  paths : List String
deriving DecidableEq

structure St where
  launches : List Launch
  requests : List Request
  /-- who holds `ui.lock` -/
  holder : Option ℕ
  /-- the instance `ui.port` names -/
  port : Option ℕ
  queued : List Queued
  /-- closures posted to the event loops, by their request -/
  posted : List ℕ
  imports : List Import
  own : List Import
deriving DecidableEq

def start : St := ⟨[], [], none, none, [], [], [], []⟩

def St.pcOf (s : St) (i : ℕ) : Option Pc := (s.launches[i]?).map Launch.pc

def setPc (s : St) (i : ℕ) (pc : Pc) : St := { s with launches := s.launches.modify i fun l => { l with pc := pc } }

def setStage (s : St) (r : ℕ) (stage : Stage) : St :=
  { s with requests := s.requests.modify r fun q => { q with stage := stage } }

/-- the handler of this instance is taken by one of its requests -/
def St.handlerBusy (s : St) (target : ℕ) : Bool :=
  s.requests.any fun q => decide (q.target = target) && decide (q.stage = .posted ∨ q.stage = .ran)

def importOf (holder launch : ℕ) (args : List String) : Import := ⟨holder, launch, args.filter isMrpackArg⟩

/-- a step of a request that is at this stage -/
def St.onRequest (s : St) (r : ℕ) (stage : Stage) (next : Request → St) : St :=
  match s.requests[r]? with
  | some q => if q.stage = stage then next q else s
  | none => s

/-- a step of a launch that is at this statement -/
def St.onLaunch (s : St) (i : ℕ) (pc : Pc) (next : St) : St := if s.pcOf i = some pc then next else s

/-- `Shared::take` of the target -/
def take (s : St) (r : ℕ) (q : Request) : St :=
  match s.pcOf q.target with
  | some (.primary .starting) =>
    setStage { s with queued := s.queued ++ [⟨q.target, q.launch, q.args⟩] } r (.replied .ok)
  | some (.primary .running) => setStage s r .handling
  | some (.primary .closing) => setStage s r (.replied .closing)
  | _ => s

/-- the closure on the UI thread; its message is lost if the handler is gone -/
def runClosure (s : St) (r : ℕ) (q : Request) : St :=
  let s := { s with posted := s.posted.erase r, imports := s.imports ++ [importOf q.target q.launch q.args] }
  if q.stage = .posted then setStage s r .ran else s

def argsOf (s : St) (i : ℕ) : List String := ((s.launches[i]?).map Launch.args).getD []

/-- `ready`, and the import of the own and the queued arguments -/
def ready (s : St) (i : ℕ) : St :=
  setPc
    { s with
      own := s.own ++ [importOf i i (argsOf s i)]
      imports := s.imports ++ (s.queued.filter fun e => e.holder = i).map fun e => importOf i e.launch e.args
      queued := s.queued.filter fun e => ¬ e.holder = i }
    i (.primary .running)

/-- `closing`: what was queued goes with the state -/
def closing (s : St) (i : ℕ) : St :=
  setPc { s with queued := s.queued.filter fun e => ¬ e.holder = i } i (.primary .closing)

inductive Op where
  /-- a process starts -/
  | spawn (args : List String)
  | tryLock (i : ℕ)
  | lockError (i : ℕ)
  /-- `become_primary` is done, or fails -/
  | become (i : ℕ) (ok : Bool)
  /-- the port file is read and parsed, or is not there -/
  | readPort (i : ℕ) (found : Bool)
  /-- the frame is sent, or no connection comes about -/
  | connect (i target : ℕ) (ok : Bool)
  /-- the connection is not served: too many at once, or a frame too large or too slow -/
  | unserved (r : ℕ)
  | take (r : ℕ)
  /-- the handler posts its closure; the event loop takes it or is over -/
  | post (r : ℕ) (ok : Bool)
  /-- the event loop runs the closure -/
  | run (r : ℕ)
  /-- the closure is dropped, or finds its window gone -/
  | discard (r : ℕ)
  /-- `recv_timeout` ends without a message -/
  | giveUp (r : ℕ)
  /-- `recv_timeout` gets the closure's message -/
  | finish (r : ℕ)
  /-- the reply line arrives -/
  | answer (r : ℕ) (reply : Reply)
  /-- the reply is given up: a timeout, or a closed connection -/
  | noAnswer (i r : ℕ)
  | retry (i : ℕ) (expired : Bool)
  | ready (i : ℕ)
  | closing (i : ℕ) (state : State)
  /-- the guard, closed before, is dropped: the port file goes, and then the lock -/
  | release (i : ℕ)
deriving DecidableEq

def step (s : St) : Op → St
  | .spawn args => { s with launches := s.launches ++ [⟨args, .trying⟩] }
  | .tryLock i =>
    s.onLaunch i .trying
      (if s.holder = none then setPc { s with holder := some i } i .claiming else setPc s i .blocked)
  | .lockError i => s.onLaunch i .trying (setPc s i .unguarded)
  | .become i ok =>
    s.onLaunch i .claiming
      (if ok then setPc { s with port := some i } i (.primary .starting)
      else setPc { s with holder := none } i .unguarded)
  | .readPort i found =>
    s.onLaunch i .blocked
      (match (if found then s.port else none) with
      | some target => setPc s i (.connecting target)
      | none => setPc s i .again)
  | .connect i target ok =>
    s.onLaunch i (.connecting target)
      (if ok then
        setPc { s with requests := s.requests ++ [⟨i, target, argsOf s i, .sent⟩] } i (.waiting s.requests.length)
      else setPc s i .again)
  | .unserved r => s.onRequest r .sent fun _ => setStage s r .over
  | .take r => s.onRequest r .sent fun q => take s r q
  | .post r ok =>
    s.onRequest r .handling fun q =>
      if s.handlerBusy q.target then s
      else if ok then setStage { s with posted := s.posted ++ [r] } r .posted
      else setStage s r (.replied .busy)
  | .run r =>
    match s.requests[r]? with
    | some q => if r ∈ s.posted ∧ s.pcOf q.target = some (.primary .running) then runClosure s r q else s
    | none => s
  | .discard r => { s with posted := s.posted.erase r }
  | .giveUp r => s.onRequest r .posted fun _ => setStage s r (.replied .busy)
  | .finish r => s.onRequest r .ran fun _ => setStage s r (.replied .ok)
  | .answer r reply =>
    s.onRequest r (.replied reply) fun q =>
      s.onLaunch q.launch (.waiting r)
        (setPc (setStage s r .over) q.launch (if reply = .ok then .forwarded else .again))
  | .noAnswer i r => s.onLaunch i (.waiting r) (setPc s i .again)
  | .retry i expired => s.onLaunch i .again (setPc s i (if expired then .unresponsive else .trying))
  | .ready i => s.onLaunch i (.primary .starting) (ready s i)
  | .closing i state => s.onLaunch i (.primary state) (closing s i)
  | .release i =>
    s.onLaunch i (.primary .closing) (if s.holder = some i then { s with port := none, holder := none } else s)

end EspectralClient.SingleInstance
