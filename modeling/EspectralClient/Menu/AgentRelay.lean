/-
Tool calls in the game (`branding-mod/.../agent/AgentRelay.java`, `dispatch` of `AgentTools.java`).

The relay thread takes the commands of its poll replies one after another: it dispatches one, waits for its result no longer
than the command's budget, and posts what came of it. Some tools answer from the relay thread; the others are tasks for the
client thread, queued at the dispatch, which runs them in order whenever it gets to them. What a tool does and answers, and
when the client thread comes to a task, is what each step finds.

- `step`: the relay's steps, the client thread's and the passing of time; the log records starts of tools and results.
- `Kept`, `NoLateStart`: what is promised of the log.
- `Prompt`: what the client thread has to do for it.

The interrupt at the end of the process is left out.
-/
import Mathlib.Tactic

namespace EspectralClient.Menu.AgentRelay

/-! ## Model -/

/-- a command of a poll reply, as its fields are read: what has another type counts as missing -/
structure Command where
  id : Option String
  tool : Option String
  timeoutMs : Option ℤ
deriving DecidableEq, Repr

variable {J : Type}

/-- how a tool's future completes; `J` are JSON objects -/
inductive Answer (J : Type) where
  | data (j : J)
  /-- an `AgentException` -/
  | refused (code message : String)
  /-- any other cause -/
  | failed (cause : String)
deriving DecidableEq, Repr

/-- the body of a result -/
structure Result (J : Type) where
  id : String
  ok : Bool
  data : Option J
  /-- its code and message -/
  error : Option (String × String)
deriving DecidableEq, Repr

/-- a command that was dispatched: its place among the commands, and what it asked for -/
structure Call where
  index : ℕ
  id : String
  tool : String
  /-- how long the relay waits for it -/
  budget : ℕ
deriving DecidableEq, Repr

structure Task where
  call : Call
  queuedAt : ℕ
deriving DecidableEq, Repr

inductive Relay (J : Type) where
  | idle
  | waiting (c : Call) (since : ℕ)
  | posting (c : Call) (r : Result J)
deriving DecidableEq, Repr

inductive Obs (J : Type) where
  | started (onClient : Bool) (index : ℕ)
  | posted (index : ℕ) (r : Result J)
deriving DecidableEq, Repr

structure St (J : Type) where
  /-- in milliseconds -/
  now : ℕ
  /-- how many commands the relay has taken -/
  next : ℕ
  relay : Relay J
  queue : List Task
  /-- the futures that are complete -/
  answers : ℕ → Option (Answer J)
  log : List (Obs J)

def init : St J := ⟨0, 0, .idle, [], fun _ => none, []⟩

/-- what a dispatch finds: whether there is a client and whether it renders a clip, and for a tool of the relay thread
what it answers or throws -/
structure Found (J : Type) where
  client : Bool
  busy : Bool
  answer : Option (Answer J)
  thrown : Option String
deriving DecidableEq, Repr

inductive Event (J : Type) where
  | tick (ms : ℕ)
  | dispatch (f : Found J)
  /-- the wait ends with the future's result -/
  | answer
  /-- the wait ends without one -/
  | giveUp
  | post
  /-- the client thread takes its next task; a tool that needs later frames answers later -/
  | drain (a : Option (Answer J))
  | complete (index : ℕ) (a : Answer J)
deriving DecidableEq, Repr

def defaultTimeoutMs : ℤ := 30000

def budgetOf (timeoutMs : Option ℤ) : ℕ := (max 1000 (timeoutMs.getD defaultTimeoutMs)).toNat

def postOk (id : String) (j : J) : Result J := ⟨id, true, some j, none⟩

def postError (id code message : String) : Result J := ⟨id, false, none, some (code, message)⟩

def notRun (tool : String) : String := "the client did not run '" ++ tool ++ "' in time"

def clipRendering : String := "a clip is rendering; follow it with clip_status, other tools wait until it is done"

def resultOf (id : String) : Answer J → Result J
  | .data j => postOk id j
  | .refused code message => postError id code message
  | .failed cause => postError id "FAILED" cause

def settle (answers : ℕ → Option (Answer J)) (i : ℕ) (a : Option (Answer J)) (k : ℕ) : Option (Answer J) :=
  if k = i ∧ (answers i).isNone then a else answers k

def Obs.starts (i : ℕ) : Obs J → Bool
  | .started _ k => k = i
  | .posted _ _ => false

/-- the tool runs on the relay thread -/
def onRelay (s : St J) (c : Call) (a : Option (Answer J)) : St J :=
  { s with
    next := s.next + 1
    relay := .waiting c s.now
    answers := settle s.answers c.index a
    log := s.log ++ [.started false c.index] }

/-- the call ends before a tool starts -/
def refuse (s : St J) (c : Call) (code message : String) : St J :=
  { s with
    next := s.next + 1
    relay := .waiting c s.now
    answers := settle s.answers c.index (some (.refused code message)) }

/-- a tool of the relay thread: what it throws is posted at once -/
def runHere (s : St J) (f : Found J) (c : Call) : St J :=
  match f.thrown with
  | none => onRelay s c f.answer
  | some text => { onRelay s c none with relay := .posting c (postError c.id "FAILED" text) }

/-- `AgentTools.dispatch` -/
def dispatch (s : St J) (f : Found J) (c : Call) : St J :=
  if c.tool = "clip_status" ∨ c.tool = "replays" then runHere s f c
  else if f.busy then refuse s c "BUSY" clipRendering
  else if c.tool = "screenshot" then runHere s f c
  else if f.client then
    { s with next := s.next + 1, relay := .waiting c s.now, queue := s.queue ++ [⟨c, s.now⟩] }
  else if c.tool = "shaders" ∨ c.tool = "record_stop" then refuse s c "FAILED" "no client"
  else onRelay s c (some (.refused "FAILED" "no client"))

/-- `handleCommand` up to the wait; a malformed command is dropped -/
def handleCommand (s : St J) (f : Found J) (c : Command) : St J :=
  match c.id, c.tool with
  | some id, some tool => dispatch s f ⟨s.next, id, tool, budgetOf c.timeoutMs⟩
  | _, _ => { s with next := s.next + 1 }

def step (commands : List Command) (s : St J) : Event J → St J
  | .tick ms => { s with now := s.now + ms }
  | .dispatch f =>
    match s.relay, commands[s.next]? with
    | .idle, some c => handleCommand s f c
    | _, _ => s
  | .answer =>
    match s.relay with
    | .waiting c _ =>
      match s.answers c.index with
      | some a => { s with relay := .posting c (resultOf c.id a) }
      | none => s
    | _ => s
  | .giveUp =>
    match s.relay with
    | .waiting c since =>
      if (s.answers c.index).isNone ∧ since + c.budget ≤ s.now then
        { s with relay := .posting c (postError c.id "BUSY" (notRun c.tool)) }
      else s
    | _ => s
  | .post =>
    match s.relay with
    | .posting c r => { s with relay := .idle, log := s.log ++ [.posted c.index r] }
    | _ => s
  | .drain a =>
    match s.queue with
    | t :: rest =>
      { s with
        queue := rest
        answers := settle s.answers t.call.index a
        log := s.log ++ [.started true t.call.index] }
    | [] => s
  | .complete i a => if s.log.any (Obs.starts i) then { s with answers := settle s.answers i (some a) } else s

/-! ## What is promised -/

/-- the commands whose tool started -/
def starts (s : St J) : List ℕ := s.log.filterMap fun
  | .started _ i => some i
  | .posted _ _ => none

/-- those that started on the client thread -/
def clientStarts (s : St J) : List ℕ := s.log.filterMap fun
  | .started true i => some i
  | _ => none

/-- the commands that have a result, and its id -/
def posts (s : St J) : List (ℕ × String) := s.log.filterMap fun
  | .posted i r => some (i, r.id)
  | .started _ _ => none

/-- the call that the relay is at -/
def Relay.call : Relay J → Option Call
  | .idle => none
  | .waiting c _ => some c
  | .posting c _ => some c

/-- how many commands the relay is through with -/
def finished (s : St J) : ℕ :=
  match s.relay.call with
  | none => s.next
  | some c => c.index

/-- a command that is not dropped -/
def wellFormedAt (commands : List Command) (i : ℕ) : Option (ℕ × String) :=
  (commands[i]?).bind fun c => if c.tool.isSome then c.id.map fun id => (i, id) else none

/-- the well-formed ones among the first `n` commands, with their ids -/
def wellFormed (commands : List Command) (n : ℕ) : List (ℕ × String) :=
  (List.range n).filterMap (wellFormedAt commands)

structure Kept (commands : List Command) (s : St J) : Prop where
  once : (starts s).Nodup
  in_order : (clientStarts s).Pairwise (· < ·)
  one_result : posts s = wellFormed commands (finished s)

/-- the tool of a command whose result is `BUSY`, not run in time, does not start after it -/
def NotLate (before after : Obs J) : Prop :=
  ∀ i r onClient tool, before = .posted i r → r.error = some ("BUSY", notRun tool) → after ≠ .started onClient i

def NoLateStart (s : St J) : Prop := s.log.Pairwise NotLate

/-- the client thread takes every task before the wait for it is over -/
def Prompt (s : St J) : Event J → Prop
  | .tick ms => ∀ t ∈ s.queue, s.now + ms < t.queuedAt + t.call.budget
  | _ => True

end EspectralClient.Menu.AgentRelay
