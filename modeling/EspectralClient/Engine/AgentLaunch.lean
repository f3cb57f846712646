/-
One agent launch (`native/engine/src/agent.rs`): callers queue commands for the mod of a running game (`call_tool`), the
mod takes them with long polls (`await_commands`) and posts results (`complete_command`), and the end of the game
releases everything (`release_launch`).

Commands sit in the queue of the launch or, once handed over, in the slot of the poll that gets them; the queue is under
the launch lock and each slot under a lock of its own. The model has one definition for each locked section, on the part
they share (`Core`: the launch's record and the poll waiters, by poll number), and a machine `step` whose operations are
the atomic steps of any number of callers, polls and a release. A caller's or poll's number stands for the thread and for
what it owns: the receiving end of a call, the waiter of a poll.

The history fields of `St` say what was accepted, returned, abandoned, cleared and given up, and nothing reads them but
the history itself.
-/
import Mathlib.Data.Nat.Digits.Defs
import EspectralClient.Lib.Run
import EspectralClient.Engine.Json

namespace EspectralClient.AgentLaunch

open EspectralClient.Lib

/-! ## Model -/

/-- commands queued for a game that stopped polling are bounded -/
def maxQueue : ℕ := 100

def maxCallTimeoutS : ℕ := 300

structure EngineError where
  status : ℕ
  code : String
  message : String
deriving DecidableEq, Repr

/-- one queued mod command; the mod correlates by `id` -/
structure AgentCommand where
  id : String
  tool : String
  args : Json
  timeoutMs : ℕ
deriving Repr

/-- a parked mod poll: the batch handed to it, and whether it was notified -/
structure PollWaiter where
  slot : Option (List AgentCommand)
  notified : Bool
deriving Repr

def PollWaiter.default : PollWaiter := ⟨none, false⟩

/-- hands the batch over; a waiter that holds one already gives it back untouched -/
def PollWaiter.deliver (w : PollWaiter) (batch : List AgentCommand) : PollWaiter × Option (List AgentCommand) :=
  match w.slot with
  | some _ => (w, some batch)
  | none => (⟨some batch, true⟩, none)

def PollWaiter.take (w : PollWaiter) : PollWaiter × List AgentCommand := ({ w with slot := none }, w.slot.getD [])

/-- an unanswered call; `tx` is the caller at the other end -/
structure Inflight where
  tool : String
  tx : ℕ
deriving DecidableEq, Repr

structure LaunchInner where
  queue : List AgentCommand
  /-- parked polls, oldest first -/
  waiters : List ℕ
  inflight : IndexMap String Inflight
deriving Repr

/-- where a poll stands in `await_commands` -/
inductive PollStage where
  /-- it saw the launch running -/
  | checked
  /-- its waiter is in the list, and it awaits the notification or its timeout -/
  | parked
  /-- it has taken its slot and still holds its guard -/
  | closing
  /-- it returned or was dropped -/
  | finished
deriving DecidableEq, Repr

structure Poll where
  stage : PollStage
  waiter : PollWaiter
deriving Repr

/-- what the launch lock guards, and the waiters -/
structure Core where
  inner : LaunchInner
  polls : IndexMap ℕ Poll
deriving Repr

def deliverTo (polls : IndexMap ℕ Poll) (p : ℕ) (batch : List AgentCommand) :
    IndexMap ℕ Poll × Option (List AgentCommand) :=
  match polls.get? p with
  | none => (polls, some batch)
  | some poll =>
    let (waiter, back) := poll.waiter.deliver batch
    (polls.insert p { poll with waiter }, back)

/-- the loop of `release_pollers_locked`: exactly one waiter gets the whole queue -/
def releaseLoop (queue : List AgentCommand) :
    List ℕ → IndexMap ℕ Poll → List AgentCommand × List ℕ × IndexMap ℕ Poll
  | [], polls => (queue, [], polls)
  | w :: ws, polls =>
    if queue.isEmpty then (queue, w :: ws, polls)
    else
      match deliverTo polls w queue with
      -- a waiter that already holds a batch: keep the commands and try the next one
      | (polls, some back) => releaseLoop back ws polls
      | (polls, none) => ([], ws, polls)

def Core.releasePollersLocked (c : Core) : Core :=
  let (queue, waiters, polls) := releaseLoop c.inner.queue c.inner.waiters c.polls
  ⟨{ c.inner with queue, waiters }, polls⟩

/-- `Drop for PollGuard`: a dropped poll never swallows commands -/
def Core.guardDrop (c : Core) (p : ℕ) : Core :=
  match c.polls.get? p with
  | none => c
  | some poll =>
    let inner := { c.inner with waiters := c.inner.waiters.filter (· ≠ p) }
    let (waiter, leftovers) := poll.waiter.take
    let polls := c.polls.insert p { poll with waiter }
    if leftovers.isEmpty then ⟨inner, polls⟩
    else Core.releasePollersLocked ⟨{ inner with queue := leftovers ++ inner.queue }, polls⟩

/-- a poll ends and its guard is dropped -/
def Core.finish (c : Core) (p : ℕ) (waiter : PollWaiter) : Core :=
  { c with polls := c.polls.insert p ⟨.finished, waiter⟩ }.guardDrop p

/-- the locked section of `await_commands`: the queue at once, or a place among the waiters -/
def Core.enterLocked (c : Core) (p : ℕ) : Core × Option (List AgentCommand) :=
  if c.inner.queue.isEmpty then ({ c with inner := { c.inner with waiters := c.inner.waiters ++ [p] } }, none)
  else ({ c with inner := { c.inner with queue := [] } }, some c.inner.queue)

/-- the locked section of `call_tool` -/
def Core.callLocked (c : Core) (caller : ℕ) (command : AgentCommand) : Except EngineError Core :=
  if maxQueue ≤ c.inner.queue.length then
    .error ⟨429, "QUEUE_FULL", "too many commands queued for this launch (is the mod polling?)"⟩
  else
    .ok (Core.releasePollersLocked
      { c with inner := { c.inner with
          inflight := c.inner.inflight.insert command.id ⟨command.tool, caller⟩
          queue := c.inner.queue ++ [command] } })

/-- drops an in-flight call and the first queued copy of its command -/
def LaunchInner.abandon (i : LaunchInner) (id : String) : LaunchInner :=
  { i with inflight := i.inflight.remove id, queue := i.queue.eraseP (·.id = id) }

/-- the locked section of `release_launch_with`: the waiters get an empty reply -/
def Core.releaseLocked (c : Core) : Core :=
  ⟨{ queue := [], waiters := [], inflight := .empty },
    c.inner.waiters.foldl (fun polls w => (deliverTo polls w []).1) c.polls⟩

def base36Digit (d : ℕ) : Char := "0123456789abcdefghijklmnopqrstuvwxyz".toList.getD d '0'

def base36 (n : ℕ) : String := if n = 0 then "0" else String.ofList ((Nat.digits 36 n).reverse.map base36Digit)

/-- `format!("c{}{}", base36(now_ms().max(0)), base36(seq))` -/
def commandId (nowMs : ℤ) (seq : ℕ) : String := "c" ++ base36 nowMs.toNat ++ base36 seq

def isUpperSnake (code : String) : Bool :=
  match code.toList with
  | [] => false
  | c :: cs => c.isUpper && (c :: cs).all fun c => c.isUpper || c.isDigit || c = '_'

/-- how a call ends for its caller -/
inductive Outcome where
  /-- what the mod posted -/
  | mod (answer : Except EngineError Json)
  | released (error : EngineError)
  /-- the sending end was dropped unanswered -/
  | senderDropped
deriving Repr

/-- what `complete_command` sends for the mod's result payload -/
def modAnswer (tool : String) (ok : Bool) (data error : Option Json) : Except EngineError Json :=
  if ok then
    .ok (match data with
      | none | some .null => .obj []
      | some d => d)
  else
    let field (name : String) := match error with
      | some (.obj fields) => (Assoc.get? name fields).bind Json.asStr
      | _ => none
    .error ⟨502, ((field "code").filter isUpperSnake).getD "FAILED", (field "message").getD ("'" ++ tool ++ "' failed")⟩

/-- where a caller stands in `call_tool` and then with its `PendingCall` -/
inductive CallStage where
  /-- it found the launch -/
  | looked
  /-- it saw the launch running, and the tool is named -/
  | checked
  | minted (command : AgentCommand)
  | refused (error : EngineError)
  | pending (command : AgentCommand)
  /-- the outcome was sent and `wait` has not returned it yet -/
  | settled (command : AgentCommand) (outcome : Outcome)
  | received (command : AgentCommand) (outcome : Outcome)
  /-- timed out or dropped -/
  | gaveUp (command : AgentCommand)
deriving Repr

structure Call where
  tool : String
  args : Option Json
  timeoutMs : ℕ
  stage : CallStage
deriving Repr

/-- the entry of the launch's key in the registry -/
inductive Registry where
  | here
  | absent
  /-- registered again after a release, as a new launch -/
  | other
deriving DecidableEq, Repr

inductive ReleaseStage where
  | idle | removed | stopped | done
deriving DecidableEq, Repr

structure St where
  key : String
  registry : Registry
  /-- the numbers given to commands, of all launches -/
  seq : ℕ
  agent : Bool
  running : Bool
  release : ReleaseStage
  core : Core
  calls : IndexMap ℕ Call
  /-- history: what `call_tool` accepted, in order -/
  accepted : List AgentCommand
  /-- history: what each `await_commands` returned, in order -/
  returned : List (ℕ × List AgentCommand)
  /-- history: what `abandon` and a release took out of the queue -/
  abandoned : List AgentCommand
  cleared : List AgentCommand
  /-- history: ids given up before any poll had returned them, and commands returned all the same -/
  givenUp : List String
  late : List AgentCommand
deriving Repr

/-- a launch that was just registered -/
def start (key : String) : St :=
  ⟨key, .here, 0, true, true, .idle, ⟨⟨[], [], .empty⟩, .empty⟩, .empty, [], [], [], [], [], []⟩

def gameGone : EngineError := ⟨502, "GAME_GONE", "the game is no longer running"⟩

/-- the sending end of a call is used or dropped; a caller that gave up hears nothing -/
def settle (calls : IndexMap ℕ Call) (caller : ℕ) (outcome : Outcome) : IndexMap ℕ Call :=
  match calls.get? caller with
  | some ⟨tool, args, timeoutMs, .pending command⟩ =>
    calls.insert caller ⟨tool, args, timeoutMs, .settled command outcome⟩
  | _ => calls

/-- an in-flight entry is dropped with its sending end -/
def dropSender (calls : IndexMap ℕ Call) : Option Inflight → IndexMap ℕ Call
  | none => calls
  | some old => settle calls old.tx .senderDropped

def returnedCommands (s : St) : List AgentCommand := s.returned.flatMap Prod.snd

/-- a poll returns a batch -/
def St.give (s : St) (p : ℕ) (batch : List AgentCommand) : St :=
  { s with returned := s.returned ++ [(p, batch)], late := s.late ++ batch.filter fun c => c.id ∈ s.givenUp }

inductive Op where
  | register
  /-- `call_tool`: the registry lookup -/
  | callStart (k : ℕ) (tool : String) (args : Option Json) (timeoutMs : ℕ)
  /-- its checks, with the load of `running` -/
  | callCheck (k : ℕ)
  /-- `next_command_id` -/
  | mint (k : ℕ) (nowMs : ℤ)
  /-- a call to another launch takes the next number -/
  | mintOther
  /-- its locked section -/
  | enqueue (k : ℕ)
  /-- `PendingCall::wait` returns what was sent -/
  | receive (k : ℕ)
  /-- the `PendingCall` times out or is dropped -/
  | giveUp (k : ℕ)
  | complete (id : String) (ok : Bool) (data error : Option Json)
  /-- `await_commands`: the load of `running` -/
  | pollCheck (p : ℕ)
  /-- its locked section -/
  | pollEnter (p : ℕ)
  /-- woken or timed out, it takes what landed and returns it -/
  | take (p : ℕ)
  /-- its guard is dropped after the take -/
  | close (p : ℕ)
  /-- the future is dropped while parked -/
  | cancel (p : ℕ)
  | releaseRemove
  | releaseStore
  | releaseLock (code message : String)
deriving Repr

def step (s : St) : Op → St
  | .register =>
    match s.registry with
    | .here => { s with running := true }
    | _ => { s with registry := .other }
  | .callStart k tool args timeoutMs =>
    match s.calls.get? k, s.registry with
    | none, .here => { s with calls := s.calls.insert k ⟨tool, args, timeoutMs, .looked⟩ }
    | none, .absent =>
      let stage : CallStage := .refused ⟨404, "NO_LAUNCH", "unknown launch key: " ++ s.key⟩
      { s with calls := s.calls.insert k ⟨tool, args, timeoutMs, stage⟩ }
    | _, _ => s
  | .callCheck k =>
    match s.calls.get? k with
    | some ⟨tool, args, timeoutMs, .looked⟩ =>
      let stage : CallStage :=
        if s.agent = false then
          .refused ⟨409, "NOT_AGENT_LAUNCH", "this launch was not started with agent: true"⟩
        else if s.running = false then .refused gameGone
        else if tool = "" then .refused ⟨400, "BAD_REQUEST", "tool is required"⟩
        else .checked
      { s with calls := s.calls.insert k ⟨tool, args, timeoutMs, stage⟩ }
    | _ => s
  | .mint k nowMs =>
    match s.calls.get? k with
    | some ⟨tool, args, timeoutMs, .checked⟩ =>
      let command : AgentCommand :=
        { id := commandId nowMs (s.seq + 1)
          tool
          args := match args with
            | some (.obj fields) => .obj fields
            | _ => .obj []
          timeoutMs := max 1000 (min timeoutMs (maxCallTimeoutS * 1000)) }
      { s with seq := s.seq + 1, calls := s.calls.insert k ⟨tool, args, timeoutMs, .minted command⟩ }
    | _ => s
  | .mintOther => { s with seq := s.seq + 1 }
  | .enqueue k =>
    match s.calls.get? k with
    | some ⟨tool, args, timeoutMs, .minted command⟩ =>
      match s.core.callLocked k command with
      | .error e => { s with calls := s.calls.insert k ⟨tool, args, timeoutMs, .refused e⟩ }
      | .ok core =>
        { s with
          core
          accepted := s.accepted ++ [command]
          -- an in-flight call of the same id is replaced
          calls := dropSender (s.calls.insert k ⟨tool, args, timeoutMs, .pending command⟩)
            (s.core.inner.inflight.get? command.id) }
    | _ => s
  | .receive k =>
    match s.calls.get? k with
    | some ⟨tool, args, timeoutMs, .settled command outcome⟩ =>
      { s with calls := s.calls.insert k ⟨tool, args, timeoutMs, .received command outcome⟩ }
    | _ => s
  | .giveUp k =>
    match s.calls.get? k with
    | some ⟨tool, args, timeoutMs, .pending command⟩
    | some ⟨tool, args, timeoutMs, .settled command _⟩ =>
      { s with
        core := { s.core with inner := s.core.inner.abandon command.id }
        calls := dropSender (s.calls.insert k ⟨tool, args, timeoutMs, .gaveUp command⟩)
          (s.core.inner.inflight.get? command.id)
        abandoned := s.abandoned ++ (s.core.inner.queue.find? (·.id = command.id)).toList
        givenUp := if (returnedCommands s).any (·.id = command.id) then s.givenUp else s.givenUp ++ [command.id] }
    | _ => s
  | .complete id ok data error =>
    match s.core.inner.inflight.get? id with
    | none => s
    | some inflight =>
      { s with
        core := { s.core with inner := { s.core.inner with inflight := s.core.inner.inflight.remove id } }
        calls := settle s.calls inflight.tx (.mod (modAnswer inflight.tool ok data error)) }
  | .pollCheck p =>
    match s.core.polls.get? p with
    | some _ => s
    | none =>
      if s.running then
        { s with core := { s.core with polls := s.core.polls.insert p ⟨.checked, .default⟩ } }
      else { s with core := { s.core with polls := s.core.polls.insert p ⟨.finished, .default⟩ } }.give p []
  | .pollEnter p =>
    match s.core.polls.get? p with
    | some ⟨.checked, waiter⟩ =>
      match s.core.enterLocked p with
      | (core, some batch) =>
        { s with core := { core with polls := core.polls.insert p ⟨.finished, waiter⟩ } }.give p batch
      | (core, none) => { s with core := { core with polls := core.polls.insert p ⟨.parked, waiter⟩ } }
    | _ => s
  | .take p =>
    match s.core.polls.get? p with
    | some ⟨.parked, waiter⟩ =>
      { s with core := { s.core with polls := s.core.polls.insert p ⟨.closing, waiter.take.1⟩ } }.give p waiter.take.2
    | _ => s
  | .close p =>
    match s.core.polls.get? p with
    | some ⟨.closing, waiter⟩ =>
      { s with core := s.core.finish p waiter }
    | _ => s
  | .cancel p =>
    match s.core.polls.get? p with
    | some ⟨.parked, waiter⟩ =>
      { s with core := s.core.finish p waiter }
    | _ => s
  | .releaseRemove =>
    match s.registry with
    | .here => { s with registry := .absent, release := .removed }
    -- the key is unknown, or names a new launch
    | _ => { s with registry := .absent }
  | .releaseStore =>
    match s.release with
    | .removed => { s with running := false, release := .stopped }
    | _ => s
  | .releaseLock code message =>
    match s.release with
    | .stopped =>
      { s with
        release := .done
        core := s.core.releaseLocked
        cleared := s.cleared ++ s.core.inner.queue
        calls := s.core.inner.inflight.values.foldl
          (fun calls inflight => settle calls inflight.tx (.released ⟨502, code, message⟩)) s.calls }
    | _ => s

end EspectralClient.AgentLaunch
