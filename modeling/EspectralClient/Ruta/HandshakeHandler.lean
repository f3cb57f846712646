/-
The handler that stands first on a relayed connection's pipeline (`branding-mod/.../ruta/RutaHandshakeHandler.java`):
it writes the handshake line, holds back what the game writes, and reads the relay's one reply line.

The handler runs on one event loop: `step` is one call into it, and `out` is what it did to its neighbours in the
pipeline, to the promises and to the sink, in order. `wire` is what reached the open channel behind it. An exception it
throws is Netty's to handle: the handler is taken out again when it was being added, and is told of it otherwise. The
text that goes with a code is left out.

- `step`: the handler's entry points.
- `channelRead_line`: a buffer that ends the reply line.
- `reply_any_chunking`: however the reply line is split into buffers, the handler tells its outcome once.
-/
import EspectralClient.Lib.Run
import EspectralClient.Ruta.Protocol

namespace EspectralClient.RutaHandshake

open EspectralClient.Lib EspectralClient.Lib.JavaString EspectralClient.RutaProtocol

/-! ## Model -/

/-- a message of the game with its promise -/
structure Pending (μ : Type) where
  message : μ
  promise : ℕ
deriving DecidableEq, Repr

inductive Effect (μ : Type) where
  /-- the handshake line, written and flushed -/
  | sent (bytes : List UInt8)
  | write (item : Pending μ)
  | flush
  | failed (promise : ℕ) (code : JavaString)
  | reported (code : JavaString)
  | removed
  | close
  /-- an inbound event passed on to the game's handlers -/
  | read (bytes : List UInt8)
  | active
  | inactive
  | exception
deriving DecidableEq, Repr

/-- what the channel sends -/
inductive Wire (μ : Type) where
  | line (bytes : List UInt8)
  | message (item : Pending μ)
deriving DecidableEq, Repr

/-- the destination and the grant of one connection; a null grant or address is `none` -/
structure RutaTarget where
  destIp : Option JavaString
  destPort : ℤ
  grant : Option JavaString
deriving DecidableEq, Repr

namespace RutaTarget

def handshakeLine (t : RutaTarget) : Except String JavaString := RutaProtocol.handshakeLine t.grant t.destIp t.destPort

end RutaTarget

structure St (μ : Type) where
  target : RutaTarget
  isOpen : Bool
  /-- the channel is active or has been -/
  wasActive : Bool
  /-- the handler is in the pipeline -/
  present : Bool
  waiting : Bool
  lineSent : Bool
  /-- the timeout is scheduled -/
  timeout : Bool
  reply : JavaString
  pending : List (Pending μ)
  out : List (Effect μ)
  wire : List (Wire μ)
deriving DecidableEq, Repr

inductive Event (μ : Type) where
  | channelActive
  | write (item : Pending μ)
  | flush
  | channelRead (bytes : List UInt8)
  | timeout
  | exceptionCaught
  | channelInactive
deriving DecidableEq, Repr

variable {μ : Type}

def init (target : RutaTarget) : St μ := ⟨target, true, false, true, true, false, false, [], [], [], []⟩

def emit (s : St μ) (e : Effect μ) : St μ := { s with out := s.out ++ [e] }

/-- the head of the pipeline sends on an open channel and refuses on a closed one -/
def send (s : St μ) (x : List (Wire μ)) : List (Wire μ) := if s.isOpen then s.wire ++ x else s.wire

/-- `ctx.write` -/
def ctxWrite (s : St μ) (item : Pending μ) : St μ :=
  { s with out := s.out ++ [.write item], wire := send s [.message item] }

/-- the state, and whether `handshakeLine` threw -/
def sendLine (s : St μ) : St μ × Bool :=
  if s.lineSent then (s, false)
  else
    match s.target.handshakeLine with
    | .ok line =>
      ({ s with
        lineSent := true
        out := s.out ++ [.sent (usAscii line)]
        wire := send s [.line (usAscii line)] }, false)
    | .error _ => ({ s with lineSent := true }, true)

def fail (s : St μ) (code : JavaString) : St μ :=
  if s.waiting then
    { s with
      waiting := false, timeout := false, pending := [], isOpen := false
      out := s.out ++ s.pending.map (fun item => .failed item.promise code) ++ [.reported code] ++
        if s.isOpen then [.close] else [] }
  else s

/-- the reply line is complete; the handler is still in the pipeline, since it is reading -/
def answer (s : St μ) : St μ :=
  match parseReply s.reply with
  | .err code => fail s code
  | .ok =>
    { s with
      waiting := false, timeout := false, pending := [], present := false
      out := s.out ++ s.pending.map .write ++ [.flush, .removed]
      wire := send s (s.pending.map .message) }

/-- the read loop while waiting: the state, and the bytes that followed the reply line -/
def readBytes (s : St μ) : List UInt8 → St μ × List UInt8
  | [] => (s, [])
  | b :: buf =>
    if b = Proto.newline then (answer { s with reply := s.reply.dropWhile (· = cr) }, buf)
    else if maxReplyBytes ≤ s.reply.length then (fail s (ofString "proto"), [])
    else readBytes { s with reply := s.reply ++ [b.toUInt16] } buf

def channelRead (s : St μ) (bytes : List UInt8) : St μ :=
  if s.waiting then
    let (s, leftover) := readBytes s bytes
    -- from the head of the pipeline: the handler, if it is still there, has stopped waiting and passes them on
    if leftover = [] then s else emit s (.read leftover)
  else emit s (.read bytes)

def exceptionCaught (s : St μ) : St μ := if s.waiting then fail s (ofString "unreachable") else emit s .exception

def channelActive (s : St μ) : St μ :=
  let (s, threw) := sendLine { s with wasActive := true }
  if threw then exceptionCaught s else emit s .active

def step (s : St μ) : Event μ → St μ
  | .channelActive => channelActive s
  | .write item => if s.waiting then { s with pending := s.pending ++ [item] } else ctxWrite s item
  | .flush => if s.waiting then s else emit s .flush
  | .channelRead bytes => channelRead s bytes
  | .timeout => if s.timeout then fail s (ofString "timeout") else s
  | .exceptionCaught => exceptionCaught s
  | .channelInactive =>
    let s := { s with isOpen := false }
    if s.waiting then fail s (ofString "unreachable") else emit s .inactive

/-- the handler is added to a channel that is active, or not yet -/
def handlerAdded (s : St μ) (isActive : Bool) : St μ :=
  let s := { s with timeout := true, wasActive := isActive }
  if isActive then
    let (s, threw) := sendLine s
    if threw then { s with timeout := false, present := false, out := s.out ++ [.exception] } else s
  else s

/-- the pipeline without the handler -/
def bare (s : St μ) : Event μ → St μ
  | .channelActive => emit { s with wasActive := true } .active
  | .write item => ctxWrite s item
  | .flush => emit s .flush
  | .channelRead bytes => emit s (.read bytes)
  | .timeout => s
  | .exceptionCaught => emit s .exception
  | .channelInactive => emit { s with isOpen := false } .inactive

/-- an event on the event loop: the handler takes it while it is in the pipeline -/
def deliver (s : St μ) (e : Event μ) : St μ := if s.present then step s e else bare s e

/-- what the handler tells: it stepped aside for the game, or the code the sink was given -/
def told (out : List (Effect μ)) : List Reply :=
  out.filterMap fun e =>
    match e with
    | .removed => some .ok
    | .reported code => some (.err code)
    | _ => none

/-! ## Outcomes -/

theorem told_append (a b : List (Effect μ)) : told (a ++ b) = told a ++ told b := List.filterMap_append

@[simp] theorem told_failed (items : List (Pending μ)) (code : JavaString) :
    told (items.map fun item => (.failed item.promise code : Effect μ)) = [] := by
  simp [told]

@[simp] theorem told_write (items : List (Pending μ)) : told (items.map Effect.write) = [] := by
  simp [told]

theorem told_fail (s : St μ) (code : JavaString) (h : s.waiting) :
    told (fail s code).out = told s.out ++ [.err code] := by
  rw [fail, if_pos h]
  dsimp only
  rw [told_append, told_append, told_append, told_failed]
  split_ifs <;> simp [told]

theorem fail_waiting (s : St μ) (code : JavaString) : (fail s code).waiting = false := by
  by_cases h : s.waiting
  · rw [fail, if_pos h]
  · rw [fail, if_neg h]
    exact Bool.eq_false_iff.2 h

theorem told_answer (s : St μ) (h : s.waiting) : told (answer s).out = told s.out ++ [parseReply s.reply] := by
  unfold answer
  cases hp : parseReply s.reply with
  | err code => exact told_fail s code h
  | ok =>
    dsimp only
    rw [told_append, told_append, told_write]
    simp [told]

theorem answer_waiting (s : St μ) : (answer s).waiting = false := by
  unfold answer
  cases parseReply s.reply with
  | err code => exact fail_waiting s code
  | ok => rfl

/-- once it has answered, the handler tells nothing more of what it reads -/
theorem channelRead_answered (s : St μ) (h : s.waiting = false) (bytes : List UInt8) :
    (channelRead s bytes).waiting = false ∧ told (channelRead s bytes).out = told s.out := by
  rw [channelRead, h]
  refine ⟨h, ?_⟩
  simp [emit, told]

/-! ## The reply line, in pieces -/

/-- bytes of the line only grow the reply -/
theorem readBytes_part (s : St μ) (part : List UInt8) (hline : Proto.newline ∉ part)
    (hlen : s.reply.length + part.length ≤ maxReplyBytes) :
    readBytes s part = ({ s with reply := s.reply ++ ofBytes part }, []) := by
  induction part generalizing s with
  | nil => simp [readBytes, ofBytes]
  | cons b part ih =>
    rw [List.mem_cons, not_or] at hline
    rw [List.length_cons] at hlen
    rw [readBytes, if_neg (Ne.symm hline.1), if_neg (by omega), ih _ hline.2 (by simp; omega)]
    simp [ofBytes]

theorem readBytes_line (s : St μ) (part rest : List UInt8) (hline : Proto.newline ∉ part)
    (hlen : s.reply.length + part.length ≤ maxReplyBytes) :
    readBytes s (part ++ Proto.newline :: rest) =
      (answer { s with reply := (s.reply ++ ofBytes part).dropWhile (· = cr) }, rest) := by
  induction part generalizing s with
  | nil => simp [readBytes, ofBytes]
  | cons b part ih =>
    rw [List.mem_cons, not_or] at hline
    rw [List.length_cons] at hlen
    rw [List.cons_append, readBytes, if_neg (Ne.symm hline.1), if_neg (by omega), ih _ hline.2 (by simp; omega)]
    simp [ofBytes]

/-- a buffer that ends the reply line makes the handler tell the reply -/
theorem channelRead_line (s : St μ) (h : s.waiting) (part rest : List UInt8) (hline : Proto.newline ∉ part)
    (hlen : s.reply.length + part.length ≤ maxReplyBytes) :
    (channelRead s (part ++ Proto.newline :: rest)).waiting = false ∧
      told (channelRead s (part ++ Proto.newline :: rest)).out =
        told s.out ++ [parseReply ((s.reply ++ ofBytes part).dropWhile (· = cr))] := by
  have hanswer := told_answer { s with reply := (s.reply ++ ofBytes part).dropWhile (· = cr) } h
  rw [channelRead, if_pos h, readBytes_line s part rest hline hlen]
  dsimp only
  split_ifs
  · exact ⟨answer_waiting _, hanswer⟩
  · refine ⟨answer_waiting _, ?_⟩
    rw [emit, told_append, hanswer]
    simp [told]

/-- reading on after the answer -/
theorem run_answered (chunks : List (List UInt8)) (s : St μ) (h : s.waiting = false) :
    told (run step s (chunks.map .channelRead)).out = told s.out := by
  induction chunks generalizing s with
  | nil => rfl
  | cons c chunks ih =>
    obtain ⟨hwaiting, htold⟩ := channelRead_answered s h c
    rw [← htold]
    exact ih _ hwaiting

/-- **Any chunking of the reply.** A waiting handler that is fed a reply line within its cap, in buffers cut anywhere and
followed by anything, tells what the line says and tells it once. -/
theorem reply_any_chunking (chunks : List (List UInt8)) (s : St μ) (h : s.waiting) (text more : List UInt8)
    (hchunks : chunks.flatten = text ++ Proto.newline :: more) (hline : Proto.newline ∉ text)
    (hlen : s.reply.length + text.length ≤ maxReplyBytes) :
    told (run step s (chunks.map .channelRead)).out =
      told s.out ++ [parseReply ((s.reply ++ ofBytes text).dropWhile (· = cr))] := by
  induction chunks generalizing s text with
  | nil => simp at hchunks
  | cons c chunks ih =>
    rw [List.flatten_cons] at hchunks
    rcases List.append_eq_append_iff.1 hchunks with ⟨rest, htext, hrest⟩ | ⟨part, hc, hpart⟩
    · -- the whole buffer is part of the line
      rw [htext, List.mem_append, not_or] at hline
      rw [htext, List.length_append] at hlen
      have hread : step s (.channelRead c) = { s with reply := s.reply ++ ofBytes c } := by
        rw [step, channelRead, if_pos h, readBytes_part s c hline.1 (by omega)]
        rfl
      have hfed := ih { s with reply := s.reply ++ ofBytes c } h rest hrest hline.2 (by simp [ofBytes]; omega)
      rw [htext]
      simp only [List.map_cons, run, List.foldl_cons, hread]
      simpa [ofBytes, run] using hfed
    · cases part with
      | nil =>
        -- the buffer ends right before the newline
        rw [List.append_nil] at hc
        rw [List.nil_append] at hpart
        have hread : step s (.channelRead c) = { s with reply := s.reply ++ ofBytes c } := by
          rw [step, channelRead, if_pos h, readBytes_part s c (hc ▸ hline) (hc ▸ hlen)]
          rfl
        have hfed := ih { s with reply := s.reply ++ ofBytes c } h [] hpart.symm List.not_mem_nil
          (by simp [ofBytes, hc]; exact hlen)
        simp only [List.map_cons, run, List.foldl_cons, hread]
        simpa [ofBytes, run, hc] using hfed
      | cons b part =>
        rw [List.cons_append, List.cons.injEq] at hpart
        obtain ⟨rfl, -⟩ := hpart
        obtain ⟨hwaiting, htold⟩ := channelRead_line s h text part hline hlen
        rw [← hc] at hwaiting htold
        rw [List.map_cons, run, List.foldl_cons, ← htold]
        exact run_answered chunks _ hwaiting

end EspectralClient.RutaHandshake
