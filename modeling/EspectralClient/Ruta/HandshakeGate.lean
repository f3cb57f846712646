/-
The handshake handler as a gate between the game and the relay, over every run of one handler: the game's messages wait
until the relay said `OK` and then go out as they were written, and the game reads what followed that line and nothing
else.

What Netty does outside of this code is one assumption, `ReadsActive`: a channel is read from once it is active.

- `Phase`: waiting, stepped aside after `OK`, or failed, and what holds in each.
- `phase_step`: one event.
- `gate_holds`: every run in which nothing is read behind a failure; that this is what it takes is `leaks_after_error`,
  where the bytes behind an `ERR` line reach the game.
-/
import EspectralClient.Ruta.HandshakeHandler

namespace EspectralClient.RutaHandshake

open EspectralClient.Lib EspectralClient.Lib.JavaString EspectralClient.RutaProtocol

variable {μ : Type}

/-! ## What a run did -/

/-- the messages handed on to the channel -/
def written (out : List (Effect μ)) : List (Pending μ) :=
  out.filterMap fun e =>
    match e with
    | .write item => some item
    | _ => none

/-- the bytes handed on to the game -/
def passed (out : List (Effect μ)) : List UInt8 :=
  out.flatMap fun e =>
    match e with
    | .read bytes => bytes
    | _ => []

/-- the promises failed, each with its code -/
def failures (out : List (Effect μ)) : List (ℕ × JavaString) :=
  out.filterMap fun e =>
    match e with
    | .failed promise code => some (promise, code)
    | _ => none

/-- the messages that the channel sent -/
def messages (wire : List (Wire μ)) : List (Pending μ) :=
  wire.filterMap fun x =>
    match x with
    | .message item => some item
    | .line _ => none

/-- the messages the game wrote -/
def items (evs : List (Event μ)) : List (Pending μ) :=
  evs.filterMap fun e =>
    match e with
    | .write item => some item
    | _ => none

/-- the bytes the relay sent -/
def stream (evs : List (Event μ)) : List UInt8 :=
  evs.flatMap fun e =>
    match e with
    | .channelRead bytes => bytes
    | _ => []

/-- the handler when it has been added -/
def start (target : RutaTarget) (isActive : Bool) : St μ := handlerAdded (init target) isActive

/-- a line that the handler reads as `OK` -/
def OkLine (text : List UInt8) : Prop :=
  Proto.newline ∉ text ∧ text.length ≤ maxReplyBytes ∧ parseReply ((ofBytes text).dropWhile (· = cr)) = .ok

/-- the gate: what a run of one handler may have done -/
structure Gate (s₀ : St μ) (evs : List (Event μ)) : Prop where
  /-- the first bytes on the wire are the one handshake line -/
  line_first : (run deliver s₀ evs).wire = [] ∨ ∃ (line : JavaString) (sent : List (Pending μ)),
    s₀.target.handshakeLine = .ok line ∧ (run deliver s₀ evs).wire = .line (usAscii line) :: sent.map .message
  /-- before `OK` no message of the game is on the wire -/
  held_back : told (run deliver s₀ evs).out ≠ [.ok] → messages (run deliver s₀ evs).wire = []
  /-- after `OK` every message was written once, in order, and an open channel sent them all -/
  replayed : told (run deliver s₀ evs).out = [.ok] → written (run deliver s₀ evs).out = items evs ∧
    ((run deliver s₀ evs).isOpen → messages (run deliver s₀ evs).wire = items evs)
  /-- without `OK` the game reads nothing -/
  kept_back : told (run deliver s₀ evs).out ≠ [.ok] → passed (run deliver s₀ evs).out = []
  /-- after `OK` the game reads what followed the line -/
  after_line : told (run deliver s₀ evs).out = [.ok] →
    ∃ text, OkLine text ∧ stream evs = text ++ Proto.newline :: passed (run deliver s₀ evs).out
  /-- no line ended while nothing was told -/
  no_line : told (run deliver s₀ evs).out = [] → Proto.newline ∉ stream evs
  told_once : told (run deliver s₀ evs).out = [] ∨ ∃ r, told (run deliver s₀ evs).out = [r]
  /-- a failure fails the promise of every message written before it; only later messages are handed on, to a channel
  that is closed -/
  failed : ∀ code, told (run deliver s₀ evs).out = [.err code] →
    ∃ before e after, evs = before ++ e :: after ∧ told (run deliver s₀ before).out = [] ∧
      failures (run deliver s₀ evs).out = (items before).map (fun item => (item.promise, code)) ∧
      written (run deliver s₀ evs).out = items after ∧ (run deliver s₀ evs).isOpen = false

/-- a channel is read from once it is active -/
def ReadsActive (s : St μ) : Event μ → Prop
  | .channelRead _ => s.wasActive
  | _ => True

instance ReadsActive.decidable : ∀ (s : St μ) (e : Event μ), Decidable (ReadsActive s e)
  | s, .channelRead _ => inferInstanceAs (Decidable (s.wasActive = true))
  | _, .channelActive => isTrue trivial
  | _, .write _ => isTrue trivial
  | _, .flush => isTrue trivial
  | _, .timeout => isTrue trivial
  | _, .exceptionCaught => isTrue trivial
  | _, .channelInactive => isTrue trivial

/-- nothing follows a reply line that is not `OK` in its buffer, and nothing is read after a failure -/
def NothingBehind (s : St μ) : Event μ → Prop
  | .channelRead bytes =>
    (s.waiting → ∀ text more, bytes = text ++ Proto.newline :: more → Proto.newline ∉ text →
      s.reply.length + text.length ≤ maxReplyBytes →
      parseReply ((s.reply ++ ofBytes text).dropWhile (· = cr)) ≠ .ok → more = []) ∧
    (s.present → s.waiting = false → bytes = [])
  | _ => True

/-! ## Readings of what was done -/

section Readings

variable (a b : List (Effect μ)) (ps : List (Pending μ)) (code : JavaString)

theorem written_append : written (a ++ b) = written a ++ written b := List.filterMap_append

theorem passed_append : passed (a ++ b) = passed a ++ passed b := List.flatMap_append

theorem failures_append : failures (a ++ b) = failures a ++ failures b := List.filterMap_append

@[simp] theorem written_writes : written (ps.map Effect.write) = ps := by
  simp [written, List.filterMap_map]

@[simp] theorem passed_writes : passed (ps.map Effect.write) = [] := by
  simp [passed, List.flatMap_map]

@[simp] theorem written_failed : written (ps.map fun item => (.failed item.promise code : Effect μ)) = [] := by
  simp [written]

@[simp] theorem passed_failed : passed (ps.map fun item => (.failed item.promise code : Effect μ)) = [] := by
  simp [passed, List.flatMap_map]

@[simp] theorem failures_failed :
    failures (ps.map fun item => (.failed item.promise code : Effect μ)) = ps.map fun item => (item.promise, code) := by
  simp [failures, List.filterMap_map]

@[simp] theorem messages_map : messages (ps.map Wire.message) = ps := by
  simp [messages, List.filterMap_map]

end Readings

theorem items_append (a b : List (Event μ)) : items (a ++ b) = items a ++ items b := List.filterMap_append

theorem stream_append (a b : List (Event μ)) : stream (a ++ b) = stream a ++ stream b := List.flatMap_append

/-! ## Phases of a run -/

/-- the handler waits: it has done nothing but send its line, and holds what the game wrote -/
structure Waiting (s₀ s : St μ) (evs : List (Event μ)) : Prop where
  target : s.target = s₀.target
  present : s.present = true
  waiting : s.waiting = true
  isOpen : s.isOpen = true
  told_nil : told s.out = []
  written_nil : written s.out = []
  passed_nil : passed s.out = []
  failures_nil : failures s.out = []
  pending : s.pending = items evs
  reply : s.reply = ofBytes (stream evs)
  no_line : Proto.newline ∉ stream evs
  length : (stream evs).length ≤ maxReplyBytes
  wire : s.lineSent = false ∧ s.wasActive = false ∧ s.wire = [] ∨
    s.lineSent = true ∧ ∃ line, s₀.target.handshakeLine = .ok line ∧ s.wire = [.line (usAscii line)]

/-- the relay said `OK`: the handler is gone -/
structure Passed (s₀ s : St μ) (evs : List (Event μ)) : Prop where
  present : s.present = false
  told_ok : told s.out = [.ok]
  written : written s.out = items evs
  after_line : ∃ text, OkLine text ∧ stream evs = text ++ Proto.newline :: passed s.out
  wire : ∃ (line : JavaString) (sent : List (Pending μ)), s₀.target.handshakeLine = .ok line ∧
    s.wire = .line (usAscii line) :: sent.map .message ∧ (s.isOpen → sent = items evs)

/-- the handshake failed at one event -/
structure Failed (s₀ s : St μ) (evs : List (Event μ)) (code : JavaString) : Prop where
  present : s.present = true
  waiting : s.waiting = false
  isOpen : s.isOpen = false
  timeout : s.timeout = false
  told_err : told s.out = [.err code]
  passed_nil : passed s.out = []
  wire : s.wire = [] ∨ ∃ line, s₀.target.handshakeLine = .ok line ∧ s.wire = [.line (usAscii line)]
  split : ∃ before e after, evs = before ++ e :: after ∧ told (run deliver s₀ before).out = [] ∧
    failures s.out = (items before).map (fun item => (item.promise, code)) ∧ written s.out = items after

inductive Phase (s₀ s : St μ) (evs : List (Event μ)) : Prop where
  | waiting (h : Waiting s₀ s evs)
  | passed (h : Passed s₀ s evs)
  | failed (code : JavaString) (h : Failed s₀ s evs code)

/-! ## Steps -/

section Steps

variable {s₀ s : St μ} {evs : List (Event μ)} {code : JavaString}

/-- failing while it waits fails every promise held; the message written last is not among the events after -/
theorem Waiting.fail (h : Waiting s₀ s evs) {s' : St μ} {e : Event μ} (hrun : run deliver s₀ evs = s)
    (hpresent : s'.present = true) (hwaiting : s'.waiting = true) (hout : s'.out = s.out)
    (hpending : s'.pending = s.pending) (hwire : s'.wire = s.wire) :
    Failed s₀ (fail s' code) (evs ++ [e]) code := by
  have htold := told_fail s' code hwaiting
  rw [hout, h.told_nil, List.nil_append] at htold
  have hclose : ∀ b : Bool, written (if b then [(.close : Effect μ)] else []) = [] ∧
      passed (if b then [(.close : Effect μ)] else []) = [] ∧
      failures (if b then [(.close : Effect μ)] else []) = [] := by
    intro b
    cases b <;> exact ⟨rfl, rfl, rfl⟩
  obtain ⟨hcw, hcp, hcf⟩ := hclose s'.isOpen
  refine ⟨?_, fail_waiting s' code, ?_, ?_, htold, ?_, ?_, evs, e, [], by simp, hrun ▸ h.told_nil, ?_, ?_⟩
  · rw [RutaHandshake.fail, if_pos hwaiting]
    exact hpresent
  · rw [RutaHandshake.fail, if_pos hwaiting]
  · rw [RutaHandshake.fail, if_pos hwaiting]
  · rw [RutaHandshake.fail, if_pos hwaiting]
    dsimp only
    rw [passed_append, passed_append, passed_append, hout, h.passed_nil, passed_failed, hcp]
    rfl
  · rw [RutaHandshake.fail, if_pos hwaiting]
    dsimp only
    rw [hwire]
    rcases h.wire with ⟨-, -, hw⟩ | ⟨-, line, hl, hw⟩
    · exact Or.inl hw
    · exact Or.inr ⟨line, hl, hw⟩
  · rw [RutaHandshake.fail, if_pos hwaiting]
    dsimp only
    rw [failures_append, failures_append, failures_append, hout, h.failures_nil, failures_failed, hcf, hpending,
      h.pending]
    simp [failures]
  · rw [RutaHandshake.fail, if_pos hwaiting]
    dsimp only
    rw [written_append, written_append, written_append, hout, h.written_nil, written_failed, hcw]
    rfl

/-- a buffer while waiting: part of the line, the end of the line, or too much of it -/
theorem readBytes_cases (s : St μ) (bytes : List UInt8) (hlen : s.reply.length ≤ maxReplyBytes) :
    (Proto.newline ∉ bytes ∧ s.reply.length + bytes.length ≤ maxReplyBytes) ∨
      (∃ text more, bytes = text ++ Proto.newline :: more ∧ Proto.newline ∉ text ∧
        s.reply.length + text.length ≤ maxReplyBytes) ∨
      ∃ reply, readBytes s bytes = (RutaHandshake.fail { s with reply := reply } (ofString "proto"), []) := by
  induction bytes generalizing s with
  | nil => exact Or.inl ⟨List.not_mem_nil, by simpa using hlen⟩
  | cons b bytes ih =>
    by_cases hb : b = Proto.newline
    · exact Or.inr (Or.inl ⟨[], bytes, by rw [hb]; rfl, List.not_mem_nil, by simpa using hlen⟩)
    by_cases hfull : maxReplyBytes ≤ s.reply.length
    · exact Or.inr (Or.inr ⟨s.reply, by rw [readBytes, if_neg hb, if_pos hfull]⟩)
    have hgrown : (s.reply ++ [b.toUInt16]).length = s.reply.length + 1 := by simp
    have hread : readBytes s (b :: bytes) = readBytes { s with reply := s.reply ++ [b.toUInt16] } bytes := by
      rw [readBytes, if_neg hb, if_neg hfull]
    rcases ih { s with reply := s.reply ++ [b.toUInt16] } (by dsimp only; omega) with h | ⟨text, more, h, hn, hl⟩ | h
    · dsimp only at h
      refine Or.inl ⟨by simp [h.1, Ne.symm hb], ?_⟩
      rw [List.length_cons]
      omega
    · dsimp only at hl
      refine Or.inr (Or.inl ⟨b :: text, more, by rw [h]; rfl, by simp [hn, Ne.symm hb], ?_⟩)
      rw [List.length_cons]
      omega
    · exact Or.inr (Or.inr (by rw [hread]; exact h))

/-- a buffer that is part of the reply line is kept -/
theorem Waiting.part (h : Waiting s₀ s evs) {bytes : List UInt8} (hn : Proto.newline ∉ bytes)
    (hl : s.reply.length + bytes.length ≤ maxReplyBytes) :
    Waiting s₀ (channelRead s bytes) (evs ++ [.channelRead bytes]) := by
  have hread : channelRead s bytes = { s with reply := s.reply ++ ofBytes bytes } := by
    rw [channelRead, if_pos h.waiting, readBytes_part s bytes hn hl]
    rfl
  have hstream : stream (evs ++ [.channelRead bytes]) = stream evs ++ bytes := by
    rw [stream_append]
    simp [stream]
  have hitems : items (evs ++ [.channelRead bytes]) = items evs := by
    rw [items_append]
    simp [items]
  have hreply : s.reply.length = (stream evs).length := by rw [h.reply]; simp [ofBytes]
  rw [hread]
  refine ⟨h.target, h.present, h.waiting, h.isOpen, h.told_nil, h.written_nil, h.passed_nil, h.failures_nil, ?_, ?_, ?_,
    ?_, h.wire⟩
  · rw [hitems]
    exact h.pending
  · rw [hstream]
    simp [h.reply, ofBytes]
  · rw [hstream, List.mem_append, not_or]
    exact ⟨h.no_line, hn⟩
  · rw [hstream, List.length_append]
    omega

/-- the end of the reply line opens the gate or fails, and what follows an `OK` is the game's -/
theorem Waiting.line (h : Waiting s₀ s evs) (hrun : run deliver s₀ evs = s) {text more : List UInt8}
    (hn : Proto.newline ∉ text) (hl : s.reply.length + text.length ≤ maxReplyBytes) (hactive : s.wasActive = true)
    (hbehind : parseReply ((s.reply ++ ofBytes text).dropWhile (· = cr)) ≠ .ok → more = []) :
    Phase s₀ (channelRead s (text ++ Proto.newline :: more))
      (evs ++ [.channelRead (text ++ Proto.newline :: more)]) := by
  have hread : channelRead s (text ++ Proto.newline :: more) =
      if more = [] then answer { s with reply := (s.reply ++ ofBytes text).dropWhile (· = cr) }
      else emit (answer { s with reply := (s.reply ++ ofBytes text).dropWhile (· = cr) }) (.read more) := by
    rw [channelRead, if_pos h.waiting, readBytes_line s text more hn hl]
  have hstream : stream (evs ++ [.channelRead (text ++ Proto.newline :: more)]) =
      (stream evs ++ text) ++ Proto.newline :: more := by
    rw [stream_append]
    simp [stream]
  have hitems : items (evs ++ [.channelRead (text ++ Proto.newline :: more)]) = items evs := by
    rw [items_append]
    simp [items]
  have hreply : s.reply.length = (stream evs).length := by rw [h.reply]; simp [ofBytes]
  rw [hread]
  cases hparse : parseReply ((s.reply ++ ofBytes text).dropWhile (· = cr)) with
  | err code =>
    rw [if_pos (hbehind (by rw [hparse]; exact fun hc => by cases hc))]
    unfold answer
    dsimp only
    rw [hparse]
    exact Phase.failed code (h.fail hrun h.present h.waiting rfl rfl rfl)
  | ok =>
    have hline : OkLine (stream evs ++ text) := by
      refine ⟨?_, ?_, ?_⟩
      · rw [List.mem_append, not_or]
        exact ⟨h.no_line, hn⟩
      · rw [List.length_append]
        omega
      · rw [← hparse, h.reply]
        simp [ofBytes]
    obtain ⟨-, line, hlineOk, hwire⟩ : s.lineSent = true ∧ ∃ line, s₀.target.handshakeLine = .ok line ∧
        s.wire = [.line (usAscii line)] := by
      rcases h.wire with ⟨-, hno, -⟩ | hw
      · rw [hactive] at hno
        cases hno
      · exact hw
    -- what the answer did, whether or not bytes follow
    have hanswer : answer { s with reply := (s.reply ++ ofBytes text).dropWhile (· = cr) } =
        { s with
          reply := (s.reply ++ ofBytes text).dropWhile (· = cr)
          waiting := false, timeout := false, pending := [], present := false
          out := s.out ++ s.pending.map .write ++ [.flush, .removed]
          wire := s.wire ++ s.pending.map .message } := by
      unfold answer
      dsimp only
      rw [hparse]
      dsimp only
      rw [send, if_pos h.isOpen]
    rw [hanswer]
    have htold : told (s.out ++ s.pending.map Effect.write ++ [.flush, .removed]) = [.ok] := by
      rw [told_append, told_append, told_write, h.told_nil]
      rfl
    have hwritten : written (s.out ++ s.pending.map Effect.write ++ [.flush, .removed]) = items evs := by
      rw [written_append, written_append, written_writes, h.written_nil, h.pending]
      simp [written]
    have hpassed : passed (s.out ++ s.pending.map Effect.write ++ [.flush, .removed]) = [] := by
      rw [passed_append, passed_append, passed_writes, h.passed_nil]
      rfl
    have hsent : ∃ (line : JavaString) (sent : List (Pending μ)), s₀.target.handshakeLine = .ok line ∧
        s.wire ++ s.pending.map .message = .line (usAscii line) :: sent.map .message ∧
        (s.isOpen → sent = items (evs ++ [.channelRead (text ++ Proto.newline :: more)])) := by
      refine ⟨line, s.pending, hlineOk, by rw [hwire]; rfl, fun _ => ?_⟩
      rw [hitems, h.pending]
    by_cases hmore : more = []
    · rw [if_pos hmore]
      refine Phase.passed ⟨rfl, htold, by rw [hitems]; exact hwritten, ⟨_, hline, ?_⟩, hsent⟩
      rw [hstream, hmore]
      dsimp only
      rw [hpassed]
    · rw [if_neg hmore]
      refine Phase.passed ⟨rfl, ?_, ?_, ⟨_, hline, ?_⟩, hsent⟩
      · simp only [emit]
        rw [told_append, htold]
        rfl
      · simp only [emit]
        rw [written_append, hwritten, hitems]
        simp [written]
      · simp only [emit]
        rw [hstream, passed_append, hpassed]
        simp [passed]

/-- an event that leaves the handler waiting and is no message and no buffer -/
theorem Waiting.keep (h : Waiting s₀ s evs) {e : Event μ} (hitems : items [e] = []) (hstream : stream [e] = []) :
    Waiting s₀ s (evs ++ [e]) := by
  refine ⟨h.target, h.present, h.waiting, h.isOpen, h.told_nil, h.written_nil, h.passed_nil, h.failures_nil, ?_, ?_, ?_,
    ?_, h.wire⟩
  · rw [items_append, hitems, List.append_nil]
    exact h.pending
  · rw [stream_append, hstream, List.append_nil]
    exact h.reply
  · rw [stream_append, hstream, List.append_nil]
    exact h.no_line
  · rw [stream_append, hstream, List.append_nil]
    exact h.length

theorem Waiting.active (h : Waiting s₀ s evs) (hrun : run deliver s₀ evs = s) :
    Phase s₀ (channelActive s) (evs ++ [.channelActive]) := by
  have hkeep := h.keep (e := .channelActive) rfl rfl
  have htold : told [(.active : Effect μ)] = [] ∧ written [(.active : Effect μ)] = [] ∧
      passed [(.active : Effect μ)] = [] ∧ failures [(.active : Effect μ)] = [] := ⟨rfl, rfl, rfl, rfl⟩
  obtain ⟨ht, hw, hp, hf⟩ := htold
  unfold channelActive sendLine
  dsimp only
  rcases h.wire with ⟨hsent, -, hwire⟩ | ⟨hsent, line, hline, hwire⟩
  · rw [hsent, if_neg Bool.false_ne_true, h.target]
    cases hl : s₀.target.handshakeLine with
    | error msg =>
      dsimp only
      rw [if_pos rfl, exceptionCaught, if_pos h.waiting]
      exact Phase.failed _ (h.fail hrun h.present h.waiting rfl rfl rfl)
    | ok line =>
      dsimp only
      rw [if_neg Bool.false_ne_true]
      refine Phase.waiting ⟨rfl, h.present, h.waiting, h.isOpen, ?_, ?_, ?_, ?_, hkeep.pending, hkeep.reply,
        hkeep.no_line, hkeep.length, Or.inr ⟨rfl, line, hl, ?_⟩⟩
      · simp only [emit]
        rw [told_append, told_append, h.told_nil]
        rfl
      · simp only [emit]
        rw [written_append, written_append, h.written_nil]
        rfl
      · simp only [emit]
        rw [passed_append, passed_append, h.passed_nil]
        rfl
      · simp only [emit]
        rw [failures_append, failures_append, h.failures_nil]
        rfl
      · simp only [emit, send]
        rw [if_pos h.isOpen, hwire]
        rfl
  · rw [hsent, if_pos rfl]
    dsimp only
    rw [if_neg Bool.false_ne_true]
    refine Phase.waiting ⟨h.target, h.present, h.waiting, h.isOpen, ?_, ?_, ?_, ?_, hkeep.pending, hkeep.reply,
      hkeep.no_line, hkeep.length, Or.inr ⟨rfl, line, hline, hwire⟩⟩
    · simp only [emit]
      rw [told_append, h.told_nil, ht]
      rfl
    · simp only [emit]
      rw [written_append, h.written_nil, hw]
      rfl
    · simp only [emit]
      rw [passed_append, h.passed_nil, hp]
      rfl
    · simp only [emit]
      rw [failures_append, h.failures_nil, hf]
      rfl

/-- while it waits, an event keeps it waiting, opens the gate or fails it -/
theorem Waiting.step (h : Waiting s₀ s evs) (hrun : run deliver s₀ evs = s) {e : Event μ} (hactive : ReadsActive s e)
    (hbehind : NothingBehind s e) : Phase s₀ (deliver s e) (evs ++ [e]) := by
  rw [deliver, if_pos h.present]
  cases e with
  | channelActive => exact h.active hrun
  | write item =>
    rw [RutaHandshake.step, if_pos h.waiting]
    refine Phase.waiting ⟨h.target, h.present, h.waiting, h.isOpen, h.told_nil, h.written_nil, h.passed_nil,
      h.failures_nil, ?_, ?_, ?_, ?_, h.wire⟩
    · dsimp only
      rw [items_append, h.pending]
      rfl
    · rw [stream_append]
      simpa [stream] using h.reply
    · rw [stream_append]
      simpa [stream] using h.no_line
    · rw [stream_append]
      simpa [stream] using h.length
  | flush =>
    rw [RutaHandshake.step, if_pos h.waiting]
    exact Phase.waiting (h.keep rfl rfl)
  | channelRead bytes =>
    have hlen : s.reply.length ≤ maxReplyBytes := by
      rw [h.reply]
      simpa [ofBytes] using h.length
    rw [RutaHandshake.step]
    rcases readBytes_cases s bytes hlen with ⟨hn, hl⟩ | ⟨text, more, rfl, hn, hl⟩ | ⟨reply, hread⟩
    · exact Phase.waiting (h.part hn hl)
    · exact h.line hrun hn hl hactive (hbehind.1 h.waiting text more rfl hn hl)
    · have hfail : channelRead s bytes = RutaHandshake.fail { s with reply := reply } (ofString "proto") := by
        rw [channelRead, if_pos h.waiting, hread]
        rfl
      rw [hfail]
      exact Phase.failed _ (h.fail hrun h.present h.waiting rfl rfl rfl)
  | timeout =>
    rw [RutaHandshake.step]
    split_ifs
    · exact Phase.failed _ (h.fail hrun h.present h.waiting rfl rfl rfl)
    · exact Phase.waiting (h.keep rfl rfl)
  | exceptionCaught =>
    rw [RutaHandshake.step, exceptionCaught, if_pos h.waiting]
    exact Phase.failed _ (h.fail hrun h.present h.waiting rfl rfl rfl)
  | channelInactive =>
    rw [RutaHandshake.step]
    dsimp only
    rw [if_pos h.waiting]
    exact Phase.failed _ (h.fail hrun h.present h.waiting rfl rfl rfl)

/-- the pipeline without the handler hands every message and every buffer on -/
theorem Passed.extend (h : Passed s₀ s evs) {s' : St μ} {e : Event μ} {added : List (Effect μ)}
    (hpresent : s'.present = false) (hout : s'.out = s.out ++ added) (htold : told added = [])
    (hwritten : RutaHandshake.written added = items [e]) (hpassed : RutaHandshake.passed added = stream [e])
    (hwire : s'.wire = s.wire ++ if s.isOpen then (items [e]).map .message else [])
    (hopen : s'.isOpen → s.isOpen) : Passed s₀ s' (evs ++ [e]) := by
  obtain ⟨text, hline, hstream⟩ := h.after_line
  obtain ⟨line, sent, hl, hw, hsent⟩ := h.wire
  refine ⟨hpresent, ?_, ?_, ⟨text, hline, ?_⟩, ?_⟩
  · rw [hout, told_append, h.told_ok, htold]
    rfl
  · rw [hout, written_append, h.written, hwritten, items_append]
  · rw [hout, passed_append, hpassed, stream_append, hstream]
    simp
  · by_cases ho : s.isOpen = true
    · refine ⟨line, sent ++ items [e], hl, ?_, fun _ => ?_⟩
      · rw [hwire, if_pos ho, hw, List.map_append]
        rfl
      · rw [hsent ho, items_append]
    · refine ⟨line, sent, hl, ?_, fun hs => absurd (hopen hs) ho⟩
      rw [hwire, if_neg ho, List.append_nil, hw]

theorem Passed.step (h : Passed s₀ s evs) (e : Event μ) : Passed s₀ (deliver s e) (evs ++ [e]) := by
  have hdeliver : deliver s e = bare s e := by
    rw [deliver, if_neg (by rw [h.present]; exact Bool.false_ne_true)]
  rw [hdeliver]
  have hnone : (if s.isOpen then ([] : List (Pending μ)).map Wire.message else []) = [] := by simp
  cases e with
  | channelActive => exact h.extend h.present rfl rfl rfl rfl (by rw [← List.append_nil s.wire]; simp [bare, emit, items]) id
  | write item =>
    refine h.extend h.present rfl rfl rfl rfl ?_ id
    simp only [bare, ctxWrite, send]
    by_cases ho : s.isOpen = true
    · rw [if_pos ho, if_pos ho]
      rfl
    · rw [if_neg ho, if_neg ho, List.append_nil]
  | flush => exact h.extend h.present rfl rfl rfl rfl (by simp [bare, emit, items]) id
  | channelRead bytes =>
    exact h.extend h.present rfl rfl rfl (by simp [RutaHandshake.passed, stream]) (by simp [bare, emit, items]) id
  | timeout => exact h.extend h.present (List.append_nil _).symm rfl rfl rfl (by simp [bare, items]) id
  | exceptionCaught => exact h.extend h.present rfl rfl rfl rfl (by simp [bare, emit, items]) id
  | channelInactive =>
    refine h.extend h.present rfl rfl rfl rfl (by simp [bare, emit, items]) fun hs => ?_
    cases hs

/-- after a failure the closed channel takes messages and refuses them, and nothing else is handed on -/
theorem Failed.extend (h : Failed s₀ s evs code) {s' : St μ} {e : Event μ} {added : List (Effect μ)}
    (hpresent : s'.present = true) (hwaiting : s'.waiting = false) (hopen : s'.isOpen = false)
    (htimeout : s'.timeout = false) (hout : s'.out = s.out ++ added) (htold : told added = [])
    (hwritten : written added = items [e]) (hpassed : passed added = []) (hfailures : failures added = [])
    (hwire : s'.wire = s.wire) : Failed s₀ s' (evs ++ [e]) code := by
  obtain ⟨before, e', after, hevs, hbefore, hfails, hafter⟩ := h.split
  refine ⟨hpresent, hwaiting, hopen, htimeout, ?_, ?_, ?_, before, e', after ++ [e], ?_, hbefore, ?_, ?_⟩
  · rw [hout, told_append, h.told_err, htold]
    rfl
  · rw [hout, passed_append, h.passed_nil, hpassed]
    rfl
  · rw [hwire]
    exact h.wire
  · rw [hevs]
    simp
  · rw [hout, failures_append, hfails, hfailures, List.append_nil]
  · rw [hout, written_append, hafter, hwritten, items_append]

theorem Failed.step (h : Failed s₀ s evs code) {e : Event μ} (hbehind : NothingBehind s e) :
    Failed s₀ (deliver s e) (evs ++ [e]) code := by
  have hwait : ¬ s.waiting = true := by rw [h.waiting]; exact Bool.false_ne_true
  have hclosed : ∀ x : List (Wire μ), send s x = s.wire := fun x => if_neg (by rw [h.isOpen]; exact Bool.false_ne_true)
  rw [deliver, if_pos h.present]
  cases e with
  | channelActive =>
    rw [RutaHandshake.step]
    unfold channelActive sendLine
    dsimp only
    by_cases hsent : s.lineSent = true
    · rw [if_pos hsent]
      exact h.extend h.present h.waiting h.isOpen h.timeout rfl rfl rfl rfl rfl rfl
    · rw [if_neg hsent]
      cases s.target.handshakeLine with
      | ok line =>
        exact h.extend h.present h.waiting h.isOpen h.timeout (List.append_assoc _ _ _) rfl rfl rfl rfl (hclosed _)
      | error msg =>
        dsimp only
        rw [if_pos rfl, exceptionCaught, if_neg hwait]
        exact h.extend h.present h.waiting h.isOpen h.timeout rfl rfl rfl rfl rfl rfl
  | write item =>
    rw [RutaHandshake.step, if_neg hwait]
    exact h.extend h.present h.waiting h.isOpen h.timeout rfl rfl rfl rfl rfl (hclosed _)
  | flush =>
    rw [RutaHandshake.step, if_neg hwait]
    exact h.extend h.present h.waiting h.isOpen h.timeout rfl rfl rfl rfl rfl rfl
  | channelRead bytes =>
    have hempty := hbehind.2 h.present h.waiting
    rw [RutaHandshake.step, channelRead, if_neg hwait, hempty]
    exact h.extend h.present h.waiting h.isOpen h.timeout rfl rfl rfl rfl rfl rfl
  | timeout =>
    rw [RutaHandshake.step, if_neg (by rw [h.timeout]; exact Bool.false_ne_true)]
    exact h.extend h.present h.waiting h.isOpen h.timeout (List.append_nil _).symm rfl rfl rfl rfl rfl
  | exceptionCaught =>
    rw [RutaHandshake.step, exceptionCaught, if_neg hwait]
    exact h.extend h.present h.waiting h.isOpen h.timeout rfl rfl rfl rfl rfl rfl
  | channelInactive =>
    rw [RutaHandshake.step]
    dsimp only
    rw [if_neg hwait]
    exact h.extend h.present h.waiting rfl h.timeout rfl rfl rfl rfl rfl rfl

theorem phase_step (h : Phase s₀ s evs) (hrun : run deliver s₀ evs = s) {e : Event μ} (hactive : ReadsActive s e)
    (hbehind : NothingBehind s e) : Phase s₀ (deliver s e) (evs ++ [e]) := by
  cases h with
  | waiting h => exact h.step hrun hactive hbehind
  | passed h => exact Phase.passed (h.step e)
  | failed code h => exact Phase.failed code (h.step hbehind)

end Steps

/-! ## The gate -/

theorem phase_start (target : RutaTarget) (isActive : Bool)
    (hline : isActive = true → ∃ line, target.handshakeLine = .ok line) :
    Phase (start target isActive : St μ) (start target isActive) [] := by
  have hlen : (stream ([] : List (Event μ))).length ≤ maxReplyBytes := Nat.zero_le _
  cases isActive with
  | false =>
    exact Phase.waiting ⟨rfl, rfl, rfl, rfl, rfl, rfl, rfl, rfl, rfl, rfl, List.not_mem_nil, hlen,
      Or.inl ⟨rfl, rfl, rfl⟩⟩
  | true =>
    obtain ⟨line, hl⟩ := hline rfl
    have hstart : (start target true : St μ) = ⟨target, true, true, true, true, true, true, [], [],
        [.sent (usAscii line)], [.line (usAscii line)]⟩ := by
      have hsend : sendLine (⟨target, true, true, true, true, false, true, [], [], [], []⟩ : St μ) =
          (⟨target, true, true, true, true, true, true, [], [], [.sent (usAscii line)], [.line (usAscii line)]⟩,
            false) := by
        unfold sendLine
        dsimp only
        rw [if_neg Bool.false_ne_true, hl]
        rfl
      unfold start handlerAdded init
      dsimp only
      rw [if_pos rfl, hsend]
      rfl
    rw [hstart]
    exact Phase.waiting ⟨rfl, rfl, rfl, rfl, rfl, rfl, rfl, rfl, rfl, rfl, List.not_mem_nil, hlen,
      Or.inr ⟨rfl, line, hl, rfl⟩⟩

theorem phase_run {s₀ : St μ} (h : Phase s₀ s₀ []) (evs : List (Event μ))
    (hactive : Meets deliver ReadsActive s₀ evs) (hbehind : Meets deliver NothingBehind s₀ evs) :
    Phase s₀ (run deliver s₀ evs) evs := by
  induction evs using List.reverseRecOn with
  | nil => exact h
  | append_singleton evs e ih =>
    obtain ⟨ha, hae, -⟩ := (meets_append _ _ _ _ _).1 hactive
    obtain ⟨hb, hbe, -⟩ := (meets_append _ _ _ _ _).1 hbehind
    rw [run_append]
    exact phase_step (ih ha hb) rfl hae hbe

/-- what each phase comes to -/
theorem Phase.gate {s₀ : St μ} {evs : List (Event μ)} (h : Phase s₀ (run deliver s₀ evs) evs) : Gate s₀ evs := by
  cases h with
  | waiting h =>
    have hok : told (run deliver s₀ evs).out ≠ [.ok] := by rw [h.told_nil]; exact fun hc => by cases hc
    refine ⟨?_, fun _ => ?_, fun ht => absurd ht hok, fun _ => h.passed_nil, fun ht => absurd ht hok,
      fun _ => h.no_line, Or.inl h.told_nil, fun code ht => ?_⟩
    · rcases h.wire with ⟨-, -, hw⟩ | ⟨-, line, hl, hw⟩
      · exact Or.inl hw
      · exact Or.inr ⟨line, [], hl, hw⟩
    · rcases h.wire with ⟨-, -, hw⟩ | ⟨-, line, hl, hw⟩
      · rw [hw]
        rfl
      · rw [hw]
        rfl
    · rw [h.told_nil] at ht
      cases ht
  | passed h =>
    obtain ⟨line, sent, hl, hw, hsent⟩ := h.wire
    refine ⟨Or.inr ⟨line, sent, hl, hw⟩, fun ht => absurd h.told_ok ht, fun _ => ⟨h.written, fun ho => ?_⟩,
      fun ht => absurd h.told_ok ht, fun _ => h.after_line, fun ht => ?_, Or.inr ⟨_, h.told_ok⟩, fun code ht => ?_⟩
    · rw [hw, ← hsent ho]
      exact messages_map sent
    · rw [h.told_ok] at ht
      cases ht
    · rw [h.told_ok] at ht
      cases ht
  | failed code h =>
    have hok : told (run deliver s₀ evs).out ≠ [.ok] := by rw [h.told_err]; exact fun hc => by cases hc
    refine ⟨?_, fun _ => ?_, fun ht => absurd ht hok, fun _ => h.passed_nil, fun ht => absurd ht hok, fun ht => ?_,
      Or.inr ⟨_, h.told_err⟩, fun code' ht => ?_⟩
    · rcases h.wire with hw | ⟨line, hl, hw⟩
      · exact Or.inl hw
      · exact Or.inr ⟨line, [], hl, hw⟩
    · rcases h.wire with hw | ⟨line, hl, hw⟩
      · rw [hw]
        rfl
      · rw [hw]
        rfl
    · rw [h.told_err] at ht
      cases ht
    · rw [h.told_err] at ht
      cases ht
      obtain ⟨before, e, after, hevs, hbefore, hfails, hafter⟩ := h.split
      exact ⟨before, e, after, hevs, hbefore, hfails, hafter, h.isOpen⟩

/-- **The gate holds** in every run of a handler whose line can be built, as long as the relay sends nothing behind a
reply that is not `OK` and nothing is read after a failure. -/
theorem gate_holds (target : RutaTarget) (isActive : Bool) (evs : List (Event μ))
    (hline : isActive = true → ∃ line, target.handshakeLine = .ok line)
    (hactive : Meets deliver ReadsActive (start target isActive) evs)
    (hbehind : Meets deliver NothingBehind (start target isActive) evs) : Gate (start target isActive) evs :=
  (phase_run (phase_start target isActive hline) evs hactive hbehind).gate

/-! ### A run that passes the gate, and one that leaks -/

theorem nothingBehind_read {s : St μ} {bytes : List UInt8}
    (h : (bytes.dropWhile (· ≠ Proto.newline)).tail = [] ∨
      parseReply ((s.reply ++ ofBytes (bytes.takeWhile (· ≠ Proto.newline))).dropWhile (· = cr)) = .ok)
    (hafter : s.present → s.waiting = false → bytes = []) : NothingBehind s (.channelRead bytes) := by
  refine ⟨fun _ text more hbytes hn _ hparse => ?_, hafter⟩
  have htext : ∀ b ∈ text, decide (b ≠ Proto.newline) = true := fun b hb =>
    decide_eq_true fun heq => hn (heq ▸ hb)
  have htake : bytes.takeWhile (· ≠ Proto.newline) = text := by
    rw [hbytes, List.takeWhile_append_of_pos htext]
    simp
  have hdrop : bytes.dropWhile (· ≠ Proto.newline) = Proto.newline :: more := by
    rw [hbytes, List.dropWhile_append_of_pos htext]
    simp
  rw [htake, hdrop] at h
  rcases h with h | h
  · exact h
  · exact absurd h hparse

def gateTarget : RutaTarget := ⟨some (ofString "1.2.3.4"), 25565, some (ofString "a.b.c")⟩

/-- two messages around an `OK` line in two pieces with a byte of the game behind it, then the end -/
def gateRun : List (Event Unit) :=
  [.write ⟨(), 1⟩, .flush, .channelRead [0x4f], .channelRead [0x4b, 0x0a, 0x58], .write ⟨(), 2⟩, .channelInactive]

theorem gate_holds_sample :
    told (run deliver (start gateTarget true) gateRun).out = [.ok] ∧ Gate (start gateTarget true) gateRun := by
  refine ⟨by decide, gate_holds gateTarget true gateRun (fun _ => ⟨_, rfl⟩) ?_ ?_⟩
  · decide
  · exact ⟨trivial, trivial, nothingBehind_read (by decide) (by decide), nothingBehind_read (by decide) (by decide),
      trivial, trivial, trivial⟩

/-- an error line with a byte behind it -/
def leakRun : List (Event Unit) := [.channelRead (usAscii (ofString "ERR dest\nX"))]

/-- **The bytes behind an error reach the game**: they come in the same buffer as the line that fails the handshake. -/
theorem leaks_after_error :
    ¬ ∀ (target : RutaTarget) (isActive : Bool) (evs : List (Event Unit)),
      (isActive = true → ∃ line, target.handshakeLine = .ok line) →
      Meets deliver ReadsActive (start target isActive) evs → Gate (start target isActive) evs := by
  intro h
  have hgate := h gateTarget true leakRun (fun _ => ⟨_, rfl⟩) (by decide)
  have htold : told (run deliver (start gateTarget true) leakRun).out = [.err (ofString "dest")] := by decide
  have hpassed : passed (run deliver (start gateTarget true) leakRun).out = [0x58] := by decide
  have hkept := hgate.kept_back (by rw [htold]; exact fun hc => by cases hc)
  rw [hpassed] at hkept
  cases hkept

end EspectralClient.RutaHandshake
