/-
The frames of the Rich Presence connection (`native/engine/src/discord.rs`). A frame is read in two parts, its header
and its body; a send waits for its reply under a timeout, which may stop the read anywhere and keeps the connection.

- `encodeFrame`, `readFrame`: a frame as bytes, and a read of it from the bytes taken so far.
- `send`, `answered`, `step`: the calls, the reads, the timeouts and the pings, in any order, over one connection at a
  time.
- `readFrame_part`: what a read of a part of a frame waits for, and that the whole frame is what it returns.
- `Reading`, `Inv`: where a connection stands in the peer's frames.
- `in_step_iff`: the reads keep to the frames exactly in the runs where no call reads on after a timeout within a frame.
- `reply_cut`: a reply that came with its header only.
-/
import EspectralClient.Lib.Bytes
import EspectralClient.Lib.LittleEndian
import EspectralClient.Lib.Run
import EspectralClient.Engine.Json

namespace EspectralClient.DiscordIpc

open Lib Lib.LittleEndian
open Lib.Bytes (utf8)

/-! ## Frames -/

def opHandshake : UInt32 := 0
def opFrame : UInt32 := 1
def opPing : UInt32 := 3
def opPong : UInt32 := 4

def maxFrame : ℕ := 2 ^ 20

/-- what the engine takes from outside: its JSON library, its process and its application id -/
structure Env where
  /-- `Value::to_string` -/
  text : Json → String
  /-- `serde_json::from_slice` -/
  fromSlice : List UInt8 → Option Json
  pid : ℕ
  clientId : String

/-- the header and the body; a length is cast to 32 bits -/
def frameBytes (op : UInt32) (body : List UInt8) : List UInt8 := toLe 4 op.toNat ++ toLe 4 body.length ++ body

def encodeFrame (E : Env) (op : UInt32) (payload : Json) : List UInt8 := frameBytes op (utf8 (E.text payload))

/-- a body that is no JSON is read as null -/
def decodeBody (E : Env) (body : List UInt8) : Json := (E.fromSlice body).getD .null

/-- a read of a frame, with the bytes that it took so far -/
inductive Poll where
  /-- it waits for this many bytes, of the header or of the body -/
  | pending (n : ℕ)
  | tooLarge
  | ready (op : UInt32) (payload : Json)

def readFrame (E : Env) (got : List UInt8) : Poll :=
  if got.length < 8 then .pending (8 - got.length)
  else
    let op := ofLe (got.take 4)
    let len := ofLe ((got.drop 4).take 4)
    if maxFrame < len then .tooLarge
    else if got.length < 8 + len then .pending (8 + len - got.length)
    else .ready (UInt32.ofNat op) (decodeBody E ((got.drop 8).take len))

/-! ## Calls -/

/-- the fields of an object -/
abbrev Fields := List (String × Json)

structure Presence where
  details : Option String
  state : Option String
  startTimestamp : Option ℤ
  endTimestamp : Option ℤ
  image : Option String
  smallImage : Option String
  largeText : Option String

structure PresenceOutcome where
  ok : Bool
  error : Option String
  degraded : Option Bool
deriving DecidableEq

/-- a text that is not empty, under a key -/
def textField (key : String) (o : Option String) : Fields :=
  ((o.filter fun s => s ≠ "").map fun s => (key, Json.str s)).toList

def assets (p : Presence) : Fields :=
  let images := textField "large_image" p.image ++ textField "small_image" p.smallImage
  if images.isEmpty then [] else images ++ [("large_text", .str (p.largeText.getD "Espectral Client"))]

def timestamps (p : Presence) : Fields :=
  match p.startTimestamp.filter fun t => t ≠ 0 with
  | some t => [("timestamps", .obj [("start", .int t)])]
  | none =>
    match p.endTimestamp.filter fun t => t ≠ 0 with
    | some t => [("timestamps", .obj [("end", .int t)])]
    | none => []

def activity (p : Presence) : Fields :=
  [("type", .int 0)] ++ textField "details" p.details ++ textField "state" p.state ++
    (if (assets p).isEmpty then [] else [("assets", .obj (assets p))]) ++ timestamps p

def setActivity (E : Env) (activity : Json) : Fields :=
  [("cmd", .str "SET_ACTIVITY"), ("args", .obj [("pid", .int E.pid), ("activity", activity)])]

inductive Call where
  | setPresence (p : Presence)
  | clearPresence

/-- what a call sends; the second time without images -/
def payload (E : Env) (second : Bool) : Call → Fields
  | .setPresence p =>
    setActivity E (.obj (if second then Assoc.swapRemove "assets" (activity p) else activity p))
  | .clearPresence => setActivity E .null

def isNumber : Json → Bool
  | .int _ => true
  | .double _ => true
  | _ => false

def isError : Option Json → Bool
  | some r =>
    (r.get? "evt").bind Json.asStr = some "ERROR" || ((r.get? "data").bind (·.get? "code")).any isNumber
  | none => false

def rejected (E : Env) (reply : Option Json) : PresenceOutcome :=
  let d := reply.bind (·.get? "data")
  let code := ((d.bind (·.get? "code")).map E.text).getD "?"
  let message := ((d.bind (·.get? "message")).bind Json.asStr).getD "unknown"
  ⟨false, some ("SET_ACTIVITY rejected (" ++ code ++ ": " ++ message ++ ")"), none⟩

def isReady (payload : Json) : Bool :=
  (payload.get? "cmd").bind Json.asStr = some "DISPATCH" && (payload.get? "evt").bind Json.asStr = some "READY"

/-! ## Connections -/

/-- a frame that the peer sends -/
structure Frame where
  op : UInt32
  body : List UInt8
  small : body.length ≤ maxFrame

def Frame.bytes (f : Frame) : List UInt8 := frameBytes f.op f.body

/-- frames one after the other -/
def wire (fs : List Frame) : List UInt8 := fs.flatMap Frame.bytes

/-- a connection; all but what it holds unread and what was written to it is of the model only -/
structure Conn where
  /-- what the peer sent and no read took -/
  unread : List UInt8
  /-- what the peer was sent -/
  written : List UInt8
  /-- what the peer sent -/
  frames : List Frame
  /-- how many bytes were taken -/
  taken : ℕ
  /-- where each read of a frame began, and what each returned -/
  starts : List ℕ
  returned : List (ℕ × UInt32 × Json)
  /-- a timeout stopped a read that had taken a part of a frame -/
  cut : Bool

def Conn.new : Conn := ⟨[], [], [], 0, [], [], false⟩

def write (E : Env) (c : Conn) (op : UInt32) (payload : Json) : Conn :=
  { c with written := c.written ++ encodeFrame E op payload }

def startRead (c : Conn) : Conn := { c with starts := c.starts ++ [c.taken] }

def receive (c : Conn) (f : Frame) : Conn := { c with unread := c.unread ++ f.bytes, frames := c.frames ++ [f] }

/-- how many bytes a read waits for -/
def wants (E : Env) (got : List UInt8) : ℕ :=
  match readFrame E got with
  | .pending n => n
  | _ => 0

/-- bytes are taken -/
def Conn.take (c : Conn) (m : ℕ) : Conn :=
  { c with unread := c.unread.drop m, taken := c.taken + (c.unread.take m).length }

/-- where a read is after it took some bytes -/
inductive Progress where
  | more (c : Conn) (got : List UInt8)
  | failed (c : Conn)
  | frame (c : Conn) (op : UInt32) (payload : Json)

/-- a read takes what came, up to what it waits for -/
def advance (E : Env) (c : Conn) (got : List UInt8) (n : ℕ) : Progress :=
  let m := min n (wants E got)
  let got := got ++ c.unread.take m
  match readFrame E got with
  | .pending _ => .more (c.take m) got
  | .tooLarge => .failed (c.take m)
  | .ready op payload =>
    let start := (c.take m).taken - got.length
    .frame { c.take m with returned := c.returned ++ [(start, op, payload)] } op payload

/-! ## Steps -/

/-- who holds the lock, and the read under way -/
inductive Phase where
  | free
  /-- the handshake was sent; with the call that connects -/
  | connecting (c : Conn) (got : List UInt8) (call : Call)
  /-- a request was sent on the connection that is kept -/
  | sending (got : List UInt8) (nonce : String) (request : Fields) (call : Call) (second : Bool)

/-- a request and the reply that its send returned -/
structure Exchange where
  request : Fields
  reply : Json

structure St where
  conn : Option Conn
  sequence : UInt64
  phase : Phase
  outcomes : List PresenceOutcome
  /-- of the model only -/
  exchanges : List Exchange
  dropped : List Conn

def St.init : St := ⟨none, 0, .free, [], [], []⟩

/-- the call ends without a connection -/
def noConnection (s : St) : Call → St
  | .setPresence _ =>
    { s with phase := .free, outcomes := s.outcomes ++ [⟨false, some "no discord connection", none⟩] }
  | .clearPresence => { s with phase := .free }

/-- the call ends with what its last send returned -/
def conclude (E : Env) (s : St) (call : Call) (second : Bool) (reply : Option Json) : St :=
  match call with
  | .setPresence _ =>
    let outcome := if isError reply then rejected E reply else ⟨true, none, if second then some true else none⟩
    { s with phase := .free, outcomes := s.outcomes ++ [outcome] }
  | .clearPresence => { s with phase := .free }

/-- writes a request and waits for its reply; `wrote` is whether the write succeeds -/
def send (E : Env) (s : St) (call : Call) (second wrote : Bool) : St :=
  match s.conn with
  | none => conclude E s call second none
  | some c =>
    let nonce := toString s.sequence
    let request := Assoc.insert "nonce" (.str nonce) (payload E second call)
    let s := { s with sequence := s.sequence + 1 }
    if wrote then
      { s with conn := some (startRead (write E c opFrame (.obj request)))
               phase := .sending [] nonce request call second }
    else conclude E { s with conn := none, dropped := s.dropped ++ [c] } call second none

/-- what a call does with what a send returned: an error with images is tried once more without -/
def answered (E : Env) (s : St) (call : Call) (second : Bool) (reply : Option Json) (wrote : Bool) : St :=
  match call with
  | .setPresence p =>
    if isError reply && !second && !(assets p).isEmpty then send E s call true wrote
    else conclude E s call second reply
  | .clearPresence => conclude E s call second reply

/-- the handshake that a connection starts with -/
def handshake (E : Env) : Json := .obj [("v", .int 1), ("client_id", .str E.clientId)]

/-- a read of `connect` went on -/
def connectRead (E : Env) (s : St) (call : Call) (wrote : Bool) : Progress → St
  | .more c got => { s with phase := .connecting c got call }
  | .failed c => noConnection { s with dropped := s.dropped ++ [c] } call
  | .frame c op payload =>
    if op = opPing ∨ op = opPong then { s with phase := .connecting (startRead c) [] call }
    else if isReady payload then send E { s with conn := some c } call false wrote
    else { s with phase := .connecting (startRead c) [] call }

/-- a read of `send` went on -/
def sendRead (E : Env) (s : St) (nonce : String) (request : Fields) (call : Call) (second wrote : Bool) : Progress → St
  | .more c got => { s with conn := some c, phase := .sending got nonce request call second }
  | .failed c => conclude E { s with conn := none, dropped := s.dropped ++ [c] } call second none
  | .frame c op payload =>
    if op = opPing ∨ op = opPong then
      { s with conn := some (startRead c), phase := .sending [] nonce request call second }
    else if (payload.get? "nonce").bind Json.asStr = some nonce then
      answered E { s with conn := some c, exchanges := s.exchanges ++ [⟨request, payload⟩] } call second (some payload)
        wrote
    else { s with conn := some (startRead c), phase := .sending [] nonce request call second }

inductive Op where
  /-- a call takes the lock; whether a socket opens and the write succeeds -/
  | call (call : Call) (opened wrote : Bool)
  /-- the peer sends a frame -/
  | peer (f : Frame)
  /-- up to so many of its bytes arrive at the read; whether the write that may follow succeeds -/
  | take (n : ℕ) (wrote : Bool)
  /-- the timeout of the read fires -/
  | timeout
  /-- the read fails -/
  | readFails
  | ping (wrote : Bool)
  | shutdown

def step (E : Env) (s : St) : Op → St
  | .call call opened wrote =>
    match s.phase with
    | .free =>
      match s.conn with
      | some _ => send E s call false wrote
      | none =>
        if opened && wrote then
          { s with phase := .connecting (startRead (write E .new opHandshake (handshake E))) [] call }
        else noConnection s call
    | _ => s
  | .peer f =>
    match s.phase with
    | .connecting c got call => { s with phase := .connecting (receive c f) got call }
    | _ => { s with conn := s.conn.map (receive · f) }
  | .take n wrote =>
    match s.phase, s.conn with
    | .connecting c got call, _ => connectRead E s call wrote (advance E c got n)
    | .sending got nonce request call second, some c =>
      sendRead E s nonce request call second wrote (advance E c got n)
    | _, _ => s
  | .timeout =>
    match s.phase with
    | .connecting c _ call => noConnection { s with dropped := s.dropped ++ [c] } call
    | .sending got _ _ call second =>
      let conn := s.conn.map fun c => { c with cut := c.cut || !got.isEmpty }
      answered E { s with conn := conn } call second none false
    | .free => s
  | .readFails =>
    match s.phase with
    | .connecting c _ call => noConnection { s with dropped := s.dropped ++ [c] } call
    | .sending _ _ _ call second =>
      conclude E { s with conn := none, dropped := s.dropped ++ s.conn.toList } call second none
    | .free => s
  | .ping wrote =>
    match s.phase with
    | .free =>
      if wrote then { s with conn := s.conn.map fun c => write E c opPing (.obj []) }
      else { s with conn := none, dropped := s.dropped ++ s.conn.toList }
    | _ => s
  | .shutdown =>
    match s.phase with
    | .free => { s with conn := none, dropped := s.dropped ++ s.conn.toList }
    | _ => s

/-! ## What is promised -/

/-- every read of the connection began at the first byte of a frame, and what it returned is that frame -/
structure InStep (E : Env) (c : Conn) : Prop where
  starts : ∀ n ∈ c.starts, ∃ a b, c.frames = a ++ b ∧ n = (wire a).length
  returned : ∀ r ∈ c.returned, ∃ a f b,
    c.frames = a ++ f :: b ∧ r.1 = (wire a).length ∧ r.2 = (f.op, decodeBody E f.body)

/-- every connection so far -/
def St.conns (s : St) : List Conn :=
  s.dropped ++ s.conn.toList ++
    match s.phase with
    | .connecting c _ _ => [c]
    | _ => []

def AllInStep (E : Env) (s : St) : Prop := ∀ c ∈ s.conns, InStep E c

/-- no call sends on a connection on which a timeout left a part of a frame -/
def NotCut (s : St) (op : Op) : Prop :=
  ∀ call opened, op = .call call opened true → ∀ c, s.phase = .free → s.conn = some c → c.cut = false

/-! ## Reading a frame -/

theorem length_frameBytes (op : UInt32) (body : List UInt8) : (frameBytes op body).length = 8 + body.length := by
  simp only [frameBytes, List.length_append, length_toLe]

theorem take_of_begins {α : Type} {p l : List α} (h : p <+: l) {n : ℕ} (hn : n ≤ p.length) : p.take n = l.take n := by
  rw [List.prefix_iff_eq_take.1 h, List.take_take, min_eq_left hn]

theorem drop_of_begins {α : Type} {p l : List α} (h : p <+: l) (n : ℕ) : p.drop n = (l.drop n).take (p.length - n) := by
  rw [List.prefix_iff_eq_take.1 h, List.drop_take, List.length_take, min_eq_left h.length_le]

/-- the two numbers of a header -/
theorem header_part {op : UInt32} {body part : List UInt8} (hsmall : body.length ≤ maxFrame)
    (h : part <+: frameBytes op body) (hhead : 8 ≤ part.length) :
    ofLe (part.take 4) = op.toNat ∧ ofLe ((part.drop 4).take 4) = body.length := by
  have hop : op.toNat < 256 ^ 4 := op.toNat_lt
  have hlen : body.length < 256 ^ 4 := lt_of_le_of_lt hsmall (by norm_num [maxFrame])
  constructor
  · rw [take_of_begins h (by omega), frameBytes, List.append_assoc, List.take_left' (length_toLe 4 _), ofLe_toLe hop]
  · rw [drop_of_begins h, List.take_take, min_eq_left (by omega), frameBytes, List.append_assoc,
      List.drop_left' (length_toLe 4 _), List.take_left' (length_toLe 4 _), ofLe_toLe hlen]

/-- **A read of a part of a frame.** With the header or a part of it, the read waits; with a part of the body, it waits
for the rest; the whole frame is what it returns. -/
theorem readFrame_part (E : Env) {op : UInt32} {body part : List UInt8} (hsmall : body.length ≤ maxFrame)
    (h : part <+: frameBytes op body) :
    readFrame E part =
      if part.length < 8 then .pending (8 - part.length)
      else if part.length < (frameBytes op body).length then .pending ((frameBytes op body).length - part.length)
      else .ready op (decodeBody E body) := by
  have hle := h.length_le
  rw [length_frameBytes] at hle ⊢
  unfold readFrame
  by_cases hhead : part.length < 8
  · rw [if_pos hhead, if_pos hhead]
  · obtain ⟨hop, hlen⟩ := header_part hsmall h (not_lt.1 hhead)
    rw [if_neg hhead, if_neg hhead]
    dsimp only
    rw [hop, hlen, if_neg (not_lt.2 hsmall)]
    by_cases hpart : part.length < 8 + body.length
    · rw [if_pos hpart, if_pos hpart]
    · rw [if_neg hpart, if_neg hpart]
      have hwhole : part = frameBytes op body := h.eq_of_length (by rw [length_frameBytes]; omega)
      have hhead8 : (toLe 4 op.toNat ++ toLe 4 body.length).length = 8 := by simp
      have hbody : (part.drop 8).take body.length = body := by
        rw [hwhole, frameBytes, List.drop_left' hhead8, List.take_length]
      rw [hbody, UInt32.ofNat_toNat]

/-! ## Where a connection stands -/

theorem wire_append (a b : List Frame) : wire (a ++ b) = wire a ++ wire b := List.flatMap_append

theorem wire_cons (f : Frame) (fs : List Frame) : wire (f :: fs) = f.bytes ++ wire fs := rfl

theorem Frame.eight_le (f : Frame) : 8 ≤ f.bytes.length := by
  rw [Frame.bytes, length_frameBytes]
  omega

/-- a read of a frame, with what it took: the rest of the frame and the frames after it are still to come -/
structure Reading (E : Env) (c : Conn) (got : List UInt8) : Prop where
  inStep : InStep E c
  position : ∃ a b, c.frames = a ++ b ∧ c.taken = (wire a).length + got.length ∧ got ++ c.unread = wire b ∧
    ∀ f fs, b = f :: fs → got.length < f.bytes.length

/-- a connection that was left within a frame -/
def WithinFrame (c : Conn) : Prop :=
  ∃ a f b, c.frames = a ++ f :: b ∧ (wire a).length < c.taken ∧ c.taken < (wire a).length + f.bytes.length

variable {E : Env} {c : Conn} {got : List UInt8}

theorem inStep_new (E : Env) : InStep E .new := ⟨by simp [Conn.new], by simp [Conn.new]⟩

theorem reading_new (E : Env) : Reading E .new [] :=
  ⟨inStep_new E, [], [], rfl, rfl, rfl, by simp⟩

theorem inStep_write (h : InStep E c) (op : UInt32) (payload : Json) : InStep E (write E c op payload) :=
  ⟨h.starts, h.returned⟩

theorem Reading.write (h : Reading E c got) (op : UInt32) (payload : Json) : Reading E (write E c op payload) got :=
  ⟨inStep_write h.inStep op payload, h.position⟩

/-- what was read keeps to the frames as more of them come -/
theorem inStep_receive (h : InStep E c) (f : Frame) : InStep E (receive c f) where
  starts n hn := by
    obtain ⟨a, b, hframes, hat⟩ := h.starts n hn
    refine ⟨a, b ++ [f], ?_, hat⟩
    rw [receive, hframes, List.append_assoc]
  returned r hr := by
    obtain ⟨a, g, b, hframes, hat⟩ := h.returned r hr
    refine ⟨a, g, b ++ [f], ?_, hat⟩
    rw [receive, hframes, List.append_assoc, List.cons_append]

theorem Reading.receive (h : Reading E c got) (f : Frame) : Reading E (receive c f) got := by
  obtain ⟨a, b, hframes, htaken, hwire, hpart⟩ := h.position
  refine ⟨inStep_receive h.inStep f, a, b ++ [f], ?_, htaken, ?_, ?_⟩
  · rw [DiscordIpc.receive, hframes, List.append_assoc]
  · rw [DiscordIpc.receive, wire_append, ← hwire, List.append_assoc, wire_cons, wire, List.flatMap_nil, List.append_nil]
  · intro g fs hb
    cases b with
    | nil =>
      have hnil : got = [] := (List.append_eq_nil_iff.1 hwire).1
      rw [hnil]
      exact lt_of_lt_of_le (by norm_num) g.eight_le
    | cons g' b =>
      cases hb
      exact hpart g b rfl

theorem WithinFrame.receive (h : WithinFrame c) (f : Frame) : WithinFrame (receive c f) := by
  obtain ⟨a, g, b, hframes, hlow, hhigh⟩ := h
  refine ⟨a, g, b ++ [f], ?_, hlow, hhigh⟩
  rw [DiscordIpc.receive, hframes, List.append_assoc, List.cons_append]

/-- the next read begins at a frame -/
theorem Reading.startRead (h : Reading E c []) : Reading E (startRead c) [] := by
  refine ⟨⟨fun n hn => ?_, h.inStep.returned⟩, h.position⟩
  rcases List.mem_append.1 hn with hn | hn
  · exact h.inStep.starts n hn
  · obtain ⟨a, b, hframes, htaken, -⟩ := h.position
    rw [List.mem_singleton.1 hn]
    exact ⟨a, b, hframes, htaken⟩

/-- **A read within a frame is out of step.** It begins between the first byte of the frame and the first byte of the
next. -/
theorem startRead_withinFrame (h : WithinFrame c) : ¬InStep E (DiscordIpc.startRead c) := by
  intro hstep
  obtain ⟨a, f, b, hframes, hlow, hhigh⟩ := h
  obtain ⟨a', b', hframes', hat⟩ := hstep.starts c.taken (List.mem_append_right _ (List.mem_singleton.2 rfl))
  have hsame : a' ++ b' = a ++ f :: b := hframes'.symm.trans hframes
  rcases List.append_eq_append_iff.1 hsame with ⟨as, rfl, -⟩ | ⟨bs, rfl, hb⟩
  · -- the read would begin before the frame
    rw [wire_append, List.length_append] at hlow
    omega
  · -- or after it
    cases bs with
    | nil =>
      rw [List.append_nil] at hat
      omega
    | cons g bs =>
      cases hb
      rw [wire_append, wire_cons, List.length_append, List.length_append] at hat
      omega

/-- a read takes the rest of its part of the frame at most -/
theorem wants_le {f : Frame} (h : got <+: f.bytes) (hlt : got.length < f.bytes.length) :
    got.length + wants E got ≤ f.bytes.length := by
  have hread := readFrame_part E f.small h
  have height := f.eight_le
  change readFrame E got = if got.length < 8 then _ else if got.length < f.bytes.length then
    .pending (f.bytes.length - got.length) else _ at hread
  rw [wants, hread]
  by_cases hhead : got.length < 8
  · rw [if_pos hhead]
    dsimp only
    omega
  · rw [if_neg hhead, if_pos hlt]
    dsimp only
    omega

theorem pending_of_lt {f : Frame} (h : got <+: f.bytes) (hlt : got.length < f.bytes.length) :
    ∃ n, readFrame E got = .pending n := by
  rw [readFrame_part E f.small h]
  by_cases hhead : got.length < 8
  · exact ⟨_, if_pos hhead⟩
  · rw [if_neg hhead]
    exact ⟨_, if_pos hlt⟩

theorem ready_of_whole (f : Frame) : readFrame E f.bytes = .ready f.op (decodeBody E f.body) := by
  have height := f.eight_le
  have hread := readFrame_part E f.small (List.prefix_refl f.bytes)
  change readFrame E f.bytes =
    if f.bytes.length < 8 then _ else if f.bytes.length < f.bytes.length then _ else _ at hread
  rw [hread, if_neg (by omega), if_neg (lt_irrefl _)]

theorem advance_more {n k : ℕ} (h : readFrame E (got ++ c.unread.take (min n (wants E got))) = .pending k) :
    advance E c got n = .more (c.take (min n (wants E got))) (got ++ c.unread.take (min n (wants E got))) := by
  rw [advance]
  dsimp only
  rw [h]

theorem advance_frame {n : ℕ} {op : UInt32} {payload : Json}
    (h : readFrame E (got ++ c.unread.take (min n (wants E got))) = .ready op payload) :
    advance E c got n = .frame
      { c.take (min n (wants E got)) with
        returned := c.returned ++ [((c.take (min n (wants E got))).taken -
          (got ++ c.unread.take (min n (wants E got))).length, op, payload)] } op payload := by
  rw [advance]
  dsimp only
  rw [h]

/-- **A read goes on.** It stays within its frame, or returns it and leaves the connection at the next. -/
theorem Reading.advance (h : Reading E c got) (n : ℕ) :
    (∃ c' got', advance E c got n = .more c' got' ∧ Reading E c' got' ∧ c'.cut = c.cut) ∨
      ∃ c' op payload, advance E c got n = .frame c' op payload ∧ Reading E c' [] ∧ c'.cut = c.cut := by
  obtain ⟨a, b, hframes, htaken, hwire, hpart⟩ := h.position
  have hmore := @advance_more E c got n
  have hframe := @advance_frame E c got n
  generalize hm : min n (wants E got) = m at hmore hframe
  have hrest : (got ++ c.unread.take m) ++ (c.take m).unread = wire b := by
    rw [Conn.take, List.append_assoc, List.take_append_drop, hwire]
  have htaken' : (c.take m).taken = (wire a).length + (got ++ c.unread.take m).length := by
    rw [Conn.take, htaken, List.length_append, add_assoc]
  have hinStep : InStep E (c.take m) := ⟨h.inStep.starts, h.inStep.returned⟩
  cases b with
  | nil =>
    -- nothing came
    obtain ⟨hgot, hunread⟩ := List.append_eq_nil_iff.1 hrest
    have hwaits : readFrame E (got ++ c.unread.take m) = .pending 8 := by
      rw [hgot]
      rfl
    exact .inl ⟨_, _, hmore hwaits, ⟨hinStep, a, [], hframes, htaken', hrest, by simp⟩, rfl⟩
  | cons f fs =>
    have hlt := hpart f fs rfl
    have hbegins : ∀ part, part <+: wire (f :: fs) → part.length ≤ f.bytes.length → part <+: f.bytes :=
      fun part hp hl => List.prefix_of_prefix_length_le hp ⟨wire fs, rfl⟩ hl
    have hbound : (got ++ c.unread.take m).length ≤ f.bytes.length := by
      have hwants := wants_le (E := E) (hbegins got ⟨c.unread, hwire⟩ hlt.le) hlt
      rw [List.length_append, List.length_take]
      omega
    have hgot := hbegins _ ⟨_, hrest⟩ hbound
    rcases hbound.lt_or_eq with hless | hwhole
    · obtain ⟨k, hk⟩ := pending_of_lt hgot hless
      refine .inl ⟨_, _, hmore hk, ⟨hinStep, a, f :: fs, hframes, htaken', hrest, ?_⟩, rfl⟩
      intro g gs hb
      cases hb
      exact hless
    · -- the frame is whole: the next read begins after it
      have hsame : got ++ c.unread.take m = f.bytes := hgot.eq_of_length hwhole
      refine .inr ⟨_, _, _, hframe (hsame ▸ ready_of_whole f), ⟨⟨h.inStep.starts, fun r hr => ?_⟩, ?_⟩, rfl⟩
      · rcases List.mem_append.1 hr with hr | hr
        · exact h.inStep.returned r hr
        · refine ⟨a, f, fs, hframes, ?_, ?_⟩
          · rw [List.mem_singleton.1 hr, htaken', Nat.add_sub_cancel]
          · rw [List.mem_singleton.1 hr]
      · have hunread : (c.take m).unread = wire fs := by
          rw [hsame, wire_cons] at hrest
          exact List.append_cancel_left hrest
        refine ⟨a ++ [f], fs, ?_, ?_, hunread, ?_⟩
        · rw [List.append_assoc]
          exact hframes
        · have hone : wire [f] = f.bytes := List.append_nil _
          rw [wire_append, hone, List.length_nil, add_zero]
          rw [hsame] at htaken'
          exact htaken'.trans List.length_append.symm
        · intro g gs _
          exact lt_of_lt_of_le (by norm_num) g.eight_le

/-! ## Every run -/

/-- where the connections stand: a read under way is within its frame, and one that a timeout cut is left there -/
structure Inv (E : Env) (s : St) : Prop where
  dropped : ∀ c ∈ s.dropped, InStep E c
  free : s.phase = .free → ∀ c, s.conn = some c → InStep E c ∧ (c.cut = false → Reading E c []) ∧
    (c.cut = true → WithinFrame c)
  connecting : ∀ c got call, s.phase = .connecting c got call → s.conn = none ∧ Reading E c got ∧ c.cut = false
  sending : ∀ got nonce request call second, s.phase = .sending got nonce request call second →
    ∃ c, s.conn = some c ∧ Reading E c got ∧ c.cut = false

theorem inv_init (E : Env) : Inv E .init := ⟨by simp [St.init], by simp [St.init], by simp [St.init], by simp [St.init]⟩

/-- the lock is free again; what is kept of the connection -/
theorem inv_free {s : St} (hdropped : ∀ c ∈ s.dropped, InStep E c) (hphase : s.phase = .free)
    (hconn : ∀ c, s.conn = some c → InStep E c ∧ (c.cut = false → Reading E c []) ∧ (c.cut = true → WithinFrame c)) :
    Inv E s where
  dropped := hdropped
  free _ := hconn
  connecting c got call h := by
    rw [hphase] at h
    cases h
  sending got nonce request call second h := by
    rw [hphase] at h
    cases h

theorem inv_connecting {s : St} {got : List UInt8} {call : Call} (hdropped : ∀ c ∈ s.dropped, InStep E c)
    (hphase : s.phase = .connecting c got call) (hnone : s.conn = none) (hread : Reading E c got)
    (hcut : c.cut = false) : Inv E s where
  dropped := hdropped
  free h := by
    rw [hphase] at h
    cases h
  connecting c' got' call' h := by
    rw [hphase] at h
    cases h
    exact ⟨hnone, hread, hcut⟩
  sending got nonce request call second h := by
    rw [hphase] at h
    cases h

theorem inv_sending {s : St} {got : List UInt8} {nonce : String} {request : Fields} {call : Call} {second : Bool}
    (hdropped : ∀ c ∈ s.dropped, InStep E c) (hphase : s.phase = .sending got nonce request call second)
    (hsome : s.conn = some c) (hread : Reading E c got) (hcut : c.cut = false) : Inv E s where
  dropped := hdropped
  free h := by
    rw [hphase] at h
    cases h
  connecting c' got' call' h := by
    rw [hphase] at h
    cases h
  sending got' nonce' request' call' second' h := by
    rw [hphase] at h
    cases h
    exact ⟨c, hsome, hread, hcut⟩

theorem conclude_conn (s : St) (call : Call) (second : Bool) (reply : Option Json) :
    (conclude E s call second reply).conn = s.conn ∧ (conclude E s call second reply).dropped = s.dropped ∧
      (conclude E s call second reply).phase = .free ∧ (conclude E s call second reply).exchanges = s.exchanges := by
  cases call <;> exact ⟨rfl, rfl, rfl, rfl⟩

theorem noConnection_conn (s : St) (call : Call) : (noConnection s call).conn = s.conn ∧
    (noConnection s call).dropped = s.dropped ∧ (noConnection s call).phase = .free ∧
      (noConnection s call).exchanges = s.exchanges := by
  cases call <;> exact ⟨rfl, rfl, rfl, rfl⟩

/-- a call ends -/
theorem inv_conclude {s : St} {call : Call} {second : Bool} {reply : Option Json}
    (hdropped : ∀ c ∈ s.dropped, InStep E c)
    (hconn : ∀ c, s.conn = some c → InStep E c ∧ (c.cut = false → Reading E c []) ∧ (c.cut = true → WithinFrame c)) :
    Inv E (conclude E s call second reply) := by
  obtain ⟨h1, h2, h3, -⟩ := conclude_conn (E := E) s call second reply
  apply inv_free
  · rwa [h2]
  · exact h3
  · rwa [h1]

theorem inv_noConnection {s : St} {call : Call} (hdropped : ∀ c ∈ s.dropped, InStep E c) (hconn : s.conn = none) :
    Inv E (noConnection s call) := by
  obtain ⟨h1, h2, h3, -⟩ := noConnection_conn s call
  apply inv_free
  · rwa [h2]
  · exact h3
  · rw [h1, hconn]
    simp

/-- a request on a connection whose next bytes are a frame's -/
theorem inv_send {s : St} {call : Call} {second wrote : Bool} (hdropped : ∀ c ∈ s.dropped, InStep E c)
    (hconn : ∀ c, s.conn = some c → InStep E c ∧ (wrote = true → Reading E c [] ∧ c.cut = false)) :
    Inv E (send E s call second wrote) := by
  unfold send
  cases hc : s.conn with
  | none =>
    apply inv_conclude hdropped
    rw [hc]
    simp
  | some c =>
    obtain ⟨hstep, hread⟩ := hconn c hc
    dsimp only
    cases wrote with
    | true =>
      obtain ⟨hread, hcut⟩ := hread rfl
      exact inv_sending hdropped rfl rfl (hread.write opFrame _).startRead hcut
    | false =>
      apply inv_conclude
      · exact List.forall_mem_append.2 ⟨hdropped, List.forall_mem_singleton.2 hstep⟩
      · simp

theorem inv_answered {s : St} {call : Call} {second wrote : Bool} {reply : Option Json}
    (hdropped : ∀ c ∈ s.dropped, InStep E c)
    (hconn : ∀ c, s.conn = some c → InStep E c ∧ (c.cut = false → Reading E c []) ∧ (c.cut = true → WithinFrame c))
    (hreply : reply.isSome → ∀ c, s.conn = some c → c.cut = false) : Inv E (answered E s call second reply wrote) := by
  unfold answered
  cases call with
  | clearPresence => exact inv_conclude hdropped hconn
  | setPresence p =>
    dsimp only
    split_ifs with hretry
    · have hsome : reply.isSome := by
        cases reply with
        | none => simp [isError] at hretry
        | some r => rfl
      refine inv_send hdropped fun c hc => ⟨(hconn c hc).1, fun _ => ?_⟩
      exact ⟨(hconn c hc).2.1 (hreply hsome c hc), hreply hsome c hc⟩
    · exact inv_conclude hdropped hconn

/-- between two frames, not cut -/
theorem rest_of_reading (h : Reading E c []) (hcut : c.cut = false) :
    InStep E c ∧ (c.cut = false → Reading E c []) ∧ (c.cut = true → WithinFrame c) :=
  ⟨h.inStep, fun _ => h, fun hc => by rw [hcut] at hc; cases hc⟩

theorem inv_connectRead {s : St} {call : Call} {wrote : Bool} {got : List UInt8} (n : ℕ)
    (hdropped : ∀ c ∈ s.dropped, InStep E c) (hnone : s.conn = none) (hread : Reading E c got) (hcut : c.cut = false) :
    Inv E (connectRead E s call wrote (advance E c got n)) := by
  rcases hread.advance n with ⟨c', got', heq, hread', hcut'⟩ | ⟨c', op, payload, heq, hread', hcut'⟩
  · rw [heq]
    exact inv_connecting hdropped rfl hnone hread' (hcut'.trans hcut)
  · rw [heq, connectRead]
    split_ifs
    · exact inv_connecting hdropped rfl hnone hread'.startRead (hcut'.trans hcut)
    · apply inv_send
      · exact hdropped
      · intro c'' hc
        cases hc
        exact ⟨hread'.inStep, fun _ => ⟨hread', hcut'.trans hcut⟩⟩
    · exact inv_connecting hdropped rfl hnone hread'.startRead (hcut'.trans hcut)

theorem inv_sendRead {s : St} {nonce : String} {request : Fields} {call : Call} {second wrote : Bool} {got : List UInt8}
    (n : ℕ) (hdropped : ∀ c ∈ s.dropped, InStep E c) (hread : Reading E c got) (hcut : c.cut = false) :
    Inv E (sendRead E s nonce request call second wrote (advance E c got n)) := by
  rcases hread.advance n with ⟨c', got', heq, hread', hcut'⟩ | ⟨c', op, payload, heq, hread', hcut'⟩
  · rw [heq]
    exact inv_sending hdropped rfl rfl hread' (hcut'.trans hcut)
  · rw [heq, sendRead]
    split_ifs
    · exact inv_sending hdropped rfl rfl hread'.startRead (hcut'.trans hcut)
    · apply inv_answered
      · exact hdropped
      · intro c'' hc
        cases hc
        exact rest_of_reading hread' (hcut'.trans hcut)
      · intro _ c'' hc
        cases hc
        exact hcut'.trans hcut
    · exact inv_sending hdropped rfl rfl hread'.startRead (hcut'.trans hcut)

/-- a read that took a part of a frame is left within it -/
theorem Reading.withinFrame (h : Reading E c got) (hgot : got ≠ []) : WithinFrame c := by
  obtain ⟨a, b, hframes, htaken, hwire, hpart⟩ := h.position
  have hpos : 0 < got.length := List.length_pos_iff.2 hgot
  cases b with
  | nil => exact absurd (List.append_eq_nil_iff.1 hwire).1 hgot
  | cons f fs =>
    have hlt := hpart f fs rfl
    exact ⟨a, f, fs, hframes, by omega, by omega⟩

/-- a timeout leaves the connection where the read was -/
theorem rest_of_timeout (h : Reading E c got) (hcut : c.cut = false) :
    InStep E { c with cut := c.cut || !got.isEmpty } ∧
      ((c.cut || !got.isEmpty) = false → Reading E { c with cut := c.cut || !got.isEmpty } []) ∧
      ((c.cut || !got.isEmpty) = true → WithinFrame { c with cut := c.cut || !got.isEmpty }) := by
  have hstep : InStep E { c with cut := c.cut || !got.isEmpty } := ⟨h.inStep.starts, h.inStep.returned⟩
  refine ⟨hstep, fun hno => ?_, fun hyes => ?_⟩
  · have hgot : got = [] := by simpa [hcut] using hno
    subst hgot
    exact ⟨hstep, h.position⟩
  · have hgot : got ≠ [] := by simpa [hcut] using hyes
    exact h.withinFrame hgot

/-- **One step.** -/
theorem inv_step {s : St} (h : Inv E s) (op : Op) (hop : NotCut s op) : Inv E (step E s op) := by
  have hdrop : ∀ c, InStep E c → ∀ c' ∈ s.dropped ++ [c], InStep E c' := fun c hc =>
    List.forall_mem_append.2 ⟨h.dropped, List.forall_mem_singleton.2 hc⟩
  have hkept : ∀ s' : St, s'.conn = none → s'.phase = .free → s'.dropped = s.dropped ++ s.conn.toList →
      (∀ c, s.conn = some c → InStep E c) → Inv E s' := by
    intro s' hconn hphase hdropped hstep
    apply inv_free _ hphase (by simp [hconn])
    rw [hdropped]
    refine List.forall_mem_append.2 ⟨h.dropped, fun c hc => hstep c (Option.mem_toList.1 hc)⟩
  cases op with
  | call call opened wrote =>
    cases hphase : s.phase with
    | connecting => simpa only [step, hphase] using h
    | sending => simpa only [step, hphase] using h
    | free =>
      simp only [step, hphase]
      cases hc : s.conn with
      | some c =>
        dsimp only
        apply inv_send h.dropped
        intro c' hc'
        obtain ⟨hstep, hread, -⟩ := h.free hphase c' hc'
        refine ⟨hstep, ?_⟩
        rintro rfl
        have hcut := hop call opened rfl c' hphase hc'
        exact ⟨hread hcut, hcut⟩
      | none =>
        dsimp only
        split_ifs
        · exact inv_connecting h.dropped rfl rfl ((reading_new E).write opHandshake _).startRead rfl
        · exact inv_noConnection h.dropped hc
  | peer f =>
    cases hphase : s.phase with
    | connecting c got call =>
      obtain ⟨hnone, hread, hcut⟩ := h.connecting c got call hphase
      simp only [step, hphase]
      exact inv_connecting h.dropped rfl hnone (hread.receive f) hcut
    | sending got nonce request call second =>
      obtain ⟨c, hc, hread, hcut⟩ := h.sending got nonce request call second hphase
      simp only [step, hphase, hc]
      exact inv_sending h.dropped rfl rfl (hread.receive f) hcut
    | free =>
      simp only [step, hphase]
      refine inv_free h.dropped rfl fun c' hc' => ?_
      obtain ⟨c, hc, rfl⟩ := Option.map_eq_some_iff.1 hc'
      obtain ⟨hstep, hread, hwithin⟩ := h.free hphase c hc
      exact ⟨inStep_receive hstep f, fun hcut => (hread hcut).receive f, fun hcut => (hwithin hcut).receive f⟩
  | take n wrote =>
    cases hphase : s.phase with
    | connecting c got call =>
      obtain ⟨hnone, hread, hcut⟩ := h.connecting c got call hphase
      simp only [step, hphase]
      exact inv_connectRead n h.dropped hnone hread hcut
    | sending got nonce request call second =>
      obtain ⟨c, hc, hread, hcut⟩ := h.sending got nonce request call second hphase
      simp only [step, hphase, hc]
      exact inv_sendRead n h.dropped hread hcut
    | free => simpa only [step, hphase] using h
  | timeout =>
    cases hphase : s.phase with
    | connecting c got call =>
      obtain ⟨hnone, hread, -⟩ := h.connecting c got call hphase
      simp only [step, hphase]
      exact inv_noConnection (hdrop c hread.inStep) hnone
    | sending got nonce request call second =>
      obtain ⟨c, hc, hread, hcut⟩ := h.sending got nonce request call second hphase
      simp only [step, hphase, hc]
      apply inv_answered
      · exact h.dropped
      · intro c' hc'
        cases hc'
        exact rest_of_timeout hread hcut
      · intro hsome
        cases hsome
    | free => simpa only [step, hphase] using h
  | readFails =>
    cases hphase : s.phase with
    | connecting c got call =>
      obtain ⟨hnone, hread, -⟩ := h.connecting c got call hphase
      simp only [step, hphase]
      exact inv_noConnection (hdrop c hread.inStep) hnone
    | sending got nonce request call second =>
      obtain ⟨c, hc, hread, hcut⟩ := h.sending got nonce request call second hphase
      simp only [step, hphase, hc]
      apply inv_conclude
      · exact hdrop c hread.inStep
      · simp
    | free => simpa only [step, hphase] using h
  | ping wrote =>
    cases hphase : s.phase with
    | connecting => simpa only [step, hphase] using h
    | sending => simpa only [step, hphase] using h
    | free =>
      simp only [step, hphase]
      split_ifs
      · refine inv_free h.dropped rfl fun c' hc' => ?_
        obtain ⟨c, hc, rfl⟩ := Option.map_eq_some_iff.1 hc'
        obtain ⟨hstep, hread, hwithin⟩ := h.free hphase c hc
        exact ⟨inStep_write hstep opPing _, fun hcut => (hread hcut).write opPing _, hwithin⟩
      · exact hkept _ rfl rfl rfl fun c hc => (h.free hphase c hc).1
  | shutdown =>
    cases hphase : s.phase with
    | connecting => simpa only [step, hphase] using h
    | sending => simpa only [step, hphase] using h
    | free =>
      simp only [step, hphase]
      exact hkept _ rfl rfl rfl fun c hc => (h.free hphase c hc).1

theorem inv_inStep {s : St} (h : Inv E s) : AllInStep E s := by
  intro c hc
  rw [St.conns, List.mem_append, List.mem_append] at hc
  rcases hc with (hc | hc) | hc
  · exact h.dropped c hc
  · have hsome : s.conn = some c := Option.mem_toList.1 hc
    cases hphase : s.phase with
    | free => exact (h.free hphase c hsome).1
    | connecting c' got call =>
      rw [(h.connecting c' got call hphase).1] at hsome
      cases hsome
    | sending got nonce request call second =>
      obtain ⟨c', hc', hread, -⟩ := h.sending got nonce request call second hphase
      rw [hsome] at hc'
      cases hc'
      exact hread.inStep
  · cases hphase : s.phase with
    | connecting c' got call =>
      rw [hphase] at hc
      rw [List.mem_singleton.1 hc]
      exact (h.connecting c' got call hphase).2.1.inStep
    | free =>
      rw [hphase] at hc
      cases hc
    | sending =>
      rw [hphase] at hc
      cases hc

/-- **A call on a connection that was cut reads within a frame.** -/
theorem cut_out_of_step {s : St} (h : Inv E s) {op : Op} (hop : ¬NotCut s op) : ¬AllInStep E (step E s op) := by
  unfold NotCut at hop
  push Not at hop
  obtain ⟨call, opened, rfl, c, hphase, hc, hcut⟩ := hop
  have hwithin : WithinFrame c := (h.free hphase c hc).2.2 (by simpa using hcut)
  intro hall
  have hstep : step E s (.call call opened true) = send E s call false true := by
    simp only [step, hphase, hc]
  obtain ⟨request, hconn⟩ :
      ∃ request, (send E s call false true).conn = some (startRead (write E c opFrame request)) := by
    simp only [send, hc, if_true]
    exact ⟨_, rfl⟩
  have hwritten : WithinFrame (write E c opFrame request) := hwithin
  refine startRead_withinFrame hwritten (hall _ ?_)
  rw [hstep, St.conns, hconn]
  exact List.mem_append_left _ (List.mem_append_right _ (List.mem_singleton.2 rfl))

/-- the reads of every state of a run keep to the frames exactly when its steps meet the condition -/
theorem inStep_iff_meets {s : St} (h : Inv E s) (ops : List Op) :
    (∀ before, before <+: ops → AllInStep E (run (step E) s before)) ↔ Meets (step E) NotCut s ops := by
  induction ops generalizing s with
  | nil =>
    refine ⟨fun _ => trivial, fun _ before hb => ?_⟩
    rw [List.prefix_nil.1 hb]
    exact inv_inStep h
  | cons op ops ih =>
    constructor
    · intro hall
      have hop : NotCut s op := by
        by_contra hno
        exact cut_out_of_step h hno (hall [op] (by simp))
      exact ⟨hop, (ih (inv_step h op hop)).1 fun before hb => hall (op :: before) (List.cons_prefix_cons.2 ⟨rfl, hb⟩)⟩
    · rintro ⟨hop, hrest⟩ before hb
      cases before with
      | nil => exact inv_inStep h
      | cons op' before =>
        obtain ⟨rfl, hbefore⟩ := List.cons_prefix_cons.1 hb
        exact (ih (inv_step h op' hop)).2 hrest before hbefore

/-! ## Replies -/

/-- every reply that a send returned carries the nonce of its request -/
def Answers (s : St) : Prop :=
  ∀ e ∈ s.exchanges, ∃ nonce, Assoc.get? "nonce" e.request = some (.str nonce) ∧
    (e.reply.get? "nonce").bind Json.asStr = some nonce

/-- a request under way carries its nonce -/
structure Matched (s : St) : Prop where
  sending : ∀ got nonce request call second, s.phase = .sending got nonce request call second →
    Assoc.get? "nonce" request = some (.str nonce)
  answers : Answers s

theorem matched_of_phase {s : St} (h : Answers s)
    (hphase : ∀ got nonce request call second, s.phase ≠ .sending got nonce request call second) : Matched s :=
  ⟨fun got nonce request call second hs => absurd hs (hphase got nonce request call second), h⟩

theorem matched_conclude {s : St} (h : Answers s) (call : Call) (second : Bool) (reply : Option Json) :
    Matched (conclude E s call second reply) := by
  obtain ⟨-, -, hphase, hexchanges⟩ := conclude_conn (E := E) s call second reply
  apply matched_of_phase
  · intro e he
    rw [hexchanges] at he
    exact h e he
  · simp [hphase]

theorem matched_noConnection {s : St} (h : Answers s) (call : Call) : Matched (noConnection s call) := by
  obtain ⟨-, -, hphase, hexchanges⟩ := noConnection_conn s call
  apply matched_of_phase
  · intro e he
    rw [hexchanges] at he
    exact h e he
  · simp [hphase]

theorem matched_send {s : St} (h : Answers s) (call : Call) (second wrote : Bool) :
    Matched (send E s call second wrote) := by
  unfold send
  cases s.conn with
  | none => exact matched_conclude h call second none
  | some c =>
    dsimp only
    cases wrote with
    | true =>
      refine ⟨fun got nonce request call' second' hs => ?_, h⟩
      cases hs
      rw [Assoc.get?_insert, if_pos rfl]
    | false =>
      apply matched_conclude
      exact h

theorem matched_answered {s : St} (h : Answers s) (call : Call) (second wrote : Bool) (reply : Option Json) :
    Matched (answered E s call second reply wrote) := by
  unfold answered
  cases call with
  | clearPresence => exact matched_conclude h _ _ _
  | setPresence p =>
    dsimp only
    split_ifs
    · exact matched_send h _ _ _
    · exact matched_conclude h _ _ _

theorem matched_connectRead {s : St} (h : Answers s) (call : Call) (wrote : Bool) (p : Progress) :
    Matched (connectRead E s call wrote p) := by
  cases p with
  | more c got => exact matched_of_phase h (by simp [connectRead])
  | failed c =>
    apply matched_noConnection
    exact h
  | frame c op payload =>
    rw [connectRead]
    split_ifs
    · exact matched_of_phase h (by simp)
    · apply matched_send
      exact h
    · exact matched_of_phase h (by simp)

theorem matched_sendRead {s : St} (h : Answers s) {nonce : String} {request : Fields}
    (hrequest : Assoc.get? "nonce" request = some (.str nonce)) (call : Call) (second wrote : Bool) (p : Progress) :
    Matched (sendRead E s nonce request call second wrote p) := by
  have hwaits : ∀ s' : St, Answers s' → (∃ got, s'.phase = .sending got nonce request call second) → Matched s' := by
    rintro s' h' ⟨got, hphase⟩
    refine ⟨fun got' nonce' request' call' second' hs => ?_, h'⟩
    rw [hphase] at hs
    cases hs
    exact hrequest
  cases p with
  | more c got => exact hwaits _ h ⟨got, rfl⟩
  | failed c =>
    apply matched_conclude
    exact h
  | frame c op payload =>
    rw [sendRead]
    split_ifs with _ hnonce
    · exact hwaits _ h ⟨[], rfl⟩
    · apply matched_answered
      exact List.forall_mem_append.2 ⟨h, List.forall_mem_singleton.2 ⟨nonce, hrequest, hnonce⟩⟩
    · exact hwaits _ h ⟨[], rfl⟩

theorem matched_step {s : St} (h : Matched s) (op : Op) : Matched (step E s op) := by
  cases hphase : s.phase with
  | free =>
    cases op with
    | call call opened wrote =>
      simp only [step, hphase]
      cases s.conn with
      | some c => exact matched_send h.answers _ _ _
      | none =>
        dsimp only
        split_ifs
        · exact matched_of_phase h.answers (by simp)
        · exact matched_noConnection h.answers _
    | ping wrote =>
      simp only [step, hphase]
      split_ifs
      · exact matched_of_phase h.answers (by simp)
      · exact matched_of_phase h.answers (by simp)
    | peer f =>
      simp only [step, hphase]
      exact matched_of_phase h.answers (by simp)
    | shutdown =>
      simp only [step, hphase]
      exact matched_of_phase h.answers (by simp)
    | take | timeout | readFails => simpa only [step, hphase] using h
  | connecting c got call =>
    cases op with
    | peer f =>
      simp only [step, hphase]
      exact matched_of_phase h.answers (by simp)
    | take n wrote =>
      simp only [step, hphase]
      exact matched_connectRead h.answers _ _ _
    | timeout | readFails =>
      simp only [step, hphase]
      apply matched_noConnection
      exact h.answers
    | call | ping | shutdown => simpa only [step, hphase] using h
  | sending got nonce request call second =>
    have hrequest := h.sending got nonce request call second hphase
    cases op with
    | peer f =>
      refine ⟨fun got' nonce' request' call' second' hs => ?_, ?_⟩
      · simp only [step, hphase] at hs
        cases hs
        exact hrequest
      · simp only [step, hphase]
        exact h.answers
    | take n wrote =>
      cases hc : s.conn with
      | none => simpa only [step, hphase, hc] using h
      | some c =>
        simp only [step, hphase, hc]
        exact matched_sendRead h.answers hrequest _ _ _ _
    | timeout =>
      simp only [step, hphase]
      apply matched_answered
      exact h.answers
    | readFails =>
      simp only [step, hphase]
      apply matched_conclude
      exact h.answers
    | call | ping | shutdown => simpa only [step, hphase] using h

theorem matched_init : Matched .init := matched_of_phase (by simp [Answers, St.init]) (by simp [St.init])

/-! ## All together -/

/-- a frame that was encoded is read back when all of it came, and the read waits before -/
theorem readFrame_encodeFrame (E : Env) (op : UInt32) (payload : Json)
    (hsmall : (utf8 (E.text payload)).length ≤ maxFrame) :
    readFrame E (encodeFrame E op payload) = .ready op (decodeBody E (utf8 (E.text payload))) ∧
      ∀ part, part <+: encodeFrame E op payload → part ≠ encodeFrame E op payload →
        ∃ n, readFrame E part = .pending n := by
  refine ⟨ready_of_whole (E := E) ⟨op, _, hsmall⟩, fun part hpart hne => ?_⟩
  refine pending_of_lt (f := ⟨op, _, hsmall⟩) hpart (lt_of_le_of_ne hpart.length_le fun hlen => hne ?_)
  exact hpart.eq_of_length hlen

/-- **When the reads keep to the frames.** In every state of a run each read began at the first byte of a frame and
returned that frame, exactly when no call sends on a connection on which a timeout left a part of a frame. A send
returns only a reply with the nonce of its request, in every run. A frame that was encoded is read back, whole and not
before, as what the JSON library makes of its own text. -/
theorem in_step_iff (E : Env) (ops : List Op) :
    ((∀ before, before <+: ops → AllInStep E (run (step E) .init before)) ↔ Meets (step E) NotCut .init ops) ∧
    Answers (run (step E) .init ops) ∧
    ∀ op payload, (utf8 (E.text payload)).length ≤ maxFrame →
      (readFrame E (encodeFrame E op payload) = .ready op payload ↔ decodeBody E (utf8 (E.text payload)) = payload) ∧
      ∀ part, part <+: encodeFrame E op payload → part ≠ encodeFrame E op payload →
        ∃ n, readFrame E part = .pending n := by
  have hmatched : Matched (run (step E) .init ops) :=
    run_preserves (step E) (I := Matched) (fun _ op h => matched_step h op) ops matched_init
  refine ⟨inStep_iff_meets (inv_init E) ops, hmatched.answers, fun op payload hsmall => ?_⟩
  obtain ⟨hwhole, hpart⟩ := readFrame_encodeFrame E op payload hsmall
  refine ⟨?_, hpart⟩
  rw [hwhole]
  constructor
  · intro h
    injection h
  · intro h
    rw [h]

/-! ## A reply that is late -/

def readyText : String := "\x7b\"cmd\":\"DISPATCH\",\"evt\":\"READY\"\x7d"

def replyText : String := "\x7b\"cmd\":\"SET_ACTIVITY\",\"nonce\":\"0\",\"data\":null\x7d"

/-- the engine of process 7, on the texts of one run -/
def sampleEnv : Env where
  text v :=
    match v.get? "nonce" with
    | some (.str nonce) =>
      "\x7b\"cmd\":\"SET_ACTIVITY\",\"args\":\x7b\"pid\":7,\"activity\":null\x7d,\"nonce\":\"" ++ nonce ++ "\"\x7d"
    | _ => "\x7b\"v\":1,\"client_id\":\"1535246763856760874\"\x7d"
  fromSlice bytes :=
    if bytes = utf8 readyText then some (.obj [("cmd", .str "DISPATCH"), ("evt", .str "READY")])
    else if bytes = utf8 replyText then
      some (.obj [("cmd", .str "SET_ACTIVITY"), ("nonce", .str "0"), ("data", .null)])
    else none
  pid := 7
  clientId := "1535246763856760874"

def readyFrame : Frame := ⟨opFrame, utf8 readyText, by decide⟩

def replyFrame : Frame := ⟨opFrame, utf8 replyText, by decide⟩

/-- the header of the reply comes, the timeout fires, and the presence is cleared again -/
def cutRun : List Op :=
  [.call .clearPresence true true, .peer readyFrame, .take 8 true, .take 32 true, .peer replyFrame, .take 8 true,
    .timeout, .call .clearPresence false true]

/-- **The second call reads from within the first reply.** -/
theorem reply_cut : ¬AllInStep sampleEnv (run (step sampleEnv) .init cutRun) := by
  obtain ⟨c, hc, hframes, htaken⟩ : ∃ c, (run (step sampleEnv) .init cutRun).conn = some (startRead c) ∧
      c.frames = [readyFrame] ++ replyFrame :: [] ∧ c.taken = 48 := ⟨_, rfl, rfl, rfl⟩
  have hwithin : WithinFrame c := by
    refine ⟨[readyFrame], replyFrame, [], hframes, ?_, ?_⟩
    · rw [htaken]
      decide
    · rw [htaken]
      decide
  refine fun hall => startRead_withinFrame hwithin (hall _ ?_)
  rw [St.conns, hc]
  exact List.mem_append_left _ (List.mem_append_right _ (List.mem_singleton.2 rfl))

end EspectralClient.DiscordIpc
