/-
The framing of the MCP shim (`native/engine/src/mcp.rs`): which messages a stream on stdin is read as.

The stream alone decides the lines: each is one message, whatever its length, and a rest without a line end is one line
more, or is refused as too large. But the shim looks at the size whenever its reader hands out a piece, so a long line is
refused in the middle when a piece ends after `MAX_FRAME_BYTES` of it, and what follows in the line is read as messages of
its own.

- `linesOf`: the messages of the stream; `Answered`: what each is owed.
- `frames_fits`, `frames_cut`: the frames read are the lines of the stream when no piece ends too late in a line, and
  otherwise one is refused with bytes after it.
- `chunking_independent`: the session is that of the stream, every message answered as owed, exactly when no piece ends
  too late in a line and no tool call of a request with a null id panics.
- `smuggled_request`: a line of spaces and one request, cut in two, is refused and yet the request is handled.
-/
import EspectralClient.Engine.McpShim
import EspectralClient.Lib.Records

namespace EspectralClient.McpShim

open Lib

/-! ## What a stream says -/

/-- the frame of what no line end follows -/
def lastLine (rest : List UInt8) : List Frame :=
  if rest.isEmpty then [] else if rest.length > maxFrameBytes then [.tooLarge] else [.line rest]

/-- The frames of a stream, with `held` of its first line before it: every line with its end, and the rest. -/
def linesFrom (held stream : List UInt8) : List Frame :=
  (records (· == newline) held stream).map .line ++ lastLine (remainder (· == newline) held stream)

def linesOf (stream : List UInt8) : List Frame := linesFrom [] stream

/-- what a line is: nothing, a notification, a request with its id, or malformed with the id it shows, if any -/
inductive Kind where
  | blank
  | notification
  | request (id : Json)
  | malformed (id : Json)

def kindOf (host : Host) (bytes : List UInt8) : Kind :=
  match fromUtf8 bytes with
  | none => .malformed .null
  | some text =>
    if trim text = "" then .blank
    else
      match host.fromStr (trim text) with
      | none => .malformed .null
      | some msg =>
        match (msg.get? "method").bind Json.asStr, msg.get? "id" with
        | none, id => .malformed (id.getD .null)
        | some _, none => .notification
        | some _, some id => .request id

/-- one response with the id of a request, one error for what is malformed, none for a blank line or a notification -/
def Owed : Kind → Option Json → Prop
  | .blank, response => response = none
  | .notification, response => response = none
  | .request id, response => ∃ r, response = some r ∧ r.get? "id" = some id
  | .malformed id, response => ∃ r, response = some r ∧ r.get? "id" = some id ∧ (r.get? "error").isSome

/-- what a frame is owed; one refused as too large is malformed -/
def Answered (host : Host) : Frame → Option Json → Prop
  | .eof, response => response = none
  | .tooLarge, response => Owed (.malformed .null) response
  | .line bytes, response => Owed (kindOf host bytes) response

/-- The session is that of the stream alone, and every message is answered as owed. -/
structure Framed (host : Host) (input : List (List UInt8)) : Prop where
  stream : serve host input = (linesOf input.flatten).mapIdx fun n frame => (frame, respond host n frame)
  answered : ∀ (n : ℕ) (frame : Frame) (response : Option Json),
    (serve host input)[n]? = some (frame, response) → Answered host frame response

/-! ## The conditions -/

/-- No piece that is followed by another ends more than `MAX_FRAME_BYTES` after the last line end; `held` came before. -/
def Fits (held : List UInt8) (input : List (List UInt8)) : Prop :=
  ∀ k < input.length, (remainder (· == newline) held (input.take k).flatten).length ≤ maxFrameBytes

instance (held : List UInt8) (input : List (List UInt8)) : Decidable (Fits held input) :=
  inferInstanceAs (Decidable (∀ k < input.length, _))

/-- the tool call a line makes -/
def asksTool (host : Host) (bytes : List UInt8) : Option (String × IndexMap String Json) :=
  (fromUtf8 bytes).bind fun text => (host.fromStr (trim text)).bind fun msg =>
    if (msg.get? "method").bind Json.asStr = some "tools/call" then (toolCall host (msg.get? "params")).toOption else none

/-- A panic of the call in frame `n` would not go unanswered: the request has an id to answer with. -/
def Kept (host : Host) (n : ℕ) (bytes : List UInt8) : Prop :=
  kindOf host bytes = .request .null →
    ∀ name args, asksTool host bytes = some (name, args) → host.callTool n name args ≠ none

/-! ### Pieces -/

theorem fits_nil (held : List UInt8) : Fits held [] := fun _ hk => absurd hk (Nat.not_lt_zero _)

theorem fits_cons {held avail : List UInt8} {rest : List (List UInt8)} :
    Fits held (avail :: rest) ↔
      held.length ≤ maxFrameBytes ∧ Fits (remainder (· == newline) held avail) rest := by
  constructor
  · intro h
    refine ⟨h 0 (Nat.succ_pos _), ?_⟩
    intro k hk
    rw [← remainder_append]
    exact h (k + 1) (Nat.succ_lt_succ hk)
  · rintro ⟨hheld, h⟩ k hk
    cases k with
    | zero => exact hheld
    | succ k =>
      rw [List.take_succ_cons, List.flatten_cons, remainder_append]
      exact h k (Nat.lt_of_succ_lt_succ hk)

theorem flatten_consume (n : ℕ) (avail : List UInt8) (rest : List (List UInt8)) :
    (consume n avail rest).flatten = avail.drop n ++ rest.flatten := by
  unfold consume
  split
  · next h => rw [List.isEmpty_iff.1 h, List.nil_append]
  · rfl

theorem nonempty_consume {n : ℕ} {avail : List UInt8} {rest : List (List UInt8)} (h : ∀ piece ∈ rest, piece ≠ []) :
    ∀ piece ∈ consume n avail rest, piece ≠ [] := by
  unfold consume
  split
  · exact h
  · next hd =>
    intro piece hp
    rcases List.mem_cons.1 hp with rfl | hp
    · exact fun hc => hd (List.isEmpty_iff.2 hc)
    · exact h piece hp

/-- what follows a line end within a piece starts a line of its own -/
theorem fits_consume {held avail : List UInt8} {rest : List (List UInt8)} {i : ℕ}
    (h : avail.findIdx? (· == newline) = some i) (hheld : held.length ≤ maxFrameBytes) :
    Fits [] (consume (i + 1) avail rest) ↔ Fits held (avail :: rest) := by
  rw [fits_cons, remainder_findIdx h, and_iff_right hheld]
  unfold consume
  split
  · next hd => rw [List.isEmpty_iff.1 hd, remainder_nil]
  · exact fits_cons.trans (and_iff_right (Nat.zero_le _))

/-! ## Frames and lines -/

/-- the frames read, with `buf` of the first line already read -/
def framesFrom (buf : List UInt8) (input : List (List UInt8)) : List Frame :=
  if (readFrame input buf).1 = .eof then []
  else (readFrame input buf).1 :: frames (readFrame input buf).2

theorem frames_eq (input : List (List UInt8)) : frames input = framesFrom [] input := by
  rw [frames, framesFrom]
  split <;> rfl

theorem framesFrom_nil (buf : List UInt8) : framesFrom buf [] = if buf.isEmpty then [] else [.line buf] := by
  have hnil : frames [] = [] := by simp [frames, readFrame]
  by_cases h : buf = []
  · simp [framesFrom, readFrame, h]
  · simp [framesFrom, readFrame, h, hnil]

section Piece

variable {buf avail : List UInt8} {rest : List (List UInt8)} (hne : avail ≠ [])

include hne

theorem framesFrom_line {i : ℕ} (h : avail.findIdx? (· == newline) = some i) :
    framesFrom buf (avail :: rest) =
      .line (buf ++ avail.take (i + 1)) :: framesFrom [] (consume (i + 1) avail rest) := by
  have hread : readFrame (avail :: rest) buf = (.line (buf ++ avail.take (i + 1)), consume (i + 1) avail rest) := by
    simp [readFrame, hne, h]
  rw [framesFrom, hread, if_neg (by simp), frames_eq]

theorem framesFrom_tooLarge (h : avail.findIdx? (· == newline) = none)
    (hlen : maxFrameBytes < (buf ++ avail).length) :
    framesFrom buf (avail :: rest) = .tooLarge :: framesFrom [] rest := by
  have hread : readFrame (avail :: rest) buf = (.tooLarge, rest) := by
    rw [readFrame, if_neg (by simpa using hne), h]
    exact if_pos hlen
  rw [framesFrom, hread, if_neg (by simp), frames_eq]

theorem framesFrom_more (h : avail.findIdx? (· == newline) = none)
    (hlen : (buf ++ avail).length ≤ maxFrameBytes) :
    framesFrom buf (avail :: rest) = framesFrom (buf ++ avail) rest := by
  have hread : readFrame (avail :: rest) buf = readFrame rest (buf ++ avail) := by
    rw [readFrame, if_neg (by simpa using hne), h]
    exact if_neg (not_lt.2 hlen)
  rw [framesFrom, hread, framesFrom]

end Piece

/-- with something to read there is a frame to come -/
theorem framesFrom_ne_nil {input : List (List UInt8)} (hne : ∀ piece ∈ input, piece ≠ []) {buf : List UInt8}
    (h : buf ≠ [] ∨ input ≠ []) : framesFrom buf input ≠ [] := by
  induction input generalizing buf with
  | nil =>
    rcases h with h | h
    · simp [framesFrom_nil, h]
    · exact absurd rfl h
  | cons avail rest ih =>
    have hav := hne avail List.mem_cons_self
    cases hi : avail.findIdx? (· == newline) with
    | some i => simp [framesFrom_line hav hi]
    | none =>
      by_cases hlen : maxFrameBytes < (buf ++ avail).length
      · simp [framesFrom_tooLarge hav hi hlen]
      · rw [framesFrom_more hav hi (not_lt.1 hlen)]
        apply ih fun piece hp => hne piece (List.mem_cons_of_mem _ hp)
        left
        simp [hav]

/-- where no piece ends too late in a line, the frames read are those of the stream -/
theorem frames_fits {input : List (List UInt8)} (hne : ∀ piece ∈ input, piece ≠ []) {held : List UInt8}
    (hheld : held.length ≤ maxFrameBytes) (h : Fits held input) :
    framesFrom held input = linesFrom held input.flatten := by
  induction hn : unread input using Nat.strong_induction_on generalizing held input with
  | _ n ih =>
    subst hn
    cases input with
    | nil =>
      have hlen : ¬ held.length > maxFrameBytes := not_lt.2 hheld
      simp [framesFrom_nil, linesFrom, lastLine, hlen]
    | cons avail rest =>
      have hav := hne avail List.mem_cons_self
      have hrest : ∀ piece ∈ rest, piece ≠ [] := fun piece hp => hne piece (List.mem_cons_of_mem _ hp)
      cases hi : avail.findIdx? (· == newline) with
      | some i =>
        -- the line ends in this piece, and the rest of the piece starts the next
        have hnext := ih _ (unread_consume (Nat.succ_pos i)) (nonempty_consume hrest) (Nat.zero_le _)
          ((fits_consume hi hheld).2 h) rfl
        rw [framesFrom_line hav hi, hnext, flatten_consume, List.flatten_cons]
        unfold linesFrom
        rw [records_append _ held avail, remainder_append _ held avail, records_findIdx hi, remainder_findIdx hi,
          records_append _ [] (avail.drop (i + 1)), remainder_append _ [] (avail.drop (i + 1))]
        rfl
      | none =>
        have hfits := (fits_cons.1 h).2
        have hlines : linesFrom held (avail :: rest).flatten = linesFrom (held ++ avail) rest.flatten := by
          unfold linesFrom
          rw [List.flatten_cons, records_append, remainder_append, records_none hi, remainder_none hi, List.nil_append]
        rw [hlines]
        rw [remainder_none hi] at hfits
        by_cases hlen : maxFrameBytes < (held ++ avail).length
        · -- the line is already too large, so this piece is the last
          cases rest with
          | nil =>
            have hlast : lastLine (held ++ avail) = [.tooLarge] := by
              rw [lastLine, if_neg (by simp [hav]), if_pos hlen]
            rw [framesFrom_tooLarge hav hi hlen, framesFrom_nil, linesFrom]
            simp [hlast]
          | cons next rest => exact absurd (fits_cons.1 hfits).1 (not_le.2 hlen)
        · rw [framesFrom_more hav hi (not_lt.1 hlen)]
          exact ih _ (by rw [unread_cons]; omega) hrest (not_lt.1 hlen) hfits rfl

/-- where a piece ends too late in a line, a frame is refused and more frames come after it -/
theorem frames_cut {input : List (List UInt8)} (hne : ∀ piece ∈ input, piece ≠ []) {held : List UInt8}
    (hheld : held.length ≤ maxFrameBytes) (h : ¬ Fits held input) :
    ∃ before after, after ≠ [] ∧ framesFrom held input = before ++ .tooLarge :: after := by
  induction hn : unread input using Nat.strong_induction_on generalizing held input with
  | _ n ih =>
    subst hn
    cases input with
    | nil => exact absurd (fits_nil held) h
    | cons avail rest =>
      have hav := hne avail List.mem_cons_self
      have hrest : ∀ piece ∈ rest, piece ≠ [] := fun piece hp => hne piece (List.mem_cons_of_mem _ hp)
      cases hi : avail.findIdx? (· == newline) with
      | some i =>
        obtain ⟨before, after, hafter, hnext⟩ := ih _ (unread_consume (Nat.succ_pos i)) (nonempty_consume hrest)
          (Nat.zero_le _) (mt (fits_consume hi hheld).1 h) rfl
        exact ⟨_ :: before, after, hafter, by rw [framesFrom_line hav hi, hnext]; rfl⟩
      | none =>
        have hfits : ¬ Fits (held ++ avail) rest := by
          intro hc
          have hopen : remainder (· == newline) held avail = held ++ avail := remainder_none hi
          rw [← hopen] at hc
          exact h (fits_cons.2 ⟨hheld, hc⟩)
        by_cases hlen : maxFrameBytes < (held ++ avail).length
        · have hr : rest ≠ [] := by
            rintro rfl
            exact hfits (fits_nil _)
          exact ⟨[], framesFrom [] rest, framesFrom_ne_nil hrest (Or.inr hr), framesFrom_tooLarge hav hi hlen⟩
        · obtain ⟨before, after, hafter, hnext⟩ := ih _ (by rw [unread_cons]; omega) hrest (not_lt.1 hlen) hfits rfl
          exact ⟨before, after, hafter, by rw [framesFrom_more hav hi (not_lt.1 hlen), hnext]⟩

/-- a stream's refused frame is its last -/
theorem linesOf_tooLarge {stream : List UInt8} {before after : List Frame}
    (h : linesOf stream = before ++ .tooLarge :: after) : after = [] := by
  by_contra hafter
  have hmem : Frame.tooLarge ∈ (linesOf stream).dropLast := by
    rw [h, List.dropLast_append_of_ne_nil (by simp), List.dropLast_cons_of_ne_nil hafter]
    simp
  have hlines : (linesOf stream).dropLast ⊆ (records (· == newline) [] stream).map Frame.line := by
    unfold linesOf linesFrom lastLine
    split_ifs
    · rw [List.append_nil]
      exact List.dropLast_subset _
    · simp
    · simp
  obtain ⟨bytes, -, hc⟩ := List.mem_map.1 (hlines hmem)
  cases hc

theorem frames_iff {input : List (List UInt8)} (hne : ∀ piece ∈ input, piece ≠ []) :
    frames input = linesOf input.flatten ↔ Fits [] input := by
  rw [frames_eq]
  constructor
  · intro h
    by_contra hf
    obtain ⟨before, after, hafter, hcut⟩ := frames_cut hne (Nat.zero_le _) hf
    exact hafter (linesOf_tooLarge (h.symm.trans hcut))
  · exact frames_fits hne (Nat.zero_le _)

/-! ## Responses -/

theorem get?_errorResponse (id : Json) (code : ℤ) (message : String) :
    (errorResponse id code message).get? "id" = some id ∧ ((errorResponse id code message).get? "error").isSome :=
  ⟨rfl, rfl⟩

theorem get?_resultResponse (id result : Json) : (resultResponse id result).get? "id" = some id := rfl

/-- a request is answered with its id, unless its tool call panics -/
theorem handleMessage_request (host : Host) (n : ℕ) {msg id : Json} {method : String}
    (hmethod : (msg.get? "method").bind Json.asStr = some method) (hid : msg.get? "id" = some id) :
    (∃ r, handleMessage host n msg = some (some r) ∧ r.get? "id" = some id) ∨
      (handleMessage host n msg = none ∧ method = "tools/call" ∧
        ∃ name args, toolCall host (msg.get? "params") = .ok (name, args) ∧ host.callTool n name args = none) := by
  unfold handleMessage
  unfold Json.get? at hmethod hid ⊢
  cases hobj : msg.asObject with
  | none => simp [hobj] at hid
  | some obj =>
    simp only [hobj, Option.bind_some] at hmethod hid ⊢
    simp only [hmethod, hid, Option.getD_some, Option.isNone_some, Bool.false_eq_true, if_false]
    split
    · exact Or.inl ⟨_, rfl, get?_resultResponse _ _⟩
    · exact Or.inl ⟨_, rfl, get?_resultResponse _ _⟩
    · exact Or.inl ⟨_, rfl, get?_resultResponse _ _⟩
    · cases hcall : toolCall host (obj.get? "params") with
      | error e => exact Or.inl ⟨_, rfl, (get?_errorResponse _ _ _).1⟩
      | ok call =>
        cases hresult : host.callTool n call.1 call.2 with
        | none => exact Or.inr ⟨by simp [hresult], rfl, call.1, call.2, rfl, hresult⟩
        | some result => exact Or.inl ⟨_, by simp [hresult]; rfl, get?_resultResponse _ _⟩
    · exact Or.inl ⟨_, rfl, (get?_errorResponse _ _ _).1⟩

theorem handleMessage_panics (host : Host) (n : ℕ) {msg id : Json} {name : String} {args : IndexMap String Json}
    (hmethod : (msg.get? "method").bind Json.asStr = some "tools/call") (hid : msg.get? "id" = some id)
    (hcall : toolCall host (msg.get? "params") = .ok (name, args)) (hpanic : host.callTool n name args = none) :
    handleMessage host n msg = none := by
  rcases handleMessage_request host n hmethod hid with ⟨r, hr, -⟩ | ⟨hnone, -⟩
  · unfold handleMessage at hr
    unfold Json.get? at hmethod hid hcall
    cases hobj : msg.asObject with
    | none => simp [hobj] at hid
    | some obj =>
      simp only [hobj, Option.bind_some] at hmethod hid hcall hr
      simp [hmethod, hid, hcall, hpanic] at hr
  · exact hnone

theorem handleMessage_notification (host : Host) (n : ℕ) {msg : Json} {method : String}
    (hmethod : (msg.get? "method").bind Json.asStr = some method) (hid : msg.get? "id" = none) :
    handleMessage host n msg = some none := by
  unfold handleMessage
  unfold Json.get? at hmethod hid
  cases hobj : msg.asObject with
  | none => simp [hobj] at hmethod
  | some obj =>
    simp only [hobj, Option.bind_some] at hmethod hid
    simp [hmethod, hid]

theorem handleMessage_malformed (host : Host) (n : ℕ) {msg : Json}
    (hmethod : (msg.get? "method").bind Json.asStr = none) :
    ∃ r, handleMessage host n msg = some (some r) ∧ r.get? "id" = some ((msg.get? "id").getD .null) ∧
      (r.get? "error").isSome := by
  unfold handleMessage
  unfold Json.get? at hmethod
  cases hobj : msg.asObject with
  | none =>
    refine ⟨_, rfl, ?_, (get?_errorResponse _ _ _).2⟩
    rw [(get?_errorResponse _ _ _).1, Json.get?, hobj]
    rfl
  | some obj =>
    simp only [hobj, Option.bind_some] at hmethod
    simp only [hmethod]
    refine ⟨_, rfl, ?_, (get?_errorResponse _ _ _).2⟩
    rw [(get?_errorResponse _ _ _).1]
    simp [Json.get?, hobj]

theorem owed_parseError (message : String) :
    Owed (.malformed .null) (some (errorResponse .null (-32700) message)) :=
  ⟨_, rfl, get?_errorResponse _ _ _⟩

/-- a request is answered as owed unless its call panics and it has no id to answer with -/
theorem request_owed_iff (host : Host) (n : ℕ) {bytes : List UInt8} {text : String} {msg id : Json} {method : String}
    (htext : fromUtf8 bytes = some text) (hblank : trim text ≠ "") (hmsg : host.fromStr (trim text) = some msg)
    (hmethod : (msg.get? "method").bind Json.asStr = some method) (hid : msg.get? "id" = some id) :
    Owed (.request id) (respond host n (.line bytes)) ↔
      (id = .null → ∀ name args, asksTool host bytes = some (name, args) → host.callTool n name args ≠ none) := by
  have hasks : asksTool host bytes =
      if method = "tools/call" then (toolCall host (msg.get? "params")).toOption else none := by
    simp [asksTool, htext, hmsg, hmethod]
  have hrespond : respond host n (.line bytes) =
      (handleMessage host n msg).getD
        (if id.isNull then none else some (errorResponse id (-32603) "internal error")) := by
    simp only [respond, htext, hblank, if_false, hmsg, hid]
    cases handleMessage host n msg with
    | some response => rfl
    | none => cases id <;> rfl
  rw [hrespond, hasks]
  rcases handleMessage_request host n hmethod hid with ⟨r, hr, hrid⟩ | ⟨hnone, rfl, name, args, hcall, hpanic⟩
  · rw [hr]
    refine iff_of_true ⟨r, rfl, hrid⟩ ?_
    rintro - name args hcall hpanic
    -- a call that panics gives no response at all
    split_ifs at hcall with hm
    subst hm
    have hok : toolCall host (msg.get? "params") = .ok (name, args) := by
      cases ht : toolCall host (msg.get? "params") with
      | error e => simp [ht, Except.toOption] at hcall
      | ok call => simpa [ht, Except.toOption] using hcall
    rw [handleMessage_panics host n hmethod hid hok hpanic] at hr
    cases hr
  · rw [hnone, if_pos rfl, hcall]
    cases hnull : id.isNull with
    | true =>
      refine iff_of_false ?_ ?_
      · rintro ⟨r, hr, -⟩
        cases hr
      · intro h
        have hid : id = .null := by
          cases id <;> first | rfl | cases hnull
        exact h hid name args rfl hpanic
    | false =>
      refine iff_of_true ⟨_, rfl, (get?_errorResponse _ _ _).1⟩ ?_
      rintro rfl
      cases hnull

/-- a frame is answered as owed exactly when no panic of a call with a null id is in the way -/
theorem answered_iff (host : Host) (n : ℕ) (frame : Frame) :
    Answered host frame (respond host n frame) ↔ ∀ bytes, frame = .line bytes → Kept host n bytes := by
  cases frame with
  | eof => exact iff_of_true rfl (fun bytes h => nomatch h)
  | tooLarge => exact iff_of_true (owed_parseError _) (fun bytes h => nomatch h)
  | line bytes =>
    simp only [Frame.line.injEq, forall_eq', Answered, Kept]
    cases htext : fromUtf8 bytes with
    | none =>
      have hkind : kindOf host bytes = .malformed .null := by simp [kindOf, htext]
      have hrespond : respond host n (.line bytes) = some (errorResponse .null (-32700) "parse error") := by
        simp [respond, htext]
      rw [hkind, hrespond]
      exact iff_of_true (owed_parseError _) (fun h => nomatch h)
    | some text =>
      by_cases hblank : trim text = ""
      · have hkind : kindOf host bytes = .blank := by simp [kindOf, htext, hblank]
        have hrespond : respond host n (.line bytes) = none := by simp [respond, htext, hblank]
        rw [hkind, hrespond]
        exact iff_of_true rfl (fun h => nomatch h)
      · cases hmsg : host.fromStr (trim text) with
        | none =>
          have hkind : kindOf host bytes = .malformed .null := by simp [kindOf, htext, hblank, hmsg]
          have hrespond : respond host n (.line bytes) = some (errorResponse .null (-32700) "parse error") := by
            simp [respond, htext, hblank, hmsg]
          rw [hkind, hrespond]
          exact iff_of_true (owed_parseError _) (fun h => nomatch h)
        | some msg =>
          cases hmethod : (msg.get? "method").bind Json.asStr with
          | none =>
            obtain ⟨r, hr, howed⟩ := handleMessage_malformed host n hmethod
            have hkind : kindOf host bytes = .malformed ((msg.get? "id").getD .null) := by
              simp [kindOf, htext, hblank, hmsg, hmethod]
            have hrespond : respond host n (.line bytes) = some r := by simp [respond, htext, hblank, hmsg, hr]
            rw [hkind, hrespond]
            exact iff_of_true ⟨r, rfl, howed⟩ (fun h => nomatch h)
          | some method =>
            cases hid : msg.get? "id" with
            | none =>
              have hkind : kindOf host bytes = .notification := by simp [kindOf, htext, hblank, hmsg, hmethod, hid]
              have hrespond : respond host n (.line bytes) = none := by
                simp [respond, htext, hblank, hmsg, handleMessage_notification host n hmethod hid]
              rw [hkind, hrespond]
              exact iff_of_true rfl (fun h => nomatch h)
            | some id =>
              have hkind : kindOf host bytes = .request id := by simp [kindOf, htext, hblank, hmsg, hmethod, hid]
              rw [hkind, Kind.request.injEq]
              exact request_owed_iff host n htext hblank hmsg hmethod hid

/-! ## The session -/

theorem serve_eq_iff (host : Host) (input : List (List UInt8)) :
    serve host input = (linesOf input.flatten).mapIdx (fun n frame => (frame, respond host n frame)) ↔
      frames input = linesOf input.flatten := by
  constructor
  · intro h
    apply List.ext_getElem?
    intro n
    have hn := congrArg (fun l => (l[n]?).map Prod.fst) h
    simpa [serve, List.getElem?_mapIdx, Option.map_map, Function.comp_def] using hn
  · intro h
    rw [serve, h]

/-- **Framing independent of chunking.** The session is that of the stream alone, with every message answered as owed,
exactly when no piece with more to come ends over `MAX_FRAME_BYTES` into a line and no tool call of a request with a null
id panics. -/
theorem chunking_independent (host : Host) (input : List (List UInt8)) (hne : ∀ piece ∈ input, piece ≠ []) :
    Framed host input ↔
      Fits [] input ∧ ∀ (n : ℕ) (bytes : List UInt8), (linesOf input.flatten)[n]? = some (.line bytes) →
        Kept host n bytes := by
  have hserve : ∀ (n : ℕ) (frame : Frame) (response : Option Json), (serve host input)[n]? = some (frame, response) ↔
      (frames input)[n]? = some frame ∧ respond host n frame = response := by
    intro n frame response
    rw [serve, List.getElem?_mapIdx]
    cases hn : (frames input)[n]? with
    | none => simp
    | some frame' =>
      simp only [Option.map_some, Option.some.injEq, Prod.mk.injEq]
      refine and_congr_right ?_
      rintro rfl
      rfl
  constructor
  · intro h
    have hframes := (serve_eq_iff host input).1 h.stream
    refine ⟨(frames_iff hne).1 hframes, ?_⟩
    intro n bytes hn
    have hanswered := h.answered n (.line bytes) _ ((hserve n _ _).2 ⟨hframes ▸ hn, rfl⟩)
    exact (answered_iff host n _).1 hanswered bytes rfl
  · rintro ⟨hfits, hkept⟩
    have hframes := (frames_iff hne).2 hfits
    refine ⟨(serve_eq_iff host input).2 hframes, ?_⟩
    intro n frame response hn
    obtain ⟨hframe, rfl⟩ := (hserve n frame response).1 hn
    apply (answered_iff host n frame).2
    rintro bytes rfl
    exact hkept n bytes (hframes ▸ hframe)

/-! ### Samples -/

def pingText : String := "\x7b\"jsonrpc\":\"2.0\",\"id\":1,\"method\":\"ping\"\x7d"

/-- a ping with id 1, on a line of its own -/
def pingLine : List UInt8 := (pingText.toList.map fun ch => .ofNat ch.toNat) ++ [newline]

/-- a shim whose client sends that ping -/
def pingHost : Host where
  fromStr s := if s = pingText then some (.obj [("jsonrpc", .str "2.0"), ("id", .int 1), ("method", .str "ping")]) else none
  tools := []
  callTool _ _ _ := some .null

/-- the ping in two pieces -/
theorem chunking_independent_ping : Framed pingHost [pingLine.take 9, pingLine.drop 9] := by
  refine (chunking_independent pingHost _ (by decide)).2 ⟨by decide, ?_⟩
  intro n bytes hn hkind
  have hlines : linesOf [pingLine.take 9, pingLine.drop 9].flatten = [.line pingLine] := by decide
  rw [hlines] at hn
  have hbytes : bytes = pingLine := by
    cases n with
    | zero => simpa using hn.symm
    | succ n => cases hn
  have hping : kindOf pingHost pingLine = .request (.int 1) := rfl
  rw [hbytes, hping] at hkind
  cases hkind

/-- as much of a line as is refused: spaces -/
def spaces : List UInt8 := List.replicate (maxFrameBytes + 1) 32

theorem spaces_open : spaces.findIdx? (· == newline) = none := by
  rw [List.findIdx?_eq_none_iff]
  intro b hb
  rw [List.eq_of_mem_replicate hb]
  rfl

/-- **A smuggled request.** One line, spaces and a ping, in two pieces: it is refused as too large, and the ping is read
as a message of its own. -/
theorem smuggled_request :
    ¬ Framed pingHost [spaces, pingLine] ∧ (serve pingHost [spaces, pingLine]).map Prod.fst = [.tooLarge, .line pingLine] ∧
      linesOf [spaces, pingLine].flatten = [.line (spaces ++ pingLine)] := by
  have hlen : spaces.length = maxFrameBytes + 1 := List.length_replicate
  have hne : spaces ≠ [] := List.ne_nil_of_length_eq_add_one hlen
  have hend : pingLine.findIdx? (· == newline) = some 40 := by decide
  have hlines : linesOf [spaces, pingLine].flatten = [.line (spaces ++ pingLine)] := by
    unfold linesOf linesFrom
    rw [List.flatten_cons, List.flatten_singleton, records_append, remainder_append, records_none spaces_open,
      remainder_none spaces_open, records_findIdx hend, remainder_findIdx hend]
    rfl
  have hframes : frames [spaces, pingLine] = [.tooLarge, .line pingLine] := by
    rw [frames_eq, framesFrom_tooLarge hne spaces_open (by rw [List.nil_append, hlen]; exact Nat.lt_succ_self _),
      framesFrom_line (by decide) hend]
    rfl
  refine ⟨?_, ?_, hlines⟩
  · intro h
    have hsame := (serve_eq_iff pingHost [spaces, pingLine]).1 h.stream
    rw [hframes, hlines] at hsame
    cases hsame
  · rw [serve, hframes]
    rfl

end EspectralClient.McpShim
