/-
Captures and recordings on the one window (`branding-mod/.../agent/AgentCapture.java`, `AgentRecorder.java`): a screenshot
at its own size or without the HUD changes the window for some frames, a recording for its whole length, and each puts
back what it found.

Everything here runs on the render thread, so a step is one call. The scale that the window calculates, the render
target, the open screen and the encoder are what each call finds; nothing else changes the window.

- `request`, `captureFrame`: a screenshot; `apply`, `restore` are its two ends.
- `recordStart`, `recordFrame`, `recordStop`: a recording; `stopNow` is its end.
- `Nested`: what ends is what began last.
- `left_as_found`: nested captures and recordings leave the window as they found it, and what is grabbed without the HUD
  is grabbed while it is hidden; `overlap_resurrects` is what happens otherwise.
-/
import EspectralClient.Lib.Run

namespace EspectralClient.Menu.AgentCapture

open EspectralClient.Lib

/-! ## Model -/

/-- the size limits of each side -/
def minSide : ℤ := 64

def maxSide : ℤ := 7680

/-- frames rendered at a custom size before the grab -/
def sizedSettleFrames : ℕ := 6

structure Window where
  width : ℤ
  height : ℤ
  guiScale : ℤ
  hudHidden : Bool
deriving DecidableEq, Repr

/-- what a capture found; the size counts when it resized -/
structure Saved where
  width : ℤ
  height : ℤ
  guiScale : ℤ
  hideGui : Bool
  resized : Bool
deriving DecidableEq, Repr

structure Request where
  width : ℤ
  height : ℤ
  hud : Bool
  /-- frames still to skip -/
  delayFrames : ℕ
  saved : Option Saved
deriving DecidableEq, Repr

def Request.sized (r : Request) : Bool := 0 < r.width ∧ 0 < r.height

/-- an `AgentException`: its code and its message -/
structure AgentException where
  code : String
  message : String
deriving DecidableEq, Repr

structure Preset where
  width : ℤ
  height : ℤ
  fps : ℤ
  hud : Bool
  maxSeconds : ℤ
deriving DecidableEq, Repr

def preset (name : String) : Except AgentException Preset :=
  if name = "short" then .ok ⟨1080, 1920, 60, false, 60⟩
  else if name = "landscape" then .ok ⟨1920, 1080, 60, false, 300⟩
  else if name = "evidence" then .ok ⟨0, 0, 30, true, 600⟩
  else .error ⟨"BAD_ARGS", "unknown preset '" ++ name ++ "' (short, landscape, evidence)"⟩

/-- the part of a recording's session that the window needs -/
structure Recording where
  /-- width, height and scale before a recording at its own size -/
  saved : Option (ℤ × ℤ × ℤ)
  hudWas : Bool
  startNs : ℤ
  maxSeconds : ℤ
deriving DecidableEq, Repr

/-- who holds changes of the window -/
inductive Holder where
  | capture
  | recording
deriving DecidableEq, Repr

/-- a grab: what was asked for, and the HUD when it happened -/
structure Grab where
  hud : Bool
  hudHidden : Bool
deriving DecidableEq, Repr

structure St where
  window : Window
  pending : Option Request
  inFlight : Bool
  active : Option Recording
  grabs : List Grab
  /-- screenshots that failed -/
  failures : List AgentException
  /-- the holders, the latest first: kept for the statements -/
  holders : List Holder
deriving DecidableEq, Repr

def init (window : Window) : St where
  window := window
  pending := none
  inFlight := false
  active := none
  grabs := []
  failures := []
  holders := []

/-- what a call finds: custom sizes are supported, a screen is open, the scale that fits, the render target -/
structure Env where
  supportsSizedCapture : Bool
  screenOpen : Bool
  scale : ℤ
  target : Option (ℤ × ℤ)
  /-- an exception of the readback -/
  thrown : Option String
deriving DecidableEq, Repr

/-- a recording renders at its own size -/
def recorderSized (s : St) : Bool := s.active.any fun r => r.saved.isSome

/-- parks a screenshot, unless one is parked -/
def request (s : St) (width height : ℤ) (hud : Bool) : St :=
  match s.pending with
  | some _ => { s with failures := s.failures ++ [⟨"BUSY", "a screenshot is already in flight"⟩] }
  | none => { s with pending := some ⟨width, height, hud, 1, none⟩ }

/-- switches to the requested size and HUD state -/
def apply (s : St) (env : Env) (r : Request) : Except AgentException (Window × Saved) :=
  if r.sized ∧ env.supportsSizedCapture = false then
    .error ⟨"UNSUPPORTED", "custom-size capture needs Minecraft 26.2 or newer; capture at the window size"⟩
  else if r.sized ∧ env.screenOpen then
    .error ⟨"BAD_ARGS", "custom-size capture renders the world view; close the open screen first " ++
      "(key escape) or capture at the window size"⟩
  else if r.sized ∧ recorderSized s then
    .error ⟨"BUSY", "a recording is rendering at its own size; record_stop first, or capture " ++
      "without width/height"⟩
  else
    let w := s.window
    let saved : Saved := ⟨w.width, w.height, w.guiScale, w.hudHidden, r.sized⟩
    let w := if r.sized then { w with width := r.width, height := r.height, guiScale := env.scale } else w
    let w := if r.hud then w else { w with hudHidden := true }
    .ok (w, saved)

def restore (w : Window) (saved : Option Saved) : Window :=
  match saved with
  | none => w
  | some saved =>
    let w := if saved.resized then { w with width := saved.width, height := saved.height, guiScale := saved.guiScale } else w
    { w with hudHidden := saved.hideGui }

/-- a capture ends: its holder goes with what it saved -/
def release (s : St) (r : Request) : St :=
  { s with
    window := restore s.window r.saved
    holders := if r.saved = none then s.holders else s.holders.erase .capture }

def failWith (s : St) (code message : String) : St :=
  { s with inFlight := false, failures := s.failures ++ [⟨code, message⟩] }

/-- `AgentCapture.onFrameEnd` -/
def captureFrame (s : St) (env : Env) : St :=
  match s.pending with
  | none => s
  | some r =>
    if s.inFlight then s
    else if r.saved = none ∧ (r.sized ∨ r.hud = false) then
      match apply s env r with
      | .error e => { s with pending := none, failures := s.failures ++ [e] }
      | .ok (w, saved) =>
        { s with
          window := w
          pending := some { r with saved := some saved, delayFrames := if r.sized then sizedSettleFrames else 1 }
          holders := .capture :: s.holders }
    else if 0 < r.delayFrames then { s with pending := some { r with delayFrames := r.delayFrames - 1 } }
    else
      let s := { s with inFlight := true, pending := none }
      match env.target with
      | none => failWith (release s r) "FAILED" "the main render target is not available"
      | some (width, height) =>
        if r.sized ∧ (width ≠ r.width ∨ height ≠ r.height) then
          failWith (release s r) "FAILED" ("the frame came out " ++ toString width ++ "x" ++ toString height ++
            " instead of " ++ toString r.width ++ "x" ++ toString r.height ++
            " (window resized during the capture?); retry")
        else
          match env.thrown with
          | some why => release (failWith s "FAILED" ("screenshot readback failed: " ++ why)) r
          | none => release { s with grabs := s.grabs ++ [⟨r.hud, s.window.hudHidden⟩] } r

/-- the files are written, or could not be -/
def written (s : St) : St := { s with inFlight := false }

/-- the arguments of `record_start`; `some none` is a key that is null -/
structure StartArgs where
  preset : Option String
  width : Option (Option ℤ)
  height : Option (Option ℤ)
  fps : Option (Option ℤ)
  hud : Option Bool
deriving DecidableEq, Repr

/-- `record_start`: the recording and its window; `encoder` is why ffmpeg did not start -/
def startRecording (s : St) (env : Env) (args : StartArgs) (startNs : ℤ) (encoder : Option String) :
    Except AgentException (Window × Recording) :=
  if s.active ≠ none then .error ⟨"BUSY", "a recording is already running; record_stop first"⟩
  else
    match preset (args.preset.getD "evidence") with
    | .error e => .error e
    | .ok preset =>
      let width := (args.width.join).getD preset.width
      let height := (args.height.join).getD preset.height
      if args.width.isSome ≠ args.height.isSome then
        .error ⟨"BAD_ARGS", "give both width and height, or neither"⟩
      else
        let fps := (args.fps.join).getD preset.fps
        if fps < 1 ∨ 120 < fps then .error ⟨"BAD_ARGS", "fps must be 1…120"⟩
        else
          let hud := args.hud.getD preset.hud
          let w := s.window
          let sized := 0 < width ∧ 0 < height ∧ (width ≠ w.width ∨ height ≠ w.height)
          let size := if width ≤ 0 ∨ height ≤ 0 then (w.width, w.height) else (width, height)
          if size.1 < minSide ∨ size.2 < minSide ∨ maxSide < size.1 ∨ maxSide < size.2 then
            .error ⟨"BAD_ARGS", "width and height must be " ++ toString minSide ++ "…" ++ toString maxSide ++ " px"⟩
          else if sized ∧ env.supportsSizedCapture = false then
            .error ⟨"UNSUPPORTED", "recording at a custom size needs Minecraft 26.2 or newer; use preset evidence"⟩
          else if sized ∧ env.screenOpen then
            .error ⟨"BAD_ARGS", "a sized recording renders the world view; " ++
              "close the open screen first (key escape)"⟩
          else
            match encoder with
            | some why => .error ⟨"NO_FFMPEG", "could not start ffmpeg: " ++ why⟩
            | none =>
              -- yuv420p needs even sides
              let even := (size.1 / 2 * 2, size.2 / 2 * 2)
              let resized := if sized then { w with width := even.1, height := even.2, guiScale := env.scale } else w
              .ok ({ resized with hudHidden := !hud },
                ⟨if sized then some (w.width, w.height, w.guiScale) else none, w.hudHidden, startNs, preset.maxSeconds⟩)

def recordStart (s : St) (env : Env) (args : StartArgs) (startNs : ℤ) (encoder : Option String) : St :=
  match startRecording s env args startNs encoder with
  | .error _ => s
  | .ok (w, recording) => { s with window := w, active := some recording, holders := .recording :: s.holders }

/-- what the end of a recording puts back -/
def putBack (w : Window) (r : Recording) : Window :=
  let w := match r.saved with
    | some (width, height, guiScale) => { w with width := width, height := height, guiScale := guiScale }
    | none => w
  { w with hudHidden := r.hudWas }

def stopNow (s : St) (r : Recording) : St :=
  { s with active := none, window := putBack s.window r, holders := s.holders.erase .recording }

/-- `AgentRecorder.onFrameEnd`: the time limit -/
def recordFrame (s : St) (now : ℤ) : St :=
  match s.active with
  | none => s
  | some r => if r.maxSeconds * 1000000000 < now - r.startNs then stopNow s r else s

def recordStop (s : St) : St :=
  match s.active with
  | none => s
  | some r => stopNow s r

inductive Event where
  | request (width height : ℤ) (hud : Bool)
  | captureFrame (env : Env)
  | written
  | recordStart (env : Env) (args : StartArgs) (startNs : ℤ) (encoder : Option String)
  | recordFrame (now : ℤ)
  | recordStop
deriving DecidableEq, Repr

def step (s : St) : Event → St
  | .request width height hud => request s width height hud
  | .captureFrame env => captureFrame s env
  | .written => written s
  | .recordStart env args startNs encoder => recordStart s env args startNs encoder
  | .recordFrame now => recordFrame s now
  | .recordStop => recordStop s

/-! ## What each end puts back -/

/-- what the parked screenshot saved, if it is applied -/
def applied (s : St) : Option Saved := s.pending.bind Request.saved

/-- the window once a holder has put back what it found -/
def giveBack (saved : Option Saved) (recording : Option Recording) (w : Window) : Holder → Window
  | .capture => restore w saved
  | .recording => recording.elim w (putBack w)

/-- the window once all holders have, the latest first -/
def unwind (saved : Option Saved) (recording : Option Recording) : List Holder → Window → Window
  | [], w => w
  | h :: rest, w => unwind saved recording rest (giveBack saved recording w h)

/-- the window under a holder: once those that began after it have put back what they found -/
def unwindTo (saved : Option Saved) (recording : Option Recording) (holder : Holder) : List Holder → Window → Window
  | [], w => w
  | h :: rest, w => if h = holder then w else unwindTo saved recording holder rest (giveBack saved recording w h)

theorem unwind_congr {saved saved' : Option Saved} {recording recording' : Option Recording} {holders : List Holder}
    (hc : .capture ∈ holders → saved = saved') (hr : .recording ∈ holders → recording = recording') (w : Window) :
    unwind saved recording holders w = unwind saved' recording' holders w := by
  induction holders generalizing w with
  | nil => rfl
  | cons h rest ih =>
    have hgive : giveBack saved recording w h = giveBack saved' recording' w h := by
      cases h with
      | capture => rw [giveBack, giveBack, hc List.mem_cons_self]
      | recording => rw [giveBack, giveBack, hr List.mem_cons_self]
    rw [unwind, unwind, hgive]
    exact ih (fun h => hc (List.mem_cons_of_mem _ h)) (fun h => hr (List.mem_cons_of_mem _ h)) _

theorem unwindTo_congr {saved saved' : Option Saved} {recording recording' : Option Recording} {holder : Holder}
    {holders : List Holder} (hc : .capture ∈ holders → saved = saved') (hr : .recording ∈ holders → recording = recording')
    (w : Window) : unwindTo saved recording holder holders w = unwindTo saved' recording' holder holders w := by
  induction holders generalizing w with
  | nil => rfl
  | cons h rest ih =>
    have hgive : giveBack saved recording w h = giveBack saved' recording' w h := by
      cases h with
      | capture => rw [giveBack, giveBack, hc List.mem_cons_self]
      | recording => rw [giveBack, giveBack, hr List.mem_cons_self]
    rw [unwindTo, unwindTo, hgive]
    split_ifs
    · rfl
    · exact ih (fun h => hc (List.mem_cons_of_mem _ h)) (fun h => hr (List.mem_cons_of_mem _ h)) _

/-- a screenshot that is applied puts back the window it found, and hides the HUD when it is asked to -/
theorem apply_ok {s : St} {env : Env} {r : Request} {w : Window} {saved : Saved} (h : apply s env r = .ok (w, saved)) :
    restore w (some saved) = s.window ∧ (r.hud = false → w.hudHidden = true) := by
  unfold apply at h
  by_cases h1 : r.sized ∧ env.supportsSizedCapture = false
  · rw [if_pos h1] at h
    cases h
  rw [if_neg h1] at h
  by_cases h2 : r.sized ∧ env.screenOpen
  · rw [if_pos h2] at h
    cases h
  rw [if_neg h2] at h
  by_cases h3 : r.sized ∧ recorderSized s
  · rw [if_pos h3] at h
    cases h
  rw [if_neg h3] at h
  simp only [Except.ok.injEq, Prod.mk.injEq] at h
  obtain ⟨rfl, rfl⟩ := h
  cases hsized : r.sized <;> cases hhud : r.hud <;> simp [restore]

/-- a recording that starts puts back the window it found -/
theorem startRecording_ok {s : St} {env : Env} {args : StartArgs} {startNs : ℤ} {encoder : Option String} {w : Window}
    {r : Recording} (h : startRecording s env args startNs encoder = .ok (w, r)) :
    s.active = none ∧ putBack w r = s.window := by
  unfold startRecording at h
  by_cases hactive : s.active ≠ none
  · rw [if_pos hactive] at h
    cases h
  rw [if_neg hactive] at h
  refine ⟨not_not.1 hactive, ?_⟩
  cases hpreset : preset (args.preset.getD "evidence") with
  | error e =>
    rw [hpreset] at h
    cases h
  | ok p =>
    rw [hpreset] at h
    dsimp only at h
    generalize (args.width.join).getD p.width = width at h
    generalize (args.height.join).getD p.height = height at h
    generalize (if width ≤ 0 ∨ height ≤ 0 then (s.window.width, s.window.height) else (width, height)) = size at h
    -- what is left of the checks is a recording at its own size, and one at the window's
    split_ifs at h
    all_goals
      cases encoder with
      | some why => cases h
      | none =>
        simp only [Except.ok.injEq, Prod.mk.injEq] at h
        obtain ⟨rfl, rfl⟩ := h
        rfl

/-! ## Nested runs -/

/-- the screenshot is grabbed, or fails to be, in this frame -/
def grabs (s : St) : Prop := ∃ r ∈ s.pending, s.inFlight = false ∧ r.saved ≠ none ∧ r.delayFrames = 0

instance (s : St) : Decidable (grabs s) :=
  inferInstanceAs (Decidable (∃ r ∈ s.pending, s.inFlight = false ∧ r.saved ≠ none ∧ r.delayFrames = 0))

/-- the recording stops at its limit in this frame -/
def limited (s : St) (now : ℤ) : Prop := ∃ r ∈ s.active, r.maxSeconds * 1000000000 < now - r.startNs

instance (s : St) (now : ℤ) : Decidable (limited s now) :=
  inferInstanceAs (Decidable (∃ r ∈ s.active, r.maxSeconds * 1000000000 < now - r.startNs))

/-- what ends is what began last: a screenshot is not grabbed while a recording runs that began after it was applied, and
a recording does not stop while a screenshot is applied that was after it -/
def Nested (s : St) : Event → Prop
  | .captureFrame _ => grabs s → s.holders.head? = some .capture
  | .recordFrame now => limited s now → s.holders.head? = some .recording
  | .recordStop => s.active ≠ none → s.holders.head? = some .recording
  | _ => True

instance Nested.decidable : ∀ (s : St) (e : Event), Decidable (Nested s e)
  | s, .captureFrame _ => inferInstanceAs (Decidable (grabs s → s.holders.head? = some .capture))
  | s, .recordFrame now => inferInstanceAs (Decidable (limited s now → s.holders.head? = some .recording))
  | s, .recordStop => inferInstanceAs (Decidable (s.active ≠ none → s.holders.head? = some .recording))
  | _, .request .. => isTrue trivial
  | _, .written => isTrue trivial
  | _, .recordStart .. => isTrue trivial

/-- what a nested run keeps: unwinding the holders leads back to the window that was there first -/
structure Held (original : Window) (s : St) : Prop where
  capture : .capture ∈ s.holders ↔ applied s ≠ none
  recording : .recording ∈ s.holders ↔ s.active ≠ none
  nodup : s.holders.Nodup
  back : unwind (applied s) s.active s.holders s.window = original
  hidden : ∀ r ∈ s.pending, r.saved ≠ none → r.hud = false →
    (unwindTo (applied s) s.active .capture s.holders s.window).hudHidden = true
  grabbed : ∀ g ∈ s.grabs, g.hud = false → g.hudHidden = true

theorem held_init (window : Window) : Held window (init window) where
  capture := by simp [init, applied]
  recording := by simp [init]
  nodup := List.nodup_nil
  back := rfl
  hidden r hr := by cases hr
  grabbed g hg := by cases hg

theorem held_request {original : Window} {s : St} (h : Held original s) (width height : ℤ) (hud : Bool) :
    Held original (request s width height hud) := by
  unfold request
  split
  next r hpending => exact ⟨h.capture, h.recording, h.nodup, h.back, h.hidden, h.grabbed⟩
  next hpending =>
    have hnone : applied s = none := by rw [applied, hpending]; rfl
    have hcap := h.capture
    have hback := h.back
    rw [hnone] at hcap hback
    refine ⟨hcap, h.recording, h.nodup, hback, ?_, h.grabbed⟩
    intro r hr hsaved
    cases hr
    exact absurd rfl hsaved

/-- the holder that began last puts back what it found -/
theorem held_stopNow {original : Window} {s : St} (h : Held original s) {r : Recording} (hactive : s.active = some r)
    (hlast : s.holders.head? = some .recording) : Held original (stopNow s r) := by
  obtain ⟨rest, hholders⟩ : ∃ rest, s.holders = .recording :: rest := by
    cases hh : s.holders with
    | nil => rw [hh] at hlast; cases hlast
    | cons holder rest =>
      rw [hh] at hlast
      cases hlast
      exact ⟨rest, rfl⟩
  have hnodup := h.nodup
  rw [hholders, List.nodup_cons] at hnodup
  have herase : s.holders.erase .recording = rest := by rw [hholders, List.erase_cons_head]
  have hback := h.back
  have hhidden := h.hidden
  have hcap := h.capture
  rw [hholders, hactive] at hback hhidden
  rw [hholders] at hcap
  unfold stopNow
  refine ⟨?_, ?_, ?_, ?_, ?_, h.grabbed⟩
  · rw [herase]
    change _ ∈ rest ↔ applied s ≠ none
    rw [← hcap]
    simp
  · rw [herase]
    exact iff_of_false hnodup.1 (by simp)
  · rw [herase]
    exact hnodup.2
  · rw [herase]
    refine (unwind_congr (fun _ => rfl) (fun hin => absurd hin hnodup.1) _).trans hback
  · intro q hq hsaved hhud
    rw [herase]
    refine (congrArg Window.hudHidden (unwindTo_congr (fun _ => rfl) (fun hin => absurd hin hnodup.1) _)).trans
      (hhidden q hq hsaved hhud)

/-- the state behind a screenshot that was parked and is done, whatever was noted of it -/
theorem held_release {original : Window} {s : St} (h : Held original s) {r : Request} (hpending : s.pending = some r)
    (hlast : r.saved ≠ none → s.holders.head? = some .capture) {t : St}
    (hwindow : t.window = restore s.window r.saved) (hactive : t.active = s.active) (ht : t.pending = none)
    (hholders : t.holders = if r.saved = none then s.holders else s.holders.erase .capture)
    (hgrabs : ∀ g ∈ t.grabs, g.hud = false → g.hudHidden = true) : Held original t := by
  have happlied : applied s = r.saved := by rw [applied, hpending]; rfl
  have hnone : applied t = none := by rw [applied, ht]; rfl
  have hcap := h.capture
  have hback := h.back
  rw [happlied] at hcap hback
  cases hsaved : r.saved with
  | none =>
    rw [hsaved] at hwindow hcap hback hholders
    rw [if_pos rfl] at hholders
    refine ⟨?_, ?_, ?_, ?_, ?_, hgrabs⟩
    · rw [hholders, hnone]
      exact hcap
    · rw [hholders, hactive]
      exact h.recording
    · rw [hholders]
      exact h.nodup
    · rw [hholders, hnone, hactive, hwindow]
      exact hback
    · rw [ht]
      exact fun q hq => nomatch hq
  | some saved =>
    have hne : r.saved ≠ none := by rw [hsaved]; exact Option.some_ne_none saved
    obtain ⟨rest, hh⟩ : ∃ rest, s.holders = .capture :: rest := by
      have hhead := hlast hne
      cases hh : s.holders with
      | nil => rw [hh] at hhead; cases hhead
      | cons holder rest =>
        rw [hh] at hhead
        cases hhead
        exact ⟨rest, rfl⟩
    have hnodup := h.nodup
    rw [hh, List.nodup_cons] at hnodup
    rw [if_neg hne, hh, List.erase_cons_head] at hholders
    rw [hh] at hback
    refine ⟨?_, ?_, ?_, ?_, ?_, hgrabs⟩
    · rw [hholders, hnone]
      exact iff_of_false hnodup.1 fun hne => hne rfl
    · rw [hholders, hactive, ← h.recording, hh]
      simp
    · rw [hholders]
      exact hnodup.2
    · rw [hholders, hactive, hwindow]
      exact (unwind_congr (fun hin => absurd hin hnodup.1) (fun _ => rfl) _).trans hback
    · rw [ht]
      exact fun q hq => nomatch hq

theorem held_captureFrame {original : Window} {s : St} (h : Held original s) (env : Env)
    (hnested : grabs s → s.holders.head? = some .capture) : Held original (captureFrame s env) := by
  unfold captureFrame
  split
  next => exact h
  next r hpending =>
    have happlied : applied s = r.saved := by rw [applied, hpending]; rfl
    by_cases hflight : s.inFlight = true
    · rw [if_pos hflight]
      exact h
    rw [if_neg hflight]
    by_cases happly : r.saved = none ∧ (r.sized = true ∨ r.hud = false)
    · rw [if_pos happly]
      have hcap := h.capture
      have hback := h.back
      rw [happlied, happly.1] at hcap hback
      have hnot : .capture ∉ s.holders := fun hin => hcap.1 hin rfl
      cases happlies : apply s env r with
      | error e =>
        dsimp only
        exact ⟨hcap, h.recording, h.nodup, hback, fun q hq => (nomatch hq), h.grabbed⟩
      | ok result =>
        obtain ⟨w, saved⟩ := result
        obtain ⟨hrestore, hhides⟩ := apply_ok happlies
        dsimp only
        refine ⟨iff_of_true List.mem_cons_self (Option.some_ne_none saved), ?_, List.nodup_cons.2 ⟨hnot, h.nodup⟩, ?_, ?_,
          h.grabbed⟩
        · rw [← h.recording]
          simp
        · change unwind (some saved) s.active s.holders (restore w (some saved)) = original
          rw [hrestore]
          exact (unwind_congr (fun hin => absurd hin hnot) (fun _ => rfl) _).trans hback
        · intro q hq _ hhud
          cases hq
          exact hhides hhud
    rw [if_neg happly]
    by_cases hdelay : 0 < r.delayFrames
    · rw [if_pos hdelay]
      have hcap := h.capture
      have hback := h.back
      have hhidden := h.hidden r hpending
      rw [happlied] at hcap hback hhidden
      refine ⟨hcap, h.recording, h.nodup, hback, ?_, h.grabbed⟩
      intro q hq hsaved hhud
      cases hq
      exact hhidden hsaved hhud
    rw [if_neg hdelay]
    have hlast : r.saved ≠ none → s.holders.head? = some .capture := fun hsaved =>
      hnested ⟨r, hpending, Bool.eq_false_iff.2 hflight, hsaved, by omega⟩
    dsimp only
    split
    next => exact held_release h hpending hlast rfl rfl rfl rfl h.grabbed
    next width height _ =>
      split_ifs with hsize
      · exact held_release h hpending hlast rfl rfl rfl rfl h.grabbed
      · split
        next => exact held_release h hpending hlast rfl rfl rfl rfl h.grabbed
        next =>
          refine held_release h hpending hlast rfl rfl rfl rfl ?_
          intro g hg hhud
          rcases List.mem_append.1 hg with hg | hg
          · exact h.grabbed g hg hhud
          · -- a screenshot without the HUD was applied, and nothing began after it
            rw [List.mem_singleton.1 hg] at hhud ⊢
            have hsaved : r.saved ≠ none := fun hnone => happly ⟨hnone, .inr hhud⟩
            have hhidden := h.hidden r hpending hsaved hhud
            cases hh : s.holders with
            | nil =>
              have hhead := hlast hsaved
              rw [hh] at hhead
              cases hhead
            | cons holder rest =>
              have hhead := hlast hsaved
              rw [hh] at hhead hhidden
              cases hhead
              exact hhidden

theorem held_recordStart {original : Window} {s : St} (h : Held original s) (env : Env) (args : StartArgs) (startNs : ℤ)
    (encoder : Option String) : Held original (recordStart s env args startNs encoder) := by
  unfold recordStart
  cases hstart : startRecording s env args startNs encoder with
  | error e => exact h
  | ok result =>
    obtain ⟨w, recording⟩ := result
    obtain ⟨hactive, hback⟩ := startRecording_ok hstart
    have hnot : .recording ∉ s.holders := fun hin => h.recording.1 hin hactive
    have hwound := h.back
    have hhidden := h.hidden
    rw [hactive] at hwound hhidden
    dsimp only
    refine ⟨?_, iff_of_true List.mem_cons_self (Option.some_ne_none recording), List.nodup_cons.2 ⟨hnot, h.nodup⟩, ?_, ?_,
      h.grabbed⟩
    · change .capture ∈ .recording :: s.holders ↔ applied s ≠ none
      rw [← h.capture]
      simp
    · change unwind (applied s) (some recording) s.holders (putBack w recording) = original
      rw [hback]
      exact (unwind_congr (fun _ => rfl) (fun hin => absurd hin hnot) _).trans hwound
    · intro q hq hsaved hhud
      change (unwindTo (applied s) (some recording) .capture s.holders (putBack w recording)).hudHidden = true
      rw [hback]
      exact (congrArg Window.hudHidden (unwindTo_congr (fun _ => rfl) (fun hin => absurd hin hnot) _)).trans
        (hhidden q hq hsaved hhud)

theorem held_step {original : Window} {s : St} (e : Event) (hnested : Nested s e) (h : Held original s) :
    Held original (step s e) := by
  cases e with
  | request width height hud => exact held_request h width height hud
  | captureFrame env => exact held_captureFrame h env hnested
  | written => exact ⟨h.capture, h.recording, h.nodup, h.back, h.hidden, h.grabbed⟩
  | recordStart env args startNs encoder => exact held_recordStart h env args startNs encoder
  | recordFrame now =>
    rw [step, recordFrame]
    split
    next => exact h
    next r hactive =>
      split_ifs with hlimit
      · exact held_stopNow h hactive (hnested ⟨r, hactive, hlimit⟩)
      · exact h
  | recordStop =>
    rw [step, recordStop]
    split
    next => exact h
    next r hactive => exact held_stopNow h hactive (hnested (by rw [hactive]; exact Option.some_ne_none r))

/-- the window is as it was when nobody holds it, and no grab without the HUD shows it -/
structure AsFound (original : Window) (s : St) : Prop where
  window : applied s = none → s.active = none → s.window = original
  grabs : ∀ g ∈ s.grabs, g.hud = false → g.hudHidden = true

theorem Held.asFound {original : Window} {s : St} (h : Held original s) : AsFound original s where
  window happlied hactive := by
    have hback := h.back
    have hholders : s.holders = [] := by
      refine List.eq_nil_iff_forall_not_mem.2 fun holder hin => ?_
      cases holder with
      | capture => exact h.capture.1 hin happlied
      | recording => exact h.recording.1 hin hactive
    rwa [hholders] at hback
  grabs := h.grabbed

/-- **Nested captures leave the window as they found it.** In every run of screenshots, recordings and frames in which
what ends is what began last. -/
theorem left_as_found (window : Window) {evs : List Event} (hm : Meets step Nested (init window) evs) :
    AsFound window (run step (init window) evs) :=
  (run_invariant step (fun _ e hn h => held_step e hn h) hm (held_init window)).asFound

/-- a world view that supports custom sizes, with a render target of the size -/
def sampleEnv (width height : ℤ) : Env := ⟨true, false, 3, some (width, height), none⟩

def sampleWindow : Window := ⟨854, 480, 2, false⟩

/-- a recording at the window's size, with the HUD or without -/
def sampleStart (hud : Bool) : Event := .recordStart (sampleEnv 854 480) ⟨some "evidence", none, none, none, some hud⟩ 0 none

/-- a screenshot without the HUD within a recording -/
def nestedRun : List Event :=
  [sampleStart true, .request 0 0 false] ++ List.replicate 3 (.captureFrame (sampleEnv 854 480)) ++ [.recordStop]

theorem left_as_found_sample : AsFound sampleWindow (run step (init sampleWindow) nestedRun) ∧
    (run step (init sampleWindow) nestedRun).grabs = [⟨false, true⟩] :=
  ⟨left_as_found sampleWindow (by decide), by decide⟩

/-- a recording without the HUD that is stopped under a screenshot without it -/
def hudRun : List Event :=
  [sampleStart false, .request 0 0 false, .captureFrame (sampleEnv 854 480), .recordStop] ++
    List.replicate 2 (.captureFrame (sampleEnv 854 480))

/-- a recording at its own size that begins under a screenshot at another -/
def sizeRun : List Event :=
  [.request 640 360 true, .captureFrame (sampleEnv 854 480),
    .recordStart (sampleEnv 640 360) ⟨some "landscape", none, none, none, none⟩ 0 none] ++
    List.replicate 7 (.captureFrame (sampleEnv 1920 1080)) ++ [.recordStop]

/-- Where the two overlap, the one that ends last puts the other's changes back: the HUD stays hidden, and the screenshot
shows it; the window keeps the size of a screenshot that is over. -/
theorem overlap_resurrects :
    (run step (init sampleWindow) hudRun).window = ⟨854, 480, 2, true⟩ ∧
    (run step (init sampleWindow) hudRun).grabs = [⟨false, false⟩] ∧
    ¬ AsFound sampleWindow (run step (init sampleWindow) hudRun) ∧
    (run step (init sampleWindow) sizeRun).window = ⟨640, 360, 3, false⟩ ∧
    ¬ AsFound sampleWindow (run step (init sampleWindow) sizeRun) := by
  refine ⟨by decide, by decide, ?_, by decide, ?_⟩
  · exact fun h => absurd (h.window (by decide) (by decide)) (by decide)
  · exact fun h => absurd (h.window (by decide) (by decide)) (by decide)

end EspectralClient.Menu.AgentCapture
