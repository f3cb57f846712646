/-
The pump of the engine's events to the interface (`native/app/src/bridge.rs`, `start_event_pump`): a task that queues
what it receives and posts a closure when none is on its way, and the closures, which run on the interface's thread.

- `St`, `step`: the pump, the closure that runs and the ones that wait, step by step, in any order.
- `Inv`: no event is lost or out of place, and what is queued will be taken.
- `effort`: what is left to do; every step but receiving takes some of it.
- `pump_correct`: what holds in every state of every run.
- `queued_unposted`: an event is queued before its closure is posted.
-/
import EspectralClient.Lib.Run

namespace EspectralClient.EventPump

open Lib

/-! ## Model -/

variable {E : Type}

/-- where the task is in its loop -/
inductive Pump (E : Type) where
  /-- waiting for an event -/
  | idle
  /-- with an event to push -/
  | got (ev : E)
  /-- before the swap -/
  | pushed
  /-- the flag was clear: a closure is to be posted -/
  | posting
  /-- the channel is closed -/
  | stopped

/-- where the closure is that runs, if one does -/
inductive Ui (E : Type) where
  | idle
  /-- before the store -/
  | started
  /-- before the take -/
  | stored
  /-- with what it took, before it asks for the window -/
  | took (batch : List E)
  | dispatching (batch : List E)

structure St (E : Type) where
  queue : List E
  scheduled : Bool
  pump : Pump E
  /-- closures that wait for the event loop -/
  posted : ℕ
  ui : Ui E
  /-- the window exists -/
  window : Bool
  /-- the event loop did not take a closure -/
  refused : Bool
  /-- what came out of the channel, what the handlers got, and what was taken without a window -/
  received : List E
  dispatched : List E
  dropped : List E

def St.init : St E := ⟨[], false, .idle, 0, .idle, true, false, [], [], []⟩

inductive Op (E : Type) where
  | receive (ev : E)
  /-- the channel skipped events -/
  | lagged
  | closed
  | push
  | swap
  /-- `invoke_from_event_loop`, whose answer is ignored -/
  | post (accepted : Bool)
  /-- the next closure starts -/
  | start
  | store
  | take
  | upgrade
  | dispatch
  | finish
  | closeWindow

/-- an operation that is not next leaves the state alone -/
def step (s : St E) : Op E → St E
  | .receive ev =>
    match s.pump with
    | .idle => { s with pump := .got ev, received := s.received ++ [ev] }
    | _ => s
  | .lagged => s
  | .closed =>
    match s.pump with
    | .idle => { s with pump := .stopped }
    | _ => s
  | .push =>
    match s.pump with
    | .got ev => { s with pump := .pushed, queue := s.queue ++ [ev] }
    | _ => s
  | .swap =>
    match s.pump with
    | .pushed => { s with pump := if s.scheduled then .idle else .posting, scheduled := true }
    | _ => s
  | .post accepted =>
    match s.pump with
    | .posting =>
      if accepted then { s with pump := .idle, posted := s.posted + 1 } else { s with pump := .idle, refused := true }
    | _ => s
  | .start =>
    match s.ui, s.posted with
    | .idle, n + 1 => { s with ui := .started, posted := n }
    | _, _ => s
  | .store =>
    match s.ui with
    | .started => { s with ui := .stored, scheduled := false }
    | _ => s
  | .take =>
    match s.ui with
    | .stored => { s with ui := .took s.queue, queue := [] }
    | _ => s
  | .upgrade =>
    match s.ui with
    | .took batch =>
      if s.window then { s with ui := .dispatching batch } else { s with ui := .idle, dropped := s.dropped ++ batch }
    | _ => s
  | .dispatch =>
    match s.ui with
    | .dispatching (ev :: batch) => { s with ui := .dispatching batch, dispatched := s.dispatched ++ [ev] }
    | _ => s
  | .finish =>
    match s.ui with
    | .dispatching [] => { s with ui := .idle }
    | _ => s
  | .closeWindow => { s with window := false }

/-! ## What is promised -/

/-- the event the task has in hand -/
def Pump.inHand : Pump E → List E
  | .got ev => [ev]
  | _ => []

/-- the events the closure has in hand -/
def Ui.inHand : Ui E → List E
  | .took batch => batch
  | .dispatching batch => batch
  | _ => []

/-- a closure that will take the queue waits or runs -/
def St.WillTake (s : St E) : Prop := 0 < s.posted ∨ s.ui = .started ∨ s.ui = .stored

/-- the task has pushed and will look at the flag, or will post a closure -/
def St.WillPost (s : St E) : Prop := s.pump = .pushed ∨ s.pump = .posting

/-- nothing is left to do but to receive -/
def St.Quiet (s : St E) : Prop := (s.pump = .idle ∨ s.pump = .stopped) ∧ s.ui = .idle ∧ s.posted = 0

/-- the steps of an event on its way, and of the closures -/
def Op.Works : Op E → Prop
  | .push | .swap | .post _ | .start | .store | .take | .upgrade | .dispatch | .finish => True
  | _ => False

/-- whether an operation is next -/
def Enabled (s : St E) : Op E → Prop
  | .receive _ | .closed => s.pump = .idle
  | .lagged | .closeWindow => True
  | .push => ∃ ev, s.pump = .got ev
  | .swap => s.pump = .pushed
  | .post _ => s.pump = .posting
  | .start => s.ui = .idle ∧ 0 < s.posted
  | .store => s.ui = .started
  | .take => s.ui = .stored
  | .upgrade => ∃ batch, s.ui = .took batch
  | .dispatch => ∃ ev batch, s.ui = .dispatching (ev :: batch)
  | .finish => s.ui = .dispatching []

/-- the steps an event or a closure has still before it -/
def Pump.effort : Pump E → ℕ
  | .got _ => 9
  | .pushed => 7
  | .posting => 6
  | _ => 0

def Ui.effort : Ui E → ℕ
  | .idle => 0
  | .started => 4
  | .stored => 3
  | .took _ => 2
  | .dispatching _ => 1

def effort (s : St E) : ℕ :=
  s.pump.effort + 5 * s.posted + s.ui.effort + s.queue.length + s.ui.inHand.length

/-- what holds in a state of a run -/
structure Correct (s : St E) : Prop where
  /-- each received event is in one place, once, and all are in the order they came -/
  order : s.received = s.dispatched ++ s.dropped ++ s.ui.inHand ++ s.queue ++ s.pump.inHand
  /-- with a window, what is taken is dispatched -/
  window : s.window = true → s.dropped = []
  /-- what is queued will be taken -/
  taken : s.refused = false → s.queue ≠ [] → s.WillTake ∨ s.WillPost
  /-- when nothing is left to do, every event was dispatched -/
  quiet : s.refused = false → s.window = true → s.Quiet → s.dispatched = s.received
  /-- as long as something is left to do, some step is next -/
  next : ¬ s.Quiet → ∃ o, o.Works ∧ Enabled s o
  /-- and each such step takes some of what is left -/
  works : ∀ o, o.Works → Enabled s o → effort (step s o) < effort s

/-! ## The invariant -/

structure Inv (s : St E) : Prop where
  order : s.received = s.dispatched ++ s.dropped ++ s.ui.inHand ++ s.queue ++ s.pump.inHand
  window : s.dropped ≠ [] → s.window = false ∧ ∀ batch, s.ui ≠ .dispatching batch
  queued : s.refused = false → s.queue ≠ [] → s.WillTake ∨ s.WillPost
  flag : s.refused = false → s.scheduled = true → 0 < s.posted ∨ s.ui = .started ∨ s.pump = .posting

theorem init_inv : Inv (St.init : St E) :=
  ⟨rfl, fun h => absurd rfl h, fun _ h => absurd rfl h, fun _ h => by cases h⟩

/-- the pump's own steps -/
theorem receive_inv {s : St E} (h : Inv s) (ev : E) : Inv (step s (.receive ev)) := by
  obtain ⟨queue, scheduled, pump, posted, ui, win, refused, received, dispatched, dropped⟩ := s
  cases pump with
  | idle =>
    have horder : received = dispatched ++ dropped ++ ui.inHand ++ queue ++ [] := h.order
    refine ⟨?_, h.window, ?_, ?_⟩
    · rw [List.append_nil] at horder
      simp only [step, Pump.inHand, horder]
    · intro hno hne
      rcases h.queued hno hne with htake | hpump | hpump
      · exact Or.inl htake
      · cases hpump
      · cases hpump
    · intro hno hset
      rcases h.flag hno hset with hposted | hui | hpump
      · exact Or.inl hposted
      · exact Or.inr (Or.inl hui)
      · cases hpump
  | _ => exact h

theorem closed_inv {s : St E} (h : Inv s) : Inv (step s .closed) := by
  obtain ⟨queue, scheduled, pump, posted, ui, win, refused, received, dispatched, dropped⟩ := s
  cases pump with
  | idle =>
    refine ⟨h.order, h.window, ?_, ?_⟩
    · intro hno hne
      rcases h.queued hno hne with htake | hpump | hpump
      · exact Or.inl htake
      · cases hpump
      · cases hpump
    · intro hno hset
      rcases h.flag hno hset with hposted | hui | hpump
      · exact Or.inl hposted
      · exact Or.inr (Or.inl hui)
      · cases hpump
  | _ => exact h

theorem push_inv {s : St E} (h : Inv s) : Inv (step s .push) := by
  obtain ⟨queue, scheduled, pump, posted, ui, win, refused, received, dispatched, dropped⟩ := s
  cases pump with
  | got ev =>
    have horder : received = dispatched ++ dropped ++ ui.inHand ++ queue ++ [ev] := h.order
    refine ⟨?_, h.window, fun _ _ => Or.inr (Or.inl rfl), ?_⟩
    · simp only [step, Pump.inHand, horder, List.append_assoc, List.append_nil]
    · intro hno hset
      rcases h.flag hno hset with hposted | hui | hpump
      · exact Or.inl hposted
      · exact Or.inr (Or.inl hui)
      · cases hpump
  | _ => exact h

/-- the flag is set: a closure waits or has not cleared it; else one is posted -/
theorem swap_inv {s : St E} (h : Inv s) : Inv (step s .swap) := by
  obtain ⟨queue, scheduled, pump, posted, ui, win, refused, received, dispatched, dropped⟩ := s
  cases pump with
  | pushed =>
    cases scheduled with
    | true =>
      have hflag : refused = false → 0 < posted ∨ ui = .started := by
        intro hno
        rcases h.flag hno rfl with hposted | hui | hpump
        · exact Or.inl hposted
        · exact Or.inr hui
        · cases hpump
      refine ⟨h.order, h.window, ?_, ?_⟩
      · intro hno _
        rcases hflag hno with hposted | hui
        · exact Or.inl (Or.inl hposted)
        · exact Or.inl (Or.inr (Or.inl hui))
      · intro hno _
        rcases hflag hno with hposted | hui
        · exact Or.inl hposted
        · exact Or.inr (Or.inl hui)
    | false => exact ⟨h.order, h.window, fun _ _ => Or.inr (Or.inr rfl), fun _ _ => Or.inr (Or.inr rfl)⟩
  | _ => exact h

theorem post_inv {s : St E} (h : Inv s) (accepted : Bool) : Inv (step s (.post accepted)) := by
  obtain ⟨queue, scheduled, pump, posted, ui, win, refused, received, dispatched, dropped⟩ := s
  cases pump with
  | posting =>
    cases accepted with
    | true =>
      exact ⟨h.order, h.window, fun _ _ => Or.inl (Or.inl (Nat.succ_pos posted)), fun _ _ => Or.inl (Nat.succ_pos posted)⟩
    | false => exact ⟨h.order, h.window, fun hno _ => (by cases hno), fun hno _ => (by cases hno)⟩
  | _ => exact h

/-- the closure's steps -/
theorem start_inv {s : St E} (h : Inv s) : Inv (step s .start) := by
  obtain ⟨queue, scheduled, pump, posted, ui, win, refused, received, dispatched, dropped⟩ := s
  cases ui with
  | idle =>
    cases posted with
    | zero => exact h
    | succ n =>
      refine ⟨h.order, ?_, fun _ _ => Or.inl (Or.inr (Or.inl rfl)), fun _ _ => Or.inr (Or.inl rfl)⟩
      exact fun hne => ⟨(h.window hne).1, fun batch hui => by cases hui⟩
  | _ => exact h

theorem store_inv {s : St E} (h : Inv s) : Inv (step s .store) := by
  obtain ⟨queue, scheduled, pump, posted, ui, win, refused, received, dispatched, dropped⟩ := s
  cases ui with
  | started =>
    refine ⟨h.order, ?_, fun _ _ => Or.inl (Or.inr (Or.inr rfl)), fun _ hset => by cases hset⟩
    exact fun hne => ⟨(h.window hne).1, fun batch hui => by cases hui⟩
  | _ => exact h

theorem take_inv {s : St E} (h : Inv s) : Inv (step s .take) := by
  obtain ⟨queue, scheduled, pump, posted, ui, win, refused, received, dispatched, dropped⟩ := s
  cases ui with
  | stored =>
    have horder : received = dispatched ++ dropped ++ [] ++ queue ++ pump.inHand := h.order
    refine ⟨?_, ?_, fun _ hne => absurd rfl hne, ?_⟩
    · simp only [step, Ui.inHand, horder, List.append_nil]
    · exact fun hne => ⟨(h.window hne).1, fun batch hui => by cases hui⟩
    · intro hno hset
      rcases h.flag hno hset with hposted | hui | hpump
      · exact Or.inl hposted
      · cases hui
      · exact Or.inr (Or.inr hpump)
  | _ => exact h

/-- what is left of a closure that took the queue -/
theorem rest_inv {s s' : St E} (h : Inv s) (hqueue : s'.queue = s.queue) (hscheduled : s'.scheduled = s.scheduled)
    (hpump : s'.pump = s.pump) (hposted : s'.posted = s.posted) (hrefused : s'.refused = s.refused)
    (hui : s.ui ≠ .started ∧ s.ui ≠ .stored)
    (horder : s'.received = s'.dispatched ++ s'.dropped ++ s'.ui.inHand ++ s'.queue ++ s'.pump.inHand)
    (hwindow : s'.dropped ≠ [] → s'.window = false ∧ ∀ batch, s'.ui ≠ .dispatching batch) : Inv s' := by
  refine ⟨horder, hwindow, ?_, ?_⟩
  · intro hno hne
    rw [hrefused] at hno
    rw [hqueue] at hne
    rcases h.queued hno hne with (htake | htake | htake) | hpost | hpost
    · exact Or.inl (Or.inl (by rw [hposted]; exact htake))
    · exact absurd htake hui.1
    · exact absurd htake hui.2
    · exact Or.inr (Or.inl (hpump.trans hpost))
    · exact Or.inr (Or.inr (hpump.trans hpost))
  · intro hno hset
    rw [hrefused] at hno
    rw [hscheduled] at hset
    rcases h.flag hno hset with hwaits | hstarted | hposting
    · exact Or.inl (by rw [hposted]; exact hwaits)
    · exact absurd hstarted hui.1
    · exact Or.inr (Or.inr (hpump.trans hposting))

theorem upgrade_inv {s : St E} (h : Inv s) : Inv (step s .upgrade) := by
  obtain ⟨queue, scheduled, pump, posted, ui, win, refused, received, dispatched, dropped⟩ := s
  cases ui with
  | took batch =>
    have horder : received = dispatched ++ dropped ++ batch ++ queue ++ pump.inHand := h.order
    cases win with
    | true =>
      refine rest_inv h rfl rfl rfl rfl rfl ⟨by simp, by simp⟩ horder ?_
      exact fun hne => by cases (h.window hne).1
    | false =>
      refine rest_inv h rfl rfl rfl rfl rfl ⟨by simp, by simp⟩ ?_ fun _ => ⟨rfl, fun batch hui => by cases hui⟩
      simp only [step, Bool.false_eq_true, if_false, Ui.inHand, horder, List.append_nil, List.append_assoc]
  | _ => exact h

theorem dispatch_inv {s : St E} (h : Inv s) : Inv (step s .dispatch) := by
  obtain ⟨queue, scheduled, pump, posted, ui, win, refused, received, dispatched, dropped⟩ := s
  cases ui with
  | dispatching batch =>
    cases batch with
    | nil => exact h
    | cons ev batch =>
      have hnone : dropped = [] := by
        by_contra hne
        exact (h.window hne).2 _ rfl
      have horder : received = dispatched ++ dropped ++ (ev :: batch) ++ queue ++ pump.inHand := h.order
      refine rest_inv h rfl rfl rfl rfl rfl ⟨by simp, by simp⟩ ?_ fun hne => absurd hnone hne
      simp only [step, Ui.inHand, horder, hnone, List.append_nil, List.append_assoc, List.cons_append, List.nil_append]
  | _ => exact h

theorem finish_inv {s : St E} (h : Inv s) : Inv (step s .finish) := by
  obtain ⟨queue, scheduled, pump, posted, ui, win, refused, received, dispatched, dropped⟩ := s
  cases ui with
  | dispatching batch =>
    cases batch with
    | nil =>
      refine rest_inv h rfl rfl rfl rfl rfl ⟨by simp, by simp⟩ h.order ?_
      exact fun hne => ⟨(h.window hne).1, fun batch hui => by cases hui⟩
    | cons ev batch => exact h
  | _ => exact h

theorem step_inv (s : St E) (o : Op E) (h : Inv s) : Inv (step s o) := by
  cases o with
  | receive ev => exact receive_inv h ev
  | lagged => exact h
  | closed => exact closed_inv h
  | push => exact push_inv h
  | swap => exact swap_inv h
  | post accepted => exact post_inv h accepted
  | start => exact start_inv h
  | store => exact store_inv h
  | take => exact take_inv h
  | upgrade => exact upgrade_inv h
  | dispatch => exact dispatch_inv h
  | finish => exact finish_inv h
  | closeWindow => exact ⟨h.order, fun hne => ⟨rfl, (h.window hne).2⟩, h.queued, h.flag⟩

/-! ## What is left to do -/

theorem exists_next {s : St E} (h : ¬ s.Quiet) : ∃ o, o.Works ∧ Enabled s o := by
  have hui : (s.pump = .idle ∨ s.pump = .stopped) → ∃ o : Op E, o.Works ∧ Enabled s o := by
    intro hpump
    cases hui : s.ui with
    | idle =>
      have hposted : 0 < s.posted := by
        by_contra hzero
        exact h ⟨hpump, hui, by omega⟩
      exact ⟨.start, trivial, hui, hposted⟩
    | started => exact ⟨.store, trivial, hui⟩
    | stored => exact ⟨.take, trivial, hui⟩
    | took batch => exact ⟨.upgrade, trivial, batch, hui⟩
    | dispatching batch =>
      cases batch with
      | nil => exact ⟨.finish, trivial, hui⟩
      | cons ev batch => exact ⟨.dispatch, trivial, ev, batch, hui⟩
  cases hpump : s.pump with
  | idle => exact hui (Or.inl hpump)
  | stopped => exact hui (Or.inr hpump)
  | got ev => exact ⟨.push, trivial, ev, hpump⟩
  | pushed => exact ⟨.swap, trivial, hpump⟩
  | posting => exact ⟨.post true, trivial, hpump⟩

/-- **Every step but receiving takes some of what is left.** -/
theorem effort_step {s : St E} {o : Op E} (hworks : o.Works) (h : Enabled s o) : effort (step s o) < effort s := by
  obtain ⟨queue, scheduled, pump, posted, ui, win, refused, received, dispatched, dropped⟩ := s
  cases o with
  | receive | lagged | closed | closeWindow => exact hworks.elim
  | push =>
    obtain ⟨ev, rfl⟩ : ∃ ev, pump = .got ev := h
    simp only [step, effort, Pump.effort, List.length_append, List.length_singleton]
    omega
  | swap =>
    obtain rfl : pump = .pushed := h
    cases scheduled <;> simp only [step, effort, Pump.effort, if_true, Bool.false_eq_true, if_false] <;> omega
  | post accepted =>
    obtain rfl : pump = .posting := h
    cases accepted <;> simp only [step, effort, Pump.effort, if_true, Bool.false_eq_true, if_false] <;> omega
  | start =>
    obtain ⟨hui, hposted⟩ : ui = .idle ∧ 0 < posted := h
    subst hui
    cases posted with
    | zero => cases hposted
    | succ n =>
      simp only [step, effort, Ui.effort, Ui.inHand]
      omega
  | store =>
    obtain rfl : ui = .started := h
    simp only [step, effort, Ui.effort, Ui.inHand]
    omega
  | take =>
    obtain rfl : ui = .stored := h
    simp only [step, effort, Ui.effort, Ui.inHand, List.length_nil]
    omega
  | upgrade =>
    obtain ⟨batch, rfl⟩ : ∃ batch, ui = .took batch := h
    cases win <;> simp only [step, effort, Ui.effort, Ui.inHand, if_true, Bool.false_eq_true, if_false,
      List.length_nil] <;> omega
  | dispatch =>
    obtain ⟨ev, batch, rfl⟩ : ∃ ev batch, ui = .dispatching (ev :: batch) := h
    simp only [step, effort, Ui.effort, Ui.inHand, List.length_cons]
    omega
  | finish =>
    obtain rfl : ui = .dispatching [] := h
    simp only [step, effort, Ui.effort, Ui.inHand, List.length_nil]
    omega

theorem Inv.correct {s : St E} (h : Inv s) : Correct s := by
  have hwindow : s.window = true → s.dropped = [] := by
    intro hopen
    by_contra hne
    rw [(h.window hne).1] at hopen
    cases hopen
  refine ⟨h.order, hwindow, h.queued, ?_, exists_next, fun o => effort_step⟩
  rintro hno hopen ⟨hpump, hui, hposted⟩
  have hqueue : s.queue = [] := by
    by_contra hne
    rcases h.queued hno hne with (htake | htake | htake) | hpost | hpost
    · omega
    · rw [hui] at htake
      cases htake
    · rw [hui] at htake
      cases htake
    · rcases hpump with hpump | hpump <;> rw [hpump] at hpost <;> cases hpost
    · rcases hpump with hpump | hpump <;> rw [hpump] at hpost <;> cases hpost
  have hhand : s.pump.inHand = [] := by
    rcases hpump with hpump | hpump <;> rw [hpump] <;> rfl
  have horder := h.order
  rw [hwindow hopen, hui, hqueue, hhand] at horder
  simpa [Ui.inHand] using horder.symm

/-- **The pump.** In every state of every run, whatever the order of its steps. -/
theorem pump_correct (E : Type) (ops : List (Op E)) : Correct (run step St.init ops) :=
  (run_preserves step step_inv ops init_inv).correct

/-- **An event is queued before its closure is posted**; without a window it is dropped, and a closure that the event
loop does not take leaves the flag set for good. -/
theorem queued_unposted :
    (∃ s : St ℕ, s = run step St.init [.receive 1, .push] ∧ s.queue = [1] ∧ ¬ s.WillTake) ∧
    (∃ s : St ℕ, s = run step St.init [.receive 1, .push, .swap, .post true, .closeWindow, .start, .store, .take,
      .upgrade] ∧ s.Quiet ∧ s.received = [1] ∧ s.dispatched = []) ∧
    ∃ s : St ℕ, s = run step St.init [.receive 1, .push, .swap, .post false, .receive 2, .push, .swap] ∧
      s.Quiet ∧ s.queue = [1, 2] := by
  refine ⟨⟨_, rfl, rfl, ?_⟩, ⟨_, rfl, ⟨Or.inl rfl, rfl, rfl⟩, rfl, rfl⟩, ⟨_, rfl, ⟨Or.inl rfl, rfl, rfl⟩, rfl⟩⟩
  rintro (h | h | h)
  · exact absurd h (by decide)
  · cases h
  · cases h

end EspectralClient.EventPump
