/-
One live channel for the media player.

A new track asks for a handle without looking at the one it holds, and nothing asks again while a request is believed to
be under way; so two handles may read one ring, and a playing track may stay mute.

- `OneChannel`: every handle but the held one is released, a request that is waited for is under way, and a playing track
  has a channel, or a request under way, after a tick.
- `Orderly`: a handle arrives when none is held unreleased, null only when another request is under way, and so on.
- `one_channel_iff`: a run keeps one channel exactly when all its steps are orderly.
- `two_readers`: the next track starts while the last one's handle is live.
-/
import EspectralClient.Lib.Run
import EspectralClient.Menu.MediaAudio

namespace EspectralClient.MediaAudio

open EspectralClient.Lib

/-! ## What is claimed of a state -/

/-- the handle at this place was obtained and is not released -/
def Live (m : Audio) (i : ℕ) : Prop := ∃ h, m.handles[i]? = some h ∧ h.released = false

/-- the handle at this place reads the ring -/
def Reads (m : Audio) (i : ℕ) : Prop :=
  ∃ h, m.handles[i]? = some h ∧ h.released = false ∧ h.stream = true

/-- a live channel, or a request for one -/
def Channelled (m : Audio) : Prop :=
  (m.state = .active ∧ ∃ i, m.handle = some i ∧ stoppedAt m i = false) ∨ (m.state = .requested ∧ 0 < m.outstanding)

structure OneChannel (m : Audio) : Prop where
  /-- at most one handle reads the ring, and it is the field -/
  reader : ∀ i, Reads m i → m.handle = some i
  /-- every other handle obtained is released -/
  others : ∀ i, Live m i → m.handle = some i
  /-- a request that is waited for is under way; its handle will be taken -/
  requested : m.state = .requested → 0 < m.outstanding
  /-- a track that is playing is not left mute by a tick -/
  channelled : m.ticked = true → m.playing = true → Channelled m

/-- the field holds a handle that is not released -/
def heldLive (m : Audio) : Bool := m.handle.any fun i => (m.handles[i]?).any fun h => !h.released

/-- the step is taken as the state expects it -/
def Orderly (m : Audio) : Op → Prop
  | .startStreaming pool => pool = .missing → 0 < m.outstanding
  | .created given =>
    0 < m.outstanding → m.state = .requested → if given then heldLive m = false else 1 < m.outstanding
  | .tick manager pool =>
    manager = true → (m.playing = true → m.state ≠ .idle) ∧
      (lost m = true → pool = .asked ∨ pool = .missing ∧ 0 < m.outstanding)
  | .setPaused _ | .stopStreaming | .destroy _ => True

/-- a channel is held or waited for only while a track is playing -/
def ForTrack (m : Audio) : Prop := m.state ≠ .idle → m.playing = true

theorem one_channel_initial : OneChannel initial where
  reader := by simp [Reads, initial]
  others := by simp [Live, initial]
  requested := by simp [initial]
  channelled := by simp [initial]

/-! ## Handles -/

theorem Reads.live {m : Audio} {i : ℕ} (h : Reads m i) : Live m i :=
  let ⟨hd, hget, hreleased, _⟩ := h
  ⟨hd, hget, hreleased⟩

/-- the first clause of `OneChannel` follows from the second -/
theorem OneChannel.of {m : Audio} (others : ∀ i, Live m i → m.handle = some i)
    (requested : m.state = .requested → 0 < m.outstanding)
    (channelled : m.ticked = true → m.playing = true → Channelled m) : OneChannel m :=
  ⟨fun i h => others i h.live, others, requested, channelled⟩

/-- of one channel, none is live exactly if the held one is not -/
theorem OneChannel.none_live_iff {m : Audio} (h : OneChannel m) : (∀ i, ¬ Live m i) ↔ heldLive m = false := by
  rw [heldLive, Option.any_eq_false]
  constructor
  · intro hnone i _
    rw [Option.any_eq_false]
    intro hd hget
    cases hreleased : hd.released with
    | false => exact absurd ⟨hd, hget, hreleased⟩ (hnone i)
    | true => rfl
  · rintro hheld i ⟨hd, hget, hreleased⟩
    have hentry := hheld i (h.others i ⟨hd, hget, hreleased⟩)
    rw [hget, Option.any_some, hreleased] at hentry
    cases hentry

theorem live_lt {m : Audio} {i : ℕ} (h : Live m i) : i < m.handles.length := by
  obtain ⟨hd, hget, -⟩ := h
  exact (List.getElem?_eq_some_iff.1 hget).1

@[simp] theorem release_handle (m : Audio) (i : ℕ) : (release m i).handle = m.handle := rfl
@[simp] theorem release_state (m : Audio) (i : ℕ) : (release m i).state = m.state := rfl
@[simp] theorem release_outstanding (m : Audio) (i : ℕ) : (release m i).outstanding = m.outstanding := rfl
@[simp] theorem release_playing (m : Audio) (i : ℕ) : (release m i).playing = m.playing := rfl

/-- only the released handle changes -/
theorem live_release {m : Audio} {i j : ℕ} : Live (release m i) j ↔ Live m j ∧ j ≠ i := by
  simp only [Live, release, List.getElem?_modify]
  constructor
  · rintro ⟨hd, hget, hreleased⟩
    obtain ⟨h, hh, rfl⟩ := Option.map_eq_some_iff.1 hget
    by_cases hij : i = j
    · simp [hij] at hreleased
    · rw [if_neg hij] at hreleased
      exact ⟨⟨h, hh, hreleased⟩, Ne.symm hij⟩
  · rintro ⟨⟨h, hh, hreleased⟩, hne⟩
    exact ⟨h, by rw [hh, Option.map_eq_map, Option.map_some, if_neg (Ne.symm hne)], hreleased⟩

/-- stopping a handle from outside releases nothing -/
theorem live_destroy {m : Audio} {i j : ℕ} :
    Live { m with handles := m.handles.modify i fun h => { h with stopped := true } } j ↔ Live m j := by
  simp only [Live, List.getElem?_modify]
  constructor
  · rintro ⟨hd, hget, hreleased⟩
    obtain ⟨h, hh, rfl⟩ := Option.map_eq_some_iff.1 hget
    refine ⟨h, hh, ?_⟩
    split_ifs at hreleased <;> exact hreleased
  · rintro ⟨h, hh, hreleased⟩
    refine ⟨if i = j then { h with stopped := true } else h, by rw [hh, Option.map_eq_map, Option.map_some], ?_⟩
    split_ifs <;> exact hreleased

theorem live_append {m : Audio} {h : ChannelHandle} {j : ℕ} :
    Live { m with handles := m.handles ++ [h] } j ↔ Live m j ∨ j = m.handles.length ∧ h.released = false := by
  simp only [Live]
  constructor
  · rintro ⟨hd, hget, hreleased⟩
    rcases Nat.lt_trichotomy j m.handles.length with hlt | rfl | hgt
    · rw [List.getElem?_append_left hlt] at hget
      exact Or.inl ⟨hd, hget, hreleased⟩
    · rw [List.getElem?_concat_length, Option.some.injEq] at hget
      exact Or.inr ⟨rfl, hget ▸ hreleased⟩
    · rw [List.getElem?_eq_none (by simp; omega)] at hget
      cases hget
  · rintro (⟨hd, hget, hreleased⟩ | ⟨rfl, hreleased⟩)
    · exact ⟨hd, by rw [List.getElem?_append_left (List.getElem?_eq_some_iff.1 hget).1, hget], hreleased⟩
    · exact ⟨h, List.getElem?_concat_length, hreleased⟩

/-! ## The steps -/

/-- the state a step starts from: the last one, with no tick behind it -/
abbrev begun (m : Audio) : Audio := { m with ticked := false }

theorem OneChannel.begun {m : Audio} (h : OneChannel m) : OneChannel (begun m) :=
  .of h.others h.requested fun ht => Bool.noConfusion ht

theorem start_iff {m : Audio} (h : OneChannel m) (pool : Pool) :
    OneChannel (startStreaming (begun m) pool) ↔ (pool = .missing → 0 < m.outstanding) := by
  cases pool with
  | missing => exact ⟨fun hone _ => hone.requested rfl,
      fun hout => .of h.others (fun _ => hout rfl) fun ht => Bool.noConfusion ht⟩
  | throws => exact ⟨fun _ hp => Pool.noConfusion hp,
      fun _ => .of h.others (fun hs => State.noConfusion hs) fun ht => Bool.noConfusion ht⟩
  | asked => exact ⟨fun _ hp => Pool.noConfusion hp,
      fun _ => .of h.others (fun _ => Nat.succ_pos _) fun ht => Bool.noConfusion ht⟩

/-- a null answer -/
theorem created_null_iff {m : Audio} (h : OneChannel m) :
    OneChannel (created (begun m) false) ↔ (m.state = .requested → 1 < m.outstanding) := by
  have hcreated : created (begun m) false = { begun m with outstanding := m.outstanding - 1 } := rfl
  rw [hcreated]
  constructor
  · intro hone hstate
    have hleft : 0 < m.outstanding - 1 := hone.requested hstate
    omega
  · intro hout
    refine .of h.others (fun hstate => ?_) fun ht => Bool.noConfusion ht
    exact Nat.sub_pos_of_lt (hout hstate)

/-- a handle that is waited for -/
theorem created_taken_iff {m : Audio} (h : OneChannel m) (hstate : m.state = .requested) :
    OneChannel (created (begun m) true) ↔ heldLive m = false := by
  rw [← h.none_live_iff]
  have hcreated : created (begun m) true =
      { begun m with
        outstanding := m.outstanding - 1, handles := m.handles ++ [⟨true, false, false⟩],
        handle := some m.handles.length, state := .active } := by
    simp [created, hstate]
  have hlive : ∀ j, Live (created (begun m) true) j ↔ Live m j ∨ j = m.handles.length := by
    intro j
    rw [hcreated]
    exact live_append.trans (by simp)
  constructor
  · intro hone i hi
    have hfield := hone.others i ((hlive i).2 (Or.inl hi))
    rw [hcreated, Option.some.injEq] at hfield
    exact absurd (live_lt hi) (by omega)
  · intro hnone
    refine .of (fun j hj => ?_) (fun hs => ?_) fun ht => ?_
    · rcases (hlive j).1 hj with hj | rfl
      · exact absurd hj (hnone j)
      · rw [hcreated]
    · rw [hcreated] at hs
      exact State.noConfusion hs
    · rw [hcreated] at ht
      exact Bool.noConfusion ht

/-- a handle that nobody waits for is released at once -/
theorem created_refused {m : Audio} (h : OneChannel m) (hstate : m.state ≠ .requested) :
    OneChannel (created (begun m) true) := by
  have hcreated : created (begun m) true =
      { begun m with outstanding := m.outstanding - 1, handles := m.handles ++ [⟨false, true, true⟩] } := by
    simp [created, hstate]
  rw [hcreated]
  refine .of (fun j hj => ?_) (fun hs => absurd hs hstate) fun ht => Bool.noConfusion ht
  rcases live_append.1 hj with hj | ⟨-, hreleased⟩
  · exact h.others j hj
  · exact Bool.noConfusion hreleased

theorem created_iff {m : Audio} (h : OneChannel m) (given : Bool) :
    OneChannel (step m (.created given)) ↔ Orderly m (.created given) := by
  by_cases hout : m.outstanding = 0
  · have hstep : step m (.created given) = begun m := if_pos hout
    rw [hstep]
    exact ⟨fun _ hpos => absurd hout (Nat.ne_of_gt hpos), fun _ => h.begun⟩
  · have hpos : 0 < m.outstanding := Nat.pos_of_ne_zero hout
    have hstep : step m (.created given) = created (begun m) given := if_neg hout
    rw [hstep]
    cases given with
    | false => exact (created_null_iff h).trans ⟨fun hn _ hs => hn hs, fun ho hs => ho hpos hs⟩
    | true =>
      by_cases hstate : m.state = .requested
      · exact (created_taken_iff h hstate).trans ⟨fun hn _ _ => hn, fun ho => ho hpos hstate⟩
      · exact ⟨fun _ _ hs => absurd hs hstate, fun _ => created_refused h hstate⟩

theorem stop_keeps {m : Audio} (h : OneChannel m) : OneChannel (stopStreaming (begun m)) := by
  unfold stopStreaming
  cases hhandle : m.handle with
  | none =>
    refine .of (fun j hj => ?_) (fun hs => State.noConfusion hs) fun ht => Bool.noConfusion ht
    have hfield := h.others j hj
    rw [hhandle] at hfield
    cases hfield
  | some i =>
    refine .of (fun j hj => ?_) (fun hs => State.noConfusion hs) fun ht => Bool.noConfusion ht
    obtain ⟨hj, hne⟩ := live_release.1 hj
    have hfield := h.others j hj
    rw [hhandle, Option.some.injEq] at hfield
    exact absurd hfield.symm hne

/-- a tick that finds the channel gone lets go of it and asks for another -/
theorem tick_lost_iff {m : Audio} (h : OneChannel m) (haux : ForTrack m) (hlost : lost m = true) (pool : Pool) :
    OneChannel { tick (begun m) pool with ticked := true } ↔ pool = .asked ∨ pool = .missing ∧ 0 < m.outstanding := by
  have hactive : m.state = .active := by
    simp only [lost, Bool.and_eq_true, decide_eq_true_eq] at hlost
    exact hlost.1
  have hplaying : m.playing = true := haux (by rw [hactive]; exact State.noConfusion)
  -- what is left of the handles is released
  obtain ⟨rest, htick, hout, hplay, hnone⟩ : ∃ rest : Audio,
      tick (begun m) pool = acquire { rest with handle := none, state := .requested } pool ∧
        rest.outstanding = m.outstanding ∧ rest.playing = true ∧ ∀ i, ¬ Live rest i := by
    have hlost' : lost (begun m) = true := hlost
    cases hhandle : m.handle with
    | none =>
      refine ⟨begun m, by simp [tick, hlost', hhandle], rfl, hplaying, fun i hi => ?_⟩
      have hfield := h.others i hi
      rw [hhandle] at hfield
      cases hfield
    | some k =>
      refine ⟨release (begun m) k, by simp [tick, hlost', hhandle], rfl, hplaying, fun i hi => ?_⟩
      obtain ⟨hi, hne⟩ := live_release.1 hi
      have hfield := h.others i hi
      rw [hhandle, Option.some.injEq] at hfield
      exact hne hfield.symm
  rw [htick]
  cases pool with
  | asked =>
    refine ⟨fun _ => Or.inl rfl, fun _ => .of (fun i hi => absurd hi (hnone i)) (fun _ => Nat.succ_pos _) fun _ _ => ?_⟩
    exact Or.inr ⟨rfl, Nat.succ_pos _⟩
  | missing =>
    rw [← hout]
    constructor
    · intro hone
      exact Or.inr ⟨rfl, hone.requested rfl⟩
    · rintro (hp | ⟨-, hpos⟩)
      · cases hp
      · exact .of (fun i hi => absurd hi (hnone i)) (fun _ => hpos) fun _ _ => Or.inr ⟨rfl, hpos⟩
  | throws =>
    constructor
    · intro hone
      rcases hone.channelled rfl hplay with ⟨hs, -⟩ | ⟨hs, -⟩ <;> cases hs
    · rintro (hp | ⟨hp, -⟩) <;> cases hp

theorem tick_found_iff {m : Audio} (h : OneChannel m) (hlost : lost m = false) (pool : Pool) :
    OneChannel { tick (begun m) pool with ticked := true } ↔ (m.playing = true → m.state ≠ .idle) := by
  have htick : tick (begun m) pool = begun m := by
    have hlost' : lost (begun m) = false := hlost
    simp [tick, hlost']
  rw [htick]
  constructor
  · intro hone hplaying hidle
    rcases hone.channelled rfl hplaying with ⟨hs, -⟩ | ⟨hs, -⟩ <;> cases hidle.symm.trans hs
  · intro hstate
    refine .of h.others h.requested fun _ hplaying => ?_
    cases hs : m.state with
    | idle => exact absurd hs (hstate hplaying)
    | requested => exact Or.inr ⟨hs, h.requested hs⟩
    | active =>
      cases hhandle : m.handle with
      | none => simp [lost, hs, hhandle] at hlost
      | some i =>
        have hstopped : stoppedAt m i = false := by simpa [lost, hs, hhandle] using hlost
        exact Or.inl ⟨hs, i, hhandle, hstopped⟩

theorem step_iff {m : Audio} (h : OneChannel m) (haux : ForTrack m) (o : Op) : OneChannel (step m o) ↔ Orderly m o := by
  cases o with
  | startStreaming pool => exact start_iff h pool
  | created given => exact created_iff h given
  | setPaused value => exact ⟨fun _ => trivial, fun _ => .of h.others h.requested fun ht => Bool.noConfusion ht⟩
  | stopStreaming => exact ⟨fun _ => trivial, fun _ => stop_keeps h⟩
  | destroy i =>
    refine ⟨fun _ => trivial, fun _ => .of (fun j hj => ?_) h.requested fun ht => Bool.noConfusion ht⟩
    exact h.others j (live_destroy.1 hj)
  | tick manager pool =>
    cases manager with
    | false => exact ⟨fun _ hm => Bool.noConfusion hm, fun _ => h.begun⟩
    | true =>
      cases hlost : lost m with
      | true =>
        refine (tick_lost_iff h haux hlost pool).trans ⟨fun hp _ => ⟨fun _ hidle => ?_, fun _ => hp⟩, fun ho => (ho rfl).2 hlost⟩
        simp [lost, hidle] at hlost
      | false =>
        refine (tick_found_iff h hlost pool).trans ⟨fun hs _ => ⟨hs, fun hl => ?_⟩, fun ho => (ho rfl).1⟩
        rw [hlost] at hl
        exact Bool.noConfusion hl

/-! ## Runs -/

theorem acquire_forTrack {m : Audio} (h : m.playing = true) (pool : Pool) : ForTrack (acquire m pool) := by
  intro _
  cases pool <;> exact h

theorem step_forTrack (m : Audio) (o : Op) (h : ForTrack m) : ForTrack (step m o) := by
  cases o with
  | startStreaming pool => exact acquire_forTrack rfl pool
  | setPaused value => exact h
  | destroy i => exact h
  | created given =>
    simp only [step]
    split_ifs with hout
    · exact h
    · simp only [created]
      split_ifs with hgiven hstate
      · exact h
      · exact fun _ => h fun hidle => State.noConfusion (hidle.symm.trans hstate)
      · exact h
  | stopStreaming =>
    intro hstate
    refine absurd ?_ hstate
    simp only [step, stopStreaming]
    cases m.handle <;> rfl
  | tick manager pool =>
    cases manager with
    | false => exact h
    | true =>
      show ForTrack { tick (begun m) pool with ticked := true }
      unfold tick
      split_ifs with hlost
      · have hplaying : m.playing = true := by
          refine h fun hidle => ?_
          simp [lost, hidle] at hlost
        cases m.handle <;> cases pool <;> exact fun _ => hplaying
      · exact h

/-- **One live channel.** In every run, each state reached has one live channel exactly when every step was orderly. -/
theorem one_channel_iff (ops : List Op) :
    (∀ before, before <+: ops → OneChannel (run step initial before)) ↔ Meets step Orderly initial ops := by
  have hforTrack : ∀ before, ForTrack (run step initial before) := fun before =>
    run_preserves step step_forTrack before fun h => absurd rfl h
  have hboth : ∀ m o, OneChannel m ∧ ForTrack m → (OneChannel (step m o) ∧ ForTrack (step m o) ↔ Orderly m o) := by
    intro m o hm
    exact (and_iff_left (step_forTrack m o hm.2)).trans (step_iff hm.1 hm.2 o)
  rw [← @safe_iff_meets _ _ step Orderly (fun m => OneChannel m ∧ ForTrack m) hboth initial
    ⟨one_channel_initial, hforTrack []⟩ ops]
  exact forall₂_congr fun before _ => (and_iff_left (hforTrack before)).symm

instance (m : Audio) (o : Op) : Decidable (Orderly m o) :=
  match o with
  | .startStreaming pool => inferInstanceAs (Decidable (pool = .missing → 0 < m.outstanding))
  | .created true => inferInstanceAs (Decidable (0 < m.outstanding → m.state = .requested → heldLive m = false))
  | .created false => inferInstanceAs (Decidable (0 < m.outstanding → m.state = .requested → 1 < m.outstanding))
  | .tick manager pool => inferInstanceAs (Decidable (manager = true → (m.playing = true → m.state ≠ .idle) ∧
      (lost m = true → pool = .asked ∨ pool = .missing ∧ 0 < m.outstanding)))
  | .setPaused _ | .stopStreaming | .destroy _ => isTrue trivial

/-- a track, a reload of the sound engine that a tick repairs, and the next track after a stop -/
example : Meets step Orderly initial [.startStreaming .asked, .created true, .tick true .asked, .destroy 0,
    .tick true .asked, .created true, .stopStreaming, .startStreaming .asked, .created true, .tick true .asked] := by
  decide

/-- The next track's handle arrives while the last one's is live. -/
theorem two_readers : ¬ OneChannel (run step initial [.startStreaming .asked, .created true, .startStreaming .asked,
    .created true]) := by
  intro h
  have hfirst := h.others 0 ⟨⟨true, false, false⟩, rfl, rfl⟩
  exact absurd hfirst (by decide)

end EspectralClient.MediaAudio
