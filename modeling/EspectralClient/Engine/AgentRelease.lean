/-
A release is final: it takes the launch out of the registry, clears `running`, and then, under the launch lock, answers
every in-flight call, clears the queue and wakes the parked polls.

- `Inv`: a caller waits for an answer exactly when its command has an in-flight entry that names it; the ids of commands
  that callers still own differ; a launch once released is not in the registry and not running.
- `Timely`: callers and polls check `running` outside the launch lock. The steps that keep a release final are those
  whose locked section does not run after the release's, and polls that do not put a batch back after it.
- `release_final`: runs of timely steps. `released_too_early`: a call, a poll and a batch that come late.
-/
import EspectralClient.Engine.AgentAbandon

namespace EspectralClient.AgentRelease

open EspectralClient.Lib EspectralClient.AgentLaunch EspectralClient.AgentQueue
open EspectralClient.AgentAbandon (owned mintedCommand)

/-- the id a caller waits on -/
def waiting (c : Call) : Option String :=
  match c.stage with
  | .pending command => some command.id
  | _ => none

/-- a caller was told nothing: its sending end was dropped -/
def unanswered (c : Call) : Bool :=
  match c.stage with
  | .settled _ .senderDropped | .received _ .senderDropped => true
  | _ => false

/-- nothing is left to wait for -/
structure Final (s : St) : Prop where
  inflight : ∀ id, s.core.inner.inflight.get? id = none
  queue : s.core.inner.queue = []
  waiters : s.core.inner.waiters = []
  /-- parked polls have been woken -/
  woken : ∀ p poll, s.core.polls.get? p = some poll → poll.stage = .parked → poll.waiter.notified
  /-- no caller is left waiting, and each that was answered has the mod's answer or the release error -/
  answered : ∀ k call, s.calls.get? k = some call → waiting call = none ∧ unanswered call = false

/-- after the locked section of the release no call and no poll enters the launch, and no poll puts a batch back; and ids
are not used twice -/
def Timely (s : St) : Op → Prop
  | .enqueue k => ∀ call ∈ s.calls.get? k, ∀ command ∈ mintedCommand call,
      s.release ≠ .done ∧ ∀ c ∈ s.accepted, c.id ≠ command.id
  | .pollEnter p => ∀ poll ∈ s.core.polls.get? p, poll.stage = .checked → s.release ≠ .done
  | .close p | .cancel p => ∀ poll ∈ s.core.polls.get? p, s.release = .done → held poll = []
  | _ => True

instance (s : St) (o : Op) : Decidable (Timely s o) := by
  apply Op.casesOn (motive := fun o => Decidable (Timely s o)) o <;> intros <;> dsimp only [Timely] <;> infer_instance

/-! ## The invariant -/

/-- the command the caller at `k` owns -/
def ownedAt (calls : IndexMap ℕ Call) (k : ℕ) : Option AgentCommand := (calls.get? k).bind owned

/-- the id the caller at `k` waits on -/
def waitingAt (calls : IndexMap ℕ Call) (k : ℕ) : Option String := (calls.get? k).bind waiting

structure Inv (s : St) : Prop where
  wf : s.core.Wf
  waits : ∀ id k, (s.core.inner.inflight.get? id).map Inflight.tx = some k ↔ waitingAt s.calls k = some id
  accepted : ∀ k c, ownedAt s.calls k = some c → c ∈ s.accepted
  distinct : ∀ k k' c c', ownedAt s.calls k = some c → ownedAt s.calls k' = some c' → c.id = c'.id → k = k'
  answered : ∀ k call, s.calls.get? k = some call → unanswered call = false
  unregistered : s.release ≠ .idle → s.registry ≠ .here
  stopped : s.release = .stopped ∨ s.release = .done → s.running = false
  final : s.release = .done → (∀ id, s.core.inner.inflight.get? id = none) ∧ s.core.inner.queue = [] ∧
    s.core.inner.waiters = []

theorem inv_start (key : String) : Inv (start key) where
  wf := wf_start key
  waits _ _ := by simp [start, waitingAt]
  accepted _ _ h := by cases h
  distinct _ _ _ _ h := by cases h
  answered _ _ h := by cases h
  unregistered h := absurd rfl h
  stopped h := by rcases h with h | h <;> cases h
  final h := by cases h

theorem Inv.isFinal {s : St} (h : Inv s) (hd : s.release = .done) : Final s := by
  obtain ⟨hi, hq, hw⟩ := h.final hd
  refine ⟨hi, hq, hw, ?_, fun k call hk => ⟨?_, h.answered k call hk⟩⟩
  · intro p poll hp hst
    rcases h.wf.woken p poll hp hst with hm | hn
    · rw [hw] at hm; cases hm
    · exact hn
  · by_contra hne
    obtain ⟨id, hid⟩ := Option.ne_none_iff_exists'.1 hne
    have := (h.waits id k).2 (by simp [waitingAt, hk, hid])
    rw [hi] at this
    cases this

/-! ### Calls -/

section Calls

variable (calls : IndexMap ℕ Call) (k k' : ℕ)

theorem waitingAt_insert (call : Call) :
    waitingAt (calls.insert k call) k' = if k = k' then waiting call else waitingAt calls k' := by
  simp only [waitingAt, IndexMap.get?_insert]
  split_ifs <;> rfl

theorem ownedAt_insert (call : Call) :
    ownedAt (calls.insert k call) k' = if k = k' then owned call else ownedAt calls k' := by
  simp only [ownedAt, IndexMap.get?_insert]
  split_ifs <;> rfl

/-- a caller that is answered no longer waits -/
theorem waitingAt_settle (outcome : Outcome) :
    waitingAt (settle calls k outcome) k' = if k = k' then none else waitingAt calls k' := by
  unfold settle
  split
  · rw [waitingAt_insert]; rfl
  · rename_i hk
    split_ifs with he
    · subst he
      cases hc : calls.get? k with
      | none => simp [waitingAt, hc]
      | some call =>
        obtain ⟨tool, args, timeoutMs, stage⟩ := call
        cases stage with
        | pending command => exact absurd hc (hk _ _ _ _)
        | _ => simp [waitingAt, hc, waiting]
    · rfl

theorem ownedAt_settle (outcome : Outcome) : ownedAt (settle calls k outcome) k' = ownedAt calls k' := by
  unfold settle
  split
  · rename_i hk
    rw [ownedAt_insert]
    split_ifs with he
    · subst he; simp [ownedAt, hk, owned]
    · rfl
  · rfl

theorem unanswered_settle {outcome : Outcome} (h : ∀ k call, calls.get? k = some call → unanswered call = false)
    (ho : outcome ≠ .senderDropped) (call : Call) (hc : (settle calls k outcome).get? k' = some call) :
    unanswered call = false := by
  unfold settle at hc
  split at hc
  · rw [IndexMap.get?_insert] at hc
    split_ifs at hc
    · cases hc
      cases outcome with
      | senderDropped => exact absurd rfl ho
      | _ => rfl
    · exact h k' call hc
  · exact h k' call hc

theorem waitingAt_settleAll (l : List Inflight) (outcome : Outcome) :
    waitingAt (l.foldl (fun calls inflight => settle calls inflight.tx outcome) calls) k' =
      if k' ∈ l.map Inflight.tx then none else waitingAt calls k' := by
  induction l generalizing calls with
  | nil => simp
  | cons inflight l ih =>
    rw [List.foldl_cons, ih, waitingAt_settle]
    by_cases h1 : k' ∈ l.map Inflight.tx
    · simp [h1]
    · by_cases h2 : inflight.tx = k'
      · simp [h2]
      · simp [h1, h2, Ne.symm h2]

theorem ownedAt_settleAll (l : List Inflight) (outcome : Outcome) :
    ownedAt (l.foldl (fun calls inflight => settle calls inflight.tx outcome) calls) k' = ownedAt calls k' := by
  induction l generalizing calls with
  | nil => rfl
  | cons inflight l ih => rw [List.foldl_cons, ih, ownedAt_settle]

theorem unanswered_settleAll (l : List Inflight) {outcome : Outcome} (ho : outcome ≠ .senderDropped)
    (h : ∀ k call, calls.get? k = some call → unanswered call = false) (call : Call)
    (hc : (l.foldl (fun calls inflight => settle calls inflight.tx outcome) calls).get? k' = some call) :
    unanswered call = false := by
  induction l generalizing calls with
  | nil => exact h k' call hc
  | cons inflight l ih => exact ih _ (fun k call => unanswered_settle calls inflight.tx k h ho call) hc

end Calls

/-! ## Steps -/

/-- steps of a caller that is not in the launch's record: it waits for nothing before or after -/
theorem Inv.call {s : St} (h : Inv s) (k : ℕ) (call : Call) (hold : waitingAt s.calls k = none) (hnew : waiting call = none)
    (howned : ∀ c, owned call = some c → ownedAt s.calls k = some c) (hans : unanswered call = false) (seq : ℕ) :
    Inv { s with calls := s.calls.insert k call, seq } := by
  have hwait : ∀ k', waitingAt (s.calls.insert k call) k' = waitingAt s.calls k' := fun k' => by
    rw [waitingAt_insert]
    split_ifs with he
    · subst he; rw [hold, hnew]
    · rfl
  have hown : ∀ k' c, ownedAt (s.calls.insert k call) k' = some c → ownedAt s.calls k' = some c := fun k' c hc => by
    rw [ownedAt_insert] at hc
    split_ifs at hc with he
    · subst he; exact howned c hc
    · exact hc
  refine ⟨h.wf, ?_, fun k' c hc => h.accepted k' c (hown k' c hc), ?_, ?_, h.unregistered, h.stopped, h.final⟩
  · intro id k'
    rw [hwait]; exact h.waits id k'
  · intro k1 k2 c c' hc hc'
    exact h.distinct k1 k2 c c' (hown k1 c hc) (hown k2 c' hc')
  · intro k' call' hk'
    rw [IndexMap.get?_insert] at hk'
    split_ifs at hk'
    · cases hk'; exact hans
    · exact h.answered k' call' hk'

/-- steps that touch neither the callers nor the in-flight entries -/
theorem Inv.polls {s : St} (h : Inv s) {core : Core} (hw : core.Wf)
    (hi : core.inner.inflight = s.core.inner.inflight)
    (hf : s.release = .done → core.inner.queue = [] ∧ core.inner.waiters = [])
    (returned : List (ℕ × List AgentCommand)) (late : List AgentCommand) :
    Inv { s with core, returned, late } where
  wf := hw
  waits := by dsimp only; rw [hi]; exact h.waits
  accepted := h.accepted
  distinct := h.distinct
  answered := h.answered
  unregistered := h.unregistered
  stopped := h.stopped
  final hd := by dsimp only; rw [hi]; exact ⟨(h.final hd).1, hf hd⟩

theorem get?_owned {s : St} {k : ℕ} {call : Call} {c : AgentCommand} (hk : s.calls.get? k = some call)
    (hc : owned call = some c) : ownedAt s.calls k = some c := by
  simp [ownedAt, hk, hc]

/-- an in-flight id is the id of an accepted command that its caller owns -/
theorem Inv.inflight_owned {s : St} (h : Inv s) {id : String} {inflight : Inflight}
    (hi : s.core.inner.inflight.get? id = some inflight) :
    ∃ c, ownedAt s.calls inflight.tx = some c ∧ c.id = id ∧ c ∈ s.accepted := by
  have hwait := (h.waits id inflight.tx).1 (by rw [hi]; rfl)
  simp only [waitingAt, Option.bind_eq_some_iff] at hwait
  obtain ⟨⟨tool, args, timeoutMs, stage⟩, hk, hid⟩ := hwait
  cases stage with
  | pending command =>
    have hc := get?_owned (c := command) hk rfl
    exact ⟨command, hc, by simpa [waiting] using hid, h.accepted _ _ hc⟩
  | _ => cases hid

theorem enqueue_inv {s : St} (k : ℕ) (ho : Timely s (.enqueue k)) (h : Inv s) : Inv (step s (.enqueue k)) := by
  simp only [step]
  split
  · rename_i tool args timeoutMs command hk
    obtain ⟨hopen, hfresh⟩ := ho _ hk command rfl
    have hwaitk : waitingAt s.calls k = none := by simp [waitingAt, hk, waiting]
    have hownk : ownedAt s.calls k = none := by simp [ownedAt, hk, owned]
    split
    · rename_i e _
      exact h.call k ⟨tool, args, timeoutMs, .refused e⟩ hwaitk rfl (fun _ hc => by cases hc) rfl s.seq
    · rename_i core hcore
      have hnone : s.core.inner.inflight.get? command.id = none := by
        by_contra hne
        obtain ⟨inflight, hi⟩ := Option.ne_none_iff_exists'.1 hne
        obtain ⟨c, -, hid, hacc⟩ := h.inflight_owned hi
        exact hfresh c hacc hid
      have hwf : core.Wf := by
        rw [callLocked_ok hcore]
        exact release_wf (queued_wf h.wf k command)
      have hinflight : core.inner.inflight = s.core.inner.inflight.insert command.id ⟨command.tool, k⟩ := by
        rw [callLocked_ok hcore]
        exact release_inflight (queued_wf h.wf k command)
      rw [hnone]
      refine ⟨hwf, ?_, ?_, ?_, ?_, h.unregistered, h.stopped, fun hd => absurd hd hopen⟩
      · intro id k'
        simp only [dropSender, hinflight, waitingAt_insert, IndexMap.get?_insert]
        by_cases hid : command.id = id
        · by_cases hkk : k = k'
          · simp [hid, hkk, waiting]
          · have hno := h.waits id k'
            rw [← hid, hnone] at hno
            simpa [hid, hkk] using hno
        · by_cases hkk : k = k'
          · subst hkk
            have hno := h.waits id k
            rw [hwaitk] at hno
            simpa [hid, waiting] using hno
          · simpa [hid, hkk] using h.waits id k'
      · intro k' c hc
        simp only [dropSender, ownedAt_insert] at hc
        split_ifs at hc
        · cases hc; exact List.mem_append_right _ (List.mem_singleton.2 rfl)
        · exact List.mem_append_left _ (h.accepted k' c hc)
      · intro k1 k2 c c' hc hc' he
        simp only [dropSender, ownedAt_insert] at hc hc'
        split_ifs at hc hc' with h1 h2 h2
        · rw [← h1, ← h2]
        · cases hc; exact absurd he.symm (hfresh c' (h.accepted k2 c' hc'))
        · cases hc'; exact absurd he (hfresh c (h.accepted k1 c hc))
        · exact h.distinct k1 k2 c c' hc hc' he
      · intro k' call hk'
        simp only [dropSender, IndexMap.get?_insert] at hk'
        split_ifs at hk'
        · cases hk'; rfl
        · exact h.answered k' call hk'
  · exact h

/-- an entry under the id of a caller's command is that caller's own -/
theorem Inv.own_entry {s : St} (h : Inv s) {k : ℕ} {command : AgentCommand} (hown : ownedAt s.calls k = some command)
    {inflight : Inflight} (hi : s.core.inner.inflight.get? command.id = some inflight) : inflight.tx = k := by
  obtain ⟨c, hc, hid, -⟩ := h.inflight_owned hi
  exact h.distinct _ _ c command hc hown hid

/-- `abandon` for a caller that owns the command: it tells no other caller anything, and the caller stops waiting -/
theorem abandon_inv {s : St} (h : Inv s) {k : ℕ} {command : AgentCommand} (hown : ownedAt s.calls k = some command)
    (tool : String) (args : Option Json) (timeoutMs : ℕ) (abandoned : List AgentCommand) (givenUp : List String) :
    Inv { s with
      core := { s.core with inner := s.core.inner.abandon command.id }
      calls := dropSender (s.calls.insert k ⟨tool, args, timeoutMs, .gaveUp command⟩)
        (s.core.inner.inflight.get? command.id)
      abandoned
      givenUp } := by
  have hcalls : dropSender (s.calls.insert k ⟨tool, args, timeoutMs, .gaveUp command⟩)
      (s.core.inner.inflight.get? command.id) = s.calls.insert k ⟨tool, args, timeoutMs, .gaveUp command⟩ := by
    cases hi : s.core.inner.inflight.get? command.id with
    | none => rfl
    | some inflight => simp [dropSender, settle, h.own_entry hown hi]
  rw [hcalls]
  refine ⟨h.wf.same rfl rfl, ?_, ?_, ?_, ?_, h.unregistered, h.stopped, ?_⟩
  · intro id k'
    simp only [LaunchInner.abandon, IndexMap.get?_remove, waitingAt_insert]
    by_cases hkk : k = k'
    · -- the caller waits for nothing any more
      subst hkk
      simp only [if_true, waiting]
      refine iff_of_false ?_ (by simp)
      intro hi
      split_ifs at hi with hid
      · cases hi
      · have hwait := (h.waits id k).1 hi
        obtain ⟨inflight, hget, htx⟩ := Option.map_eq_some_iff.1 hi
        obtain ⟨c, hc, hcid, -⟩ := h.inflight_owned hget
        rw [htx, hown] at hc
        cases hc
        exact hid hcid
    · simp only [hkk, if_false]
      by_cases hid : command.id = id
      · simp only [hid, if_true, Option.map_none, reduceCtorEq, false_iff]
        intro hwait
        have hi := (h.waits id k').2 hwait
        obtain ⟨inflight, hget, htx⟩ := Option.map_eq_some_iff.1 hi
        rw [← hid] at hget
        exact hkk ((h.own_entry hown hget).symm.trans htx)
      · simpa [hid] using h.waits id k'
  · intro k' c hc
    simp only [ownedAt_insert] at hc
    split_ifs at hc
    · cases hc
    · exact h.accepted k' c hc
  · intro k1 k2 c c' hc hc' he
    simp only [ownedAt_insert] at hc hc'
    split_ifs at hc hc'
    all_goals first | cases hc | cases hc' | exact h.distinct k1 k2 c c' hc hc' he
  · intro k' call hk'
    simp only [IndexMap.get?_insert] at hk'
    split_ifs at hk'
    · cases hk'; rfl
    · exact h.answered k' call hk'
  · intro hd
    obtain ⟨hi, hq, hw⟩ := h.final hd
    exact ⟨fun id => by simp [LaunchInner.abandon, IndexMap.get?_remove, hi], by simp [LaunchInner.abandon, hq], hw⟩

theorem giveUp_inv {s : St} (k : ℕ) (h : Inv s) : Inv (step s (.giveUp k)) := by
  simp only [step]
  split
  · rename_i hk
    exact abandon_inv h (get?_owned hk rfl) _ _ _ _ _
  · rename_i hk
    exact abandon_inv h (get?_owned hk rfl) _ _ _ _ _
  · exact h

theorem complete_inv {s : St} (id : String) (ok : Bool) (data error : Option Json) (h : Inv s) :
    Inv (step s (.complete id ok data error)) := by
  simp only [step]
  cases hi : s.core.inner.inflight.get? id with
  | none => exact h
  | some inflight =>
    dsimp only
    refine ⟨h.wf.same rfl rfl, ?_, ?_, ?_,
      fun k' call hk' => unanswered_settle _ _ k' h.answered (by simp) call hk', h.unregistered, h.stopped, ?_⟩
    · intro id' k'
      simp only [IndexMap.get?_remove, waitingAt_settle]
      have hhere := (h.waits id inflight.tx).1 (by rw [hi]; rfl)
      by_cases hid : id = id'
      · subst hid
        by_cases hk : inflight.tx = k'
        · simp [hk]
        · have hother := h.waits id k'
          rw [hi] at hother
          simpa [hk] using hother
      · by_cases hk : inflight.tx = k'
        · subst hk
          have hother := h.waits id' inflight.tx
          rw [hhere] at hother
          simpa [hid] using hother
        · simpa [hid, hk] using h.waits id' k'
    · intro k' c hc
      rw [ownedAt_settle] at hc
      exact h.accepted k' c hc
    · intro k1 k2 c c' hc hc'
      rw [ownedAt_settle] at hc hc'
      exact h.distinct k1 k2 c c' hc hc'
    · intro hd
      exact absurd hi (by rw [(h.final hd).1 id]; simp)

theorem finish_inv {s : St} {p : ℕ} {stage : PollStage} {waiter : PollWaiter}
    (hp : s.core.polls.get? p = some ⟨stage, waiter⟩)
    (ho : ∀ poll ∈ s.core.polls.get? p, s.release = .done → held poll = []) (h : Inv s) :
    Inv { s with core := s.core.finish p waiter } := by
  refine h.polls (finish_wf h.wf) (finish_inflight h.wf) ?_ s.returned s.late
  intro hd
  have hempty : waiter.slot.getD [] = [] := ho _ hp hd
  obtain ⟨-, hq, hw⟩ := h.final hd
  rw [finish_eq, if_pos hempty]
  simp [Core.putBack, hempty, hq, hw]

theorem releaseLock_inv {s : St} (code message : String) (h : Inv s) : Inv (step s (.releaseLock code message)) := by
  simp only [step]
  split
  · rename_i hstage
    refine ⟨releaseLocked_wf h.wf, ?_, ?_, ?_,
      fun k call hk => unanswered_settleAll _ k _ (by simp) h.answered call hk, fun _ => h.unregistered (by simp [hstage]),
      fun _ => h.stopped (Or.inl hstage), fun _ => ⟨fun id => rfl, rfl, rfl⟩⟩
    · intro id k
      -- every caller that waited had an entry, and was answered
      dsimp only
      rw [waitingAt_settleAll]
      apply iff_of_false (by simp [Core.releaseLocked])
      intro hwait
      split_ifs at hwait with hmem
      have hi := (h.waits id k).2 hwait
      obtain ⟨inflight, hget, htx⟩ := Option.map_eq_some_iff.1 hi
      exact hmem (List.mem_map.2 ⟨inflight, IndexMap.mem_values.2 ⟨id, hget⟩, htx⟩)
    · intro k c hc
      rw [ownedAt_settleAll] at hc
      exact h.accepted k c hc
    · intro k1 k2 c c' hc hc'
      rw [ownedAt_settleAll] at hc hc'
      exact h.distinct k1 k2 c c' hc hc'
  · exact h

theorem step_inv (s : St) (o : Op) (ho : Timely s o) (h : Inv s) : Inv (step s o) := by
  cases o with
  | register =>
    simp only [step]
    split
    · rename_i hr
      have hidle : s.release = .idle := by
        by_contra hne
        exact h.unregistered hne hr
      exact ⟨h.wf, h.waits, h.accepted, h.distinct, h.answered, h.unregistered, fun hd => by simp [hidle] at hd, h.final⟩
    · exact ⟨h.wf, h.waits, h.accepted, h.distinct, h.answered, fun _ => by simp, h.stopped, h.final⟩
  | callStart k tool args timeoutMs =>
    simp only [step]
    split
    · rename_i hk _
      exact h.call k _ (by simp [waitingAt, hk]) rfl (fun _ hc => by cases hc) rfl s.seq
    · rename_i hk _
      exact h.call k _ (by simp [waitingAt, hk]) rfl (fun _ hc => by cases hc) rfl s.seq
    · exact h
  | callCheck k =>
    simp only [step]
    split
    · rename_i hk
      refine h.call k _ (by simp [waitingAt, hk, waiting]) ?_ ?_ ?_ s.seq
      · split_ifs <;> rfl
      · intro _ hc
        split_ifs at hc <;> cases hc
      · split_ifs <;> rfl
    · exact h
  | mint k nowMs =>
    simp only [step]
    split
    · rename_i hk
      exact h.call k _ (by simp [waitingAt, hk, waiting]) rfl (fun _ hc => by cases hc) rfl (s.seq + 1)
    · exact h
  | mintOther => exact ⟨h.wf, h.waits, h.accepted, h.distinct, h.answered, h.unregistered, h.stopped, h.final⟩
  | enqueue k => exact enqueue_inv k ho h
  | receive k =>
    simp only [step]
    split
    · rename_i outcome hk
      have hans : outcome ≠ .senderDropped := by
        rintro rfl
        exact absurd (h.answered k _ hk) (by simp [unanswered])
      refine h.call k _ (by simp [waitingAt, hk, waiting]) rfl (fun _ hc => by cases hc) ?_ s.seq
      cases outcome with
      | senderDropped => exact absurd rfl hans
      | _ => rfl
    · exact h
  | giveUp k => exact giveUp_inv k h
  | complete id ok data error => exact complete_inv id ok data error h
  | pollCheck p =>
    have hw := wf_step s (.pollCheck p) h.wf
    simp only [step] at hw ⊢
    split
    · exact h
    · rename_i hp
      simp only [hp] at hw
      split_ifs at hw ⊢
      · exact h.polls hw rfl (fun hd => (h.final hd).2) s.returned s.late
      · exact h.polls hw rfl (fun hd => (h.final hd).2) _ _
  | pollEnter p =>
    have hw := wf_step s (.pollEnter p) h.wf
    simp only [step] at hw ⊢
    split
    · rename_i waiter hp
      have hopen : s.release ≠ .done := ho _ hp rfl
      simp only [hp] at hw
      rcases enterLocked_spec s.core p with ⟨-, he⟩ | ⟨-, he⟩
      · rw [he] at hw ⊢
        exact h.polls hw rfl (fun hd => absurd hd hopen) _ _
      · rw [he] at hw ⊢
        exact h.polls hw rfl (fun hd => absurd hd hopen) s.returned s.late
    · exact h
  | take p =>
    simp only [step]
    split
    · rename_i waiter hp
      exact h.polls (taken_wf p waiter h.wf) rfl (fun hd => (h.final hd).2) _ _
    · exact h
  | close p =>
    simp only [step]
    split
    · rename_i waiter hp
      exact finish_inv hp ho h
    · exact h
  | cancel p =>
    simp only [step]
    split
    · rename_i waiter hp
      exact finish_inv hp ho h
    · exact h
  | releaseRemove =>
    simp only [step]
    split
    · rename_i hr
      have hidle : s.release = .idle := by
        by_contra hne
        exact h.unregistered hne hr
      exact ⟨h.wf, h.waits, h.accepted, h.distinct, h.answered, fun _ => by simp, fun hd => by simp at hd,
        fun hd => by simp at hd⟩
    · exact ⟨h.wf, h.waits, h.accepted, h.distinct, h.answered, fun _ => by simp, h.stopped, h.final⟩
  | releaseStore =>
    simp only [step]
    split
    · rename_i hstage
      exact ⟨h.wf, h.waits, h.accepted, h.distinct, h.answered, fun _ => h.unregistered (by simp [hstage]), fun _ => rfl,
        fun hd => by simp at hd⟩
    · exact h
  | releaseLock code message => exact releaseLock_inv code message h

/-! ## Main results -/

theorem run_inv (key : String) (ops : List Op) (hm : Meets step Timely (start key) ops) :
    Inv (run step (start key) ops) :=
  run_invariant step step_inv hm (inv_start key)

/-- **Release is final.** In a run of timely steps, once the release is done the launch's record is empty and stays so:
no poll is parked that was not woken, no caller is left waiting for its deadline, and each one that was answered has the
mod's answer or the release error. -/
theorem release_final (key : String) (ops : List Op) (hm : Meets step Timely (start key) ops) (before : List Op)
    (hb : before <+: ops) (hd : (run step (start key) before).release = .done) : Final (run step (start key) before) := by
  obtain ⟨after, rfl⟩ := hb
  exact (run_inv key before ((meets_append step _ _ before after).1 hm).1).isFinal hd

/-- the three steps of `release_launch` -/
def release : List Op := [.releaseRemove, .releaseStore, .releaseLock "GAME_GONE" "game exited"]

/-- a poll is parked and a call waits in the queue of a launch that is released; a call that comes later is refused -/
def releasedInTime : List Op :=
  calling 0 "look" 1700000000000 ++ [.enqueue 0, .pollCheck 0, .pollEnter 0, .pollCheck 1, .pollEnter 1] ++ release ++
    [.receive 0, .take 1, .close 1] ++ calling 1 "jump" 1700000000001 ++ [.enqueue 1]

theorem release_final_example : Final (run step (start "l1") releasedInTime) :=
  release_final "l1" releasedInTime (by decide) releasedInTime List.prefix_rfl (by decide)

/-- **A release that comes too early**: a call that had passed its check is queued after the release and waits; a poll
that had passed its check is parked after it; and a poll dropped with a batch in its slot queues the batch after it. -/
theorem released_too_early :
    let lateCall := run step (start "l1") (calling 0 "look" 1700000000000 ++ release ++ [.enqueue 0])
    let latePoll := run step (start "l1") ([.pollCheck 0] ++ release ++ [.pollEnter 0])
    let lateBatch := run step (start "l1")
      ([.pollCheck 0, .pollEnter 0] ++ calling 0 "look" 1700000000000 ++ [.enqueue 0] ++ release ++ [.cancel 0])
    (lateCall.release = .done ∧ lateCall.core.inner.inflight.keys.length = 1 ∧ (waitingAt lateCall.calls 0).isSome) ∧
      (latePoll.release = .done ∧ latePoll.core.inner.waiters = [0]) ∧
      (lateBatch.release = .done ∧ lateBatch.core.inner.queue.map (·.tool) = ["look"]) := by
  decide

end EspectralClient.AgentRelease
