/-
A call that is given up must not be executed late: when a `PendingCall` times out or is dropped, `abandon` takes its
command out of the queue and its entry out of the in-flight map.

- `Inv`: every command on the launcher's side has an in-flight entry and was not given up.
- `Careful`: what a step must not do for that. `abandon` looks at the queue only, so a call must not be given up while its
  command is in the slot of a poll; a result must not be posted for a command the mod has not been given.
- `abandoned_not_executed`: runs of careful steps. `executed_late`: what happens otherwise.
-/
import EspectralClient.Engine.AgentQueue

namespace EspectralClient.AgentAbandon

open EspectralClient.Lib EspectralClient.AgentLaunch EspectralClient.AgentQueue

/-- no command was returned after it was given up, and every queued command has its in-flight entry -/
structure Clean (s : St) : Prop where
  queued : ∀ c ∈ s.core.inner.queue, c.id ∈ s.core.inner.inflight.keys
  onTime : s.late = []

/-- the command a caller may still give up -/
def owned (c : Call) : Option AgentCommand :=
  match c.stage with
  | .pending command => some command
  | .settled command _ => some command
  | _ => none

/-- the command a caller is about to queue -/
def mintedCommand (c : Call) : Option AgentCommand :=
  match c.stage with
  | .minted command => some command
  | _ => none

/-- ids are not used twice, a call is given up only when its command is in no slot, and a result is posted only for a
command that has left the launcher's side -/
def Careful (s : St) : Op → Prop
  | .enqueue k => ∀ call ∈ s.calls.get? k, ∀ command ∈ mintedCommand call, ∀ c ∈ s.accepted, c.id ≠ command.id
  | .giveUp k => ∀ call ∈ s.calls.get? k, ∀ command ∈ owned call, ∀ c ∈ slotted s.core.polls, c.id ≠ command.id
  | .complete id _ _ _ => ∀ c ∈ s.core.places, c.id ≠ id
  | .releaseLock _ _ => slotted s.core.polls = []
  | _ => True

instance (s : St) (o : Op) : Decidable (Careful s o) := by
  apply Op.casesOn (motive := fun o => Decidable (Careful s o)) o <;> intros <;> dsimp only [Careful] <;> infer_instance

/-! ## The invariant -/

/-- callers own accepted commands -/
def Owned (calls : IndexMap ℕ Call) (accepted : List AgentCommand) : Prop :=
  ∀ k call, calls.get? k = some call → ∀ command ∈ owned call, command ∈ accepted

structure Inv (s : St) : Prop where
  inflight : ∀ c ∈ s.core.places, c.id ∈ s.core.inner.inflight.keys
  notGivenUp : ∀ c ∈ s.core.places, c.id ∉ s.givenUp
  known : ∀ id ∈ s.givenUp, ∃ c ∈ s.accepted, c.id = id
  onTime : s.late = []
  distinct : (s.accepted.map (·.id)).Nodup
  owned : Owned s.calls s.accepted

theorem inv_start (key : String) : Inv (start key) where
  inflight _ h := by cases h
  notGivenUp _ h := by cases h
  known _ h := by cases h
  onTime := rfl
  distinct := List.nodup_nil
  owned _ _ h := by cases h

theorem Inv.clean {s : St} (h : Inv s) : Clean s :=
  ⟨fun c hc => h.inflight c (List.mem_append_left _ hc), h.onTime⟩

section Calls

variable {calls : IndexMap ℕ Call} {accepted : List AgentCommand}

theorem Owned.insert (h : Owned calls accepted) (k : ℕ) {call : Call}
    (hc : ∀ command ∈ AgentAbandon.owned call, command ∈ accepted) : Owned (calls.insert k call) accepted := fun k' call' hk' => by
  rw [IndexMap.get?_insert] at hk'
  split_ifs at hk'
  · cases hk'; exact hc
  · exact h k' call' hk'

theorem Owned.settle (h : Owned calls accepted) (k : ℕ) (outcome : Outcome) :
    Owned (AgentLaunch.settle calls k outcome) accepted := by
  unfold AgentLaunch.settle
  split
  · rename_i command hk
    exact h.insert k fun c hc => h k _ hk c hc
  · exact h

theorem Owned.dropSender (h : Owned calls accepted) (old : Option Inflight) :
    Owned (AgentLaunch.dropSender calls old) accepted := by
  cases old with
  | none => exact h
  | some old => exact h.settle old.tx .senderDropped

theorem Owned.settleAll (h : Owned calls accepted) (l : List Inflight) (outcome : Outcome) :
    Owned (l.foldl (fun calls inflight => AgentLaunch.settle calls inflight.tx outcome) calls) accepted := by
  induction l generalizing calls with
  | nil => exact h
  | cons inflight l ih => exact ih (h.settle inflight.tx outcome)

theorem Owned.mono (h : Owned calls accepted) {accepted' : List AgentCommand} (hs : accepted ⊆ accepted') :
    Owned calls accepted' := fun k call hk c hc => hs (h k call hk c hc)

end Calls

/-- steps that put nothing on the launcher's side and keep the in-flight entries -/
theorem Inv.sub {s t : St} (h : Inv s) (hp : t.core.places ⊆ s.core.places)
    (hi : t.core.inner.inflight = s.core.inner.inflight) (ha : t.accepted = s.accepted) (hg : t.givenUp = s.givenUp)
    (hl : t.late = []) (ho : Owned t.calls s.accepted) : Inv t where
  inflight c hc := by rw [hi]; exact h.inflight c (hp hc)
  notGivenUp c hc := by rw [hg]; exact h.notGivenUp c (hp hc)
  known := by rw [hg, ha]; exact h.known
  onTime := hl
  distinct := by rw [ha]; exact h.distinct
  owned := by rw [ha]; exact ho

/-- a batch from the launcher's side holds nothing that was given up -/
theorem Inv.give_late {s : St} (h : Inv s) (core : Core) (p : ℕ) {batch : List AgentCommand}
    (hb : batch ⊆ s.core.places) : (St.give { s with core } p batch).late = [] := by
  have hnone : batch.filter (fun c => c.id ∈ s.givenUp) = [] :=
    List.filter_eq_nil_iff.2 fun c hc => by simpa using h.notGivenUp c (hb hc)
  simp only [St.give, h.onTime, List.nil_append]
  exact hnone

/-- with distinct ids, nothing of the id is left after the first copy is taken out -/
theorem not_mem_eraseP {queue : List AgentCommand} {id : String} (hn : (queue.map (·.id)).Nodup) :
    ∀ c ∈ queue.eraseP (·.id = id), c.id ≠ id := by
  induction queue with
  | nil => simp
  | cons d queue ih =>
    obtain ⟨hd, hq⟩ := List.nodup_cons.1 hn
    intro c hc
    by_cases hid : d.id = id
    · rw [List.eraseP_cons_of_pos (by simpa using hid)] at hc
      intro hcid
      exact hd (List.mem_map.2 ⟨c, hc, hcid.trans hid.symm⟩)
    · rw [List.eraseP_cons_of_neg (by simpa using hid)] at hc
      rcases List.mem_cons.1 hc with rfl | hc
      · exact hid
      · exact ih hq c hc

theorem Inv.places_distinct {s : St} (h : Inv s) (hc : Conserved s) : (s.core.places.map (·.id)).Nodup :=
  ((hc.map _).nodup_iff.1 h.distinct).sublist ((List.sublist_append_left _ _).map _)

/-! ## Steps -/

theorem enqueue_inv {s : St} (hw : s.core.Wf) (k : ℕ) (ho : Careful s (.enqueue k)) (h : Inv s) :
    Inv (step s (.enqueue k)) := by
  simp only [step]
  split
  · rename_i tool args timeoutMs command hk
    have hfresh : ∀ c ∈ s.accepted, c.id ≠ command.id := ho _ hk command rfl
    split
    · exact h.sub (fun _ hc => hc) rfl rfl rfl h.onTime (h.owned.insert k fun _ hc => by cases hc)
    · rename_i core hcore
      have hplaces : core.places.Perm (s.core.places ++ [command]) := by
        rw [callLocked_ok hcore]
        exact (release_places (queued_wf hw k command)).trans (queued_places s.core k command)
      have hinflight : core.inner.inflight = s.core.inner.inflight.insert command.id ⟨command.tool, k⟩ := by
        rw [callLocked_ok hcore]
        exact release_inflight (queued_wf hw k command)
      have howned : Owned (s.calls.insert k ⟨tool, args, timeoutMs, .pending command⟩) (s.accepted ++ [command]) :=
        (h.owned.mono (List.subset_append_left _ _)).insert k fun c hc => by
          cases hc; exact List.mem_append_right _ (List.mem_singleton.2 rfl)
      refine ⟨?_, ?_, ?_, h.onTime, ?_, ?_⟩
      · intro c hc
        dsimp only
        rw [hinflight, IndexMap.mem_keys]
        simp only [IndexMap.get?_insert]
        rcases List.mem_append.1 (hplaces.subset hc) with hc | hc
        · split_ifs
          · exact ⟨_, rfl⟩
          · exact IndexMap.mem_keys.1 (h.inflight c hc)
        · rw [List.mem_singleton.1 hc, if_pos rfl]
          exact ⟨_, rfl⟩
      · intro c hc
        rcases List.mem_append.1 (hplaces.subset hc) with hc | hc
        · exact h.notGivenUp c hc
        · rw [List.mem_singleton.1 hc]
          intro hg
          obtain ⟨a, ha, he⟩ := h.known _ hg
          exact hfresh a ha he
      · intro id hid
        obtain ⟨a, ha, he⟩ := h.known id hid
        exact ⟨a, List.mem_append_left _ ha, he⟩
      · dsimp only
        rw [List.map_append]
        refine List.nodup_append.2 ⟨h.distinct, List.nodup_singleton _, ?_⟩
        intro a ha b hb
        obtain ⟨c, hc, rfl⟩ := List.mem_map.1 ha
        rw [List.mem_singleton.1 hb]
        exact hfresh c hc
      · exact howned.dropSender _
  · exact h

/-- `abandon` of a command that is in no slot: no command of its id is left with the launch -/
theorem abandon_inv {s : St} (hc : Conserved s) (h : Inv s) {command : AgentCommand} (hacc : command ∈ s.accepted)
    (hslot : ∀ c ∈ slotted s.core.polls, c.id ≠ command.id) {calls : IndexMap ℕ Call} (howned : Owned calls s.accepted)
    {givenUp : List String} (hgiven : givenUp = s.givenUp ∨ givenUp = s.givenUp ++ [command.id])
    (abandoned : List AgentCommand) :
    Inv { s with core := { s.core with inner := s.core.inner.abandon command.id }, calls, abandoned, givenUp } := by
  have hqueue : (s.core.inner.queue.map (·.id)).Nodup :=
    (h.places_distinct hc).sublist ((List.sublist_append_left _ _).map _)
  have hne : ∀ c ∈ s.core.inner.queue.eraseP (·.id = command.id) ++ slotted s.core.polls,
      c ∈ s.core.places ∧ c.id ≠ command.id := fun c hc => by
    rcases List.mem_append.1 hc with hc | hc
    · exact ⟨List.mem_append_left _ (List.mem_of_mem_eraseP hc), not_mem_eraseP hqueue c hc⟩
    · exact ⟨List.mem_append_right _ hc, hslot c hc⟩
  refine ⟨?_, ?_, ?_, h.onTime, h.distinct, howned⟩
  · intro c hc
    obtain ⟨hin, hid⟩ := hne c hc
    simp only [LaunchInner.abandon, IndexMap.mem_keys, IndexMap.get?_remove_ne _ (Ne.symm hid)]
    exact IndexMap.mem_keys.1 (h.inflight c hin)
  · intro c hc hg
    obtain ⟨hin, hid⟩ := hne c hc
    dsimp only at hg
    rcases hgiven with rfl | rfl
    · exact h.notGivenUp c hin hg
    · rcases List.mem_append.1 hg with hg | hg
      · exact h.notGivenUp c hin hg
      · exact hid (List.mem_singleton.1 hg)
  · intro id hid
    dsimp only at hid
    rcases hgiven with rfl | rfl
    · exact h.known id hid
    · rcases List.mem_append.1 hid with hid | hid
      · exact h.known id hid
      · exact ⟨command, hacc, (List.mem_singleton.1 hid).symm⟩

theorem giveUp_inv {s : St} (hc : Conserved s) (k : ℕ) (ho : Careful s (.giveUp k)) (h : Inv s) :
    Inv (step s (.giveUp k)) := by
  simp only [step]
  split
  · rename_i command hk
    exact abandon_inv hc h (h.owned k _ hk command rfl) (ho _ hk command rfl)
      ((h.owned.insert k fun _ hc => by cases hc).dropSender _) (by split_ifs <;> simp) _
  · rename_i command _ hk
    exact abandon_inv hc h (h.owned k _ hk command rfl) (ho _ hk command rfl)
      ((h.owned.insert k fun _ hc => by cases hc).dropSender _) (by split_ifs <;> simp) _
  · exact h

theorem step_inv (s : St) (o : Op) (hw : s.core.Wf) (hc : Conserved s) (ho : Careful s o) (h : Inv s) :
    Inv (step s o) := by
  -- calls on their way to the locked section own nothing
  have hsame : ∀ {t : St}, t.core = s.core → t.accepted = s.accepted → t.givenUp = s.givenUp → t.late = s.late →
      Owned t.calls s.accepted → Inv t := fun hcore ha hg hl howned =>
    h.sub (by rw [hcore]; exact fun _ hc => hc) (by rw [hcore]) ha hg (hl.trans h.onTime) howned
  cases o with
  | register => simp only [step]; split <;> exact hsame rfl rfl rfl rfl h.owned
  | callStart k tool args timeoutMs =>
    simp only [step]
    split
    · exact hsame rfl rfl rfl rfl (h.owned.insert k fun _ hc => by cases hc)
    · exact hsame rfl rfl rfl rfl (h.owned.insert k fun _ hc => by cases hc)
    · exact h
  | callCheck k =>
    simp only [step]
    split
    · exact hsame rfl rfl rfl rfl (h.owned.insert k fun _ hc => by split_ifs at hc <;> cases hc)
    · exact h
  | mint k nowMs =>
    simp only [step]
    split
    · exact hsame rfl rfl rfl rfl (h.owned.insert k fun _ hc => by cases hc)
    · exact h
  | mintOther => exact hsame rfl rfl rfl rfl h.owned
  | enqueue k => exact enqueue_inv hw k ho h
  | receive k =>
    simp only [step]
    split
    · exact hsame rfl rfl rfl rfl (h.owned.insert k fun _ hc => by cases hc)
    · exact h
  | giveUp k => exact giveUp_inv hc k ho h
  | complete id ok data error =>
    simp only [step]
    split
    · exact h
    · refine ⟨?_, h.notGivenUp, h.known, h.onTime, h.distinct, h.owned.settle _ _⟩
      intro c hc
      have hid : c.id ≠ id := ho c hc
      simp only [IndexMap.mem_keys, IndexMap.get?_remove_ne _ (Ne.symm hid)]
      exact IndexMap.mem_keys.1 (h.inflight c hc)
  | pollCheck p =>
    simp only [step]
    cases hp : s.core.polls.get? p with
    | some poll => exact h
    | none =>
      have hs : ∀ stage, slotted (s.core.polls.insert p ⟨stage, .default⟩) = slotted s.core.polls :=
        fun stage => slotted_new hp rfl
      have hplaces : ∀ stage,
          Core.places { s.core with polls := s.core.polls.insert p ⟨stage, .default⟩ } ⊆ s.core.places := fun stage => by
        simp only [Core.places, hs]
        exact List.Subset.refl _
      dsimp only
      split_ifs
      · exact h.sub (hplaces .checked) rfl rfl rfl h.onTime h.owned
      · exact h.sub (hplaces .finished) rfl rfl rfl (h.give_late _ p (List.nil_subset _)) h.owned
  | pollEnter p =>
    simp only [step]
    split
    · rename_i waiter hp
      have hs : ∀ stage, slotted (s.core.polls.insert p ⟨stage, waiter⟩) = slotted s.core.polls :=
        fun stage => slotted_same hp rfl
      rcases enterLocked_spec s.core p with ⟨-, he⟩ | ⟨-, he⟩
      · rw [he]
        refine h.sub ?_ rfl rfl rfl (h.give_late _ p (List.subset_append_left _ _)) h.owned
        simp only [Core.places, St.give, hs, List.nil_append]
        exact List.subset_append_right _ _
      · rw [he]
        refine h.sub ?_ rfl rfl rfl h.onTime h.owned
        simp only [Core.places, hs]
        exact List.Subset.refl _
    · exact h
  | take p =>
    simp only [step]
    split
    · rename_i waiter hp
      have hbatch : waiter.take.2 ⊆ s.core.places := fun c hc =>
        List.mem_append_right _ (mem_slotted.2 ⟨p, _, hp, hc⟩)
      refine h.sub ?_ rfl rfl rfl (h.give_late _ p hbatch) h.owned
      intro c hc
      rcases List.mem_append.1 hc with hc | hc
      · exact List.mem_append_left _ hc
      · have hperm := slotted_replace ⟨.closing, waiter.take.1⟩ hp
        exact List.mem_append_right _ (hperm.subset (List.mem_append_right _ hc))
    · exact h
  | close p =>
    simp only [step]
    split
    · rename_i waiter hp
      exact h.sub (finish_places hw hp).subset (finish_inflight hw) rfl rfl h.onTime h.owned
    · exact h
  | cancel p =>
    simp only [step]
    split
    · rename_i waiter hp
      exact h.sub (finish_places hw hp).subset (finish_inflight hw) rfl rfl h.onTime h.owned
    · exact h
  | releaseRemove => simp only [step]; split <;> exact hsame rfl rfl rfl rfl h.owned
  | releaseStore => simp only [step]; split <;> exact hsame rfl rfl rfl rfl h.owned
  | releaseLock code message =>
    simp only [step]
    split
    · have hnil : s.core.releaseLocked.places = [] := by
        rw [Core.places, (releaseLocked_polls hw).1, show slotted s.core.polls = [] from ho]
        rfl
      refine ⟨?_, ?_, h.known, h.onTime, h.distinct, h.owned.settleAll _ _⟩
      · intro c hc
        exact absurd (hnil ▸ hc) List.not_mem_nil
      · intro c hc
        exact absurd (hnil ▸ hc) List.not_mem_nil
    · exact h

/-! ## Main results -/

/-- **Given up is given up.** In a run of careful steps, at every moment every queued command has its id in the in-flight
map, and no poll has returned a command whose call was given up before any poll had returned it. -/
theorem abandoned_not_executed (key : String) (ops : List Op) (hm : Meets step Careful (start key) ops)
    (before : List Op) (hb : before <+: ops) : Clean (run step (start key) before) := by
  obtain ⟨after, rfl⟩ := hb
  have hbefore := ((meets_append step _ _ before after).1 hm).1
  have hrun := run_invariant (I := fun s => s.core.Wf ∧ Conserved s ∧ Inv s) step
    (fun s o ho h => ⟨wf_step s o h.1, conserved_step s o h.1 h.2.1, step_inv s o h.1 h.2.1 ho h.2.2⟩) hbefore
    ⟨wf_start key, conserved_start key, inv_start key⟩
  exact hrun.2.2.clean

/-- a call is given up in the queue, and the next poll gets the other one only -/
def givenUpInQueue : List Op :=
  calling 0 "look" 1700000000000 ++ [.enqueue 0] ++ calling 1 "jump" 1700000000001 ++
    [.enqueue 1, .giveUp 0, .pollCheck 0, .pollEnter 0]

theorem abandoned_not_executed_example :
    (returnedCommands (run step (start "l1") givenUpInQueue)).map (·.tool) = ["jump"] ∧
      Clean (run step (start "l1") givenUpInQueue) :=
  ⟨by decide, abandoned_not_executed "l1" givenUpInQueue (by decide) givenUpInQueue List.prefix_rfl⟩

/-- the command is in the slot of a parked poll when its call times out -/
def givenUpInSlot : List Op :=
  [.pollCheck 0, .pollEnter 0] ++ calling 0 "look" 1700000000000 ++ [.enqueue 0, .giveUp 0]

/-- **A command is executed late**: the poll that holds it returns it to the mod after its call was given up; and if that
poll is dropped instead, the command is queued again with no in-flight entry. -/
theorem executed_late :
    (run step (start "l1") (givenUpInSlot ++ [.take 0])).late.map (·.tool) = ["look"] ∧
      (run step (start "l1") (givenUpInSlot ++ [.cancel 0])).core.inner.queue.map (·.tool) = ["look"] ∧
      (run step (start "l1") (givenUpInSlot ++ [.cancel 0])).core.inner.inflight.keys = [] := by
  decide

end EspectralClient.AgentAbandon
