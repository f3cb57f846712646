/-
The polls of an agent launch: which of them wait, where the commands are, and what the locked sections do to both.

- `held`, `slotted`, `Core.places`: the commands in the slots of the polls and in the queue.
- `Core.Wf`: the waiters in the list are distinct, belong to polls that wait, and hold no batch; a poll that waits is in
  the list or was woken.
- `releaseLoop_free`, `finish_places`, `callLocked_spec`, `enterLocked_spec`, `releaseLocked_spec`: one lemma for each
  section. A section moves commands between the places and loses none.
-/
import EspectralClient.Engine.AgentLaunch

namespace EspectralClient.AgentLaunch

open EspectralClient.Lib

/-! ## Where the commands are -/

/-- the commands in a poll's slot -/
def held (p : Poll) : List AgentCommand := p.waiter.slot.getD []

/-- the commands in the slots -/
def slotted (polls : IndexMap ℕ Poll) : List AgentCommand := polls.values.flatMap held

/-- the commands still on the launcher's side -/
def Core.places (c : Core) : List AgentCommand := c.inner.queue ++ slotted c.polls

section Slots

variable {polls : IndexMap ℕ Poll} {p : ℕ}

theorem slotted_replace {old : Poll} (new : Poll) (h : polls.get? p = some old) :
    (held old ++ slotted (polls.insert p new)).Perm (held new ++ slotted polls) := IndexMap.flatMap_replace new held h

theorem slotted_same {old new : Poll} (h : polls.get? p = some old) (he : held new = held old) :
    slotted (polls.insert p new) = slotted polls := IndexMap.flatMap_insert_same held h he

theorem slotted_new {new : Poll} (h : polls.get? p = none) (he : held new = []) :
    slotted (polls.insert p new) = slotted polls := by
  rw [slotted, IndexMap.flatMap_insert_new new held h, he, List.append_nil, slotted]

theorem held_of_slotted_nil {poll : Poll} (hs : slotted polls = []) (h : polls.get? p = some poll) : held poll = [] :=
  List.flatMap_eq_nil_iff.1 hs poll (IndexMap.mem_values.2 ⟨p, h⟩)

theorem mem_slotted {c : AgentCommand} : c ∈ slotted polls ↔ ∃ p poll, polls.get? p = some poll ∧ c ∈ held poll := by
  simp only [slotted, List.mem_flatMap, IndexMap.mem_values]
  constructor
  · rintro ⟨poll, ⟨p, h⟩, hc⟩
    exact ⟨p, poll, h, hc⟩
  · rintro ⟨p, poll, h, hc⟩
    exact ⟨poll, ⟨p, h⟩, hc⟩

end Slots

/-! ## Polls that wait -/

structure Core.Wf (c : Core) : Prop where
  nodup : c.inner.waiters.Nodup
  waiting : ∀ w ∈ c.inner.waiters, ∃ poll, c.polls.get? w = some poll ∧ poll.waiter.slot = none ∧
    (poll.stage = .parked ∨ poll.stage = .closing)
  fresh : ∀ p poll, c.polls.get? p = some poll → poll.stage = .checked → poll.waiter.slot = none
  woken : ∀ p poll, c.polls.get? p = some poll → poll.stage = .parked → p ∈ c.inner.waiters ∨ poll.waiter.notified

theorem wf_start (key : String) : (start key).core.Wf where
  nodup := List.nodup_nil
  waiting _ h := by cases h
  fresh _ _ h := by cases h
  woken _ _ h := by cases h

/-- sections that touch neither the waiters nor the polls -/
theorem Core.Wf.same {c c' : Core} (h : c.Wf) (hw : c'.inner.waiters = c.inner.waiters) (hp : c'.polls = c.polls) :
    c'.Wf := by
  refine ⟨?_, ?_, ?_, ?_⟩
  · rw [hw]; exact h.nodup
  · rw [hw, hp]; exact h.waiting
  · rw [hp]; exact h.fresh
  · rw [hw, hp]; exact h.woken

/-- the loop hands the whole queue to the first waiter, or has nothing to hand over or nobody to hand it to -/
theorem releaseLoop_free (queue : List AgentCommand) (ws : List ℕ) (polls : IndexMap ℕ Poll)
    (hfree : ∀ w ∈ ws, ∃ poll, polls.get? w = some poll ∧ poll.waiter.slot = none) :
    (releaseLoop queue ws polls = (queue, ws, polls) ∧ (queue = [] ∨ ws = [])) ∨
      ∃ w rest poll, ws = w :: rest ∧ queue ≠ [] ∧ polls.get? w = some poll ∧ poll.waiter.slot = none ∧
        releaseLoop queue ws polls = ([], rest, polls.insert w { poll with waiter := ⟨some queue, true⟩ }) := by
  cases ws with
  | nil => exact Or.inl ⟨rfl, Or.inr rfl⟩
  | cons w rest =>
    cases queue with
    | nil => exact Or.inl ⟨rfl, Or.inl rfl⟩
    | cons c queue =>
      obtain ⟨poll, hp, hs⟩ := hfree w List.mem_cons_self
      exact Or.inr ⟨w, rest, poll, rfl, List.cons_ne_nil _ _, hp, hs, by
        simp [releaseLoop, deliverTo, PollWaiter.deliver, hp, hs]⟩

/-- **What `release_pollers_locked` does** when no waiter in the list holds a batch -/
theorem Core.Wf.release (c : Core) (h : c.Wf) :
    (c.releasePollersLocked = c ∧ (c.inner.queue = [] ∨ c.inner.waiters = [])) ∨
      ∃ w rest poll, c.inner.waiters = w :: rest ∧ c.inner.queue ≠ [] ∧ c.polls.get? w = some poll ∧
        poll.waiter.slot = none ∧ c.releasePollersLocked =
          ⟨{ c.inner with queue := [], waiters := rest },
            c.polls.insert w { poll with waiter := ⟨some c.inner.queue, true⟩ }⟩ := by
  have hfree : ∀ w ∈ c.inner.waiters, ∃ poll, c.polls.get? w = some poll ∧ poll.waiter.slot = none :=
    fun w hw => (h.waiting w hw).imp fun _ hp => ⟨hp.1, hp.2.1⟩
  rcases releaseLoop_free c.inner.queue c.inner.waiters c.polls hfree with ⟨he, hor⟩ | ⟨w, rest, poll, hw, hq, hp, hs, he⟩
  · exact Or.inl ⟨by simp only [Core.releasePollersLocked, he], hor⟩
  · exact Or.inr ⟨w, rest, poll, hw, hq, hp, hs, by simp only [Core.releasePollersLocked, he]⟩

theorem release_wf {c : Core} (h : c.Wf) : c.releasePollersLocked.Wf := by
  rcases h.release c with ⟨he, -⟩ | ⟨w, rest, poll, hw, -, hp, hs, he⟩
  · rw [he]; exact h
  · rw [he]
    have hnd := h.nodup
    rw [hw] at hnd
    obtain ⟨hnot, hrest⟩ := List.nodup_cons.1 hnd
    obtain ⟨poll', hp', -, hstage⟩ := h.waiting w (hw ▸ List.mem_cons_self)
    rw [hp] at hp'
    cases hp'
    refine ⟨hrest, ?_, ?_, ?_⟩
    · intro w' hw'
      have hne : w ≠ w' := fun e => hnot (e ▸ hw')
      rw [IndexMap.get?_insert_ne _ _ hne]
      exact h.waiting w' (hw ▸ List.mem_cons_of_mem w hw')
    · intro p poll' hp' hst
      rw [IndexMap.get?_insert] at hp'
      split_ifs at hp' with hwp
      · cases hp'
        rcases hstage with hs' | hs' <;> rw [hs'] at hst <;> cases hst
      · exact h.fresh p poll' hp' hst
    · intro p poll' hp' hst
      rw [IndexMap.get?_insert] at hp'
      split_ifs at hp' with hwp
      · cases hp'; exact Or.inr rfl
      · rcases h.woken p poll' hp' hst with hm | hn
        · rw [hw] at hm
          rcases List.mem_cons.1 hm with e | hm
          · exact absurd e.symm hwp
          · exact Or.inl hm
        · exact Or.inr hn

theorem release_places {c : Core} (h : c.Wf) : c.releasePollersLocked.places.Perm c.places := by
  rcases h.release c with ⟨he, -⟩ | ⟨w, rest, poll, -, -, hp, hs, he⟩
  · rw [he]
  · have := slotted_replace { poll with waiter := ⟨some c.inner.queue, true⟩ } hp
    rw [he]
    simpa [Core.places, held, hs] using this

theorem release_inflight {c : Core} (h : c.Wf) : c.releasePollersLocked.inner.inflight = c.inner.inflight := by
  rcases h.release c with ⟨he, -⟩ | ⟨w, rest, poll, -, -, -, -, he⟩ <;> rw [he]

/-! ## A poll that ends -/

/-- what the guard leaves before it hands anything on: the poll out of the list, its batch back at the front -/
def Core.putBack (c : Core) (p : ℕ) (waiter : PollWaiter) : Core :=
  ⟨{ c.inner with waiters := c.inner.waiters.filter (· ≠ p), queue := waiter.slot.getD [] ++ c.inner.queue },
    c.polls.insert p ⟨.finished, { waiter with slot := none }⟩⟩

theorem finish_eq (c : Core) (p : ℕ) (waiter : PollWaiter) :
    c.finish p waiter =
      if waiter.slot.getD [] = [] then c.putBack p waiter else (c.putBack p waiter).releasePollersLocked := by
  simp only [Core.finish, Core.guardDrop, IndexMap.get?_insert_self, IndexMap.insert_insert, PollWaiter.take,
    Core.putBack, List.isEmpty_iff]
  split_ifs with h
  · rw [h, List.nil_append]
  · rfl

section Finish

variable {c : Core} {p : ℕ} {stage : PollStage} {waiter : PollWaiter}

theorem putBack_wf (h : c.Wf) : (c.putBack p waiter).Wf := by
  refine ⟨h.nodup.filter _, ?_, ?_, ?_⟩
  · intro w hw
    obtain ⟨hw, hne⟩ := List.mem_filter.1 hw
    have hne : p ≠ w := fun e => by simp [e] at hne
    simp only [Core.putBack, IndexMap.get?_insert_ne _ _ hne]
    exact h.waiting w hw
  · intro q poll hq hst
    simp only [Core.putBack, IndexMap.get?_insert] at hq
    split_ifs at hq
    · cases hq; cases hst
    · exact h.fresh q poll hq hst
  · intro q poll hq hst
    simp only [Core.putBack, IndexMap.get?_insert] at hq
    split_ifs at hq with hpq
    · cases hq; cases hst
    · exact (h.woken q poll hq hst).imp_left fun hm => List.mem_filter.2 ⟨hm, by simpa using Ne.symm hpq⟩

theorem putBack_places (hp : c.polls.get? p = some ⟨stage, waiter⟩) : (c.putBack p waiter).places.Perm c.places := by
  have := (slotted_replace ⟨.finished, { waiter with slot := none }⟩ hp).append_left c.inner.queue
  simp only [held, Option.getD_none, List.nil_append] at this
  refine List.Perm.trans ?_ this
  simp only [Core.places, Core.putBack, List.append_assoc]
  rw [← List.append_assoc, ← List.append_assoc]
  exact (List.perm_append_comm).append_right _

theorem finish_wf (h : c.Wf) : (c.finish p waiter).Wf := by
  rw [finish_eq]
  split_ifs
  · exact putBack_wf h
  · exact release_wf (putBack_wf h)

theorem finish_places (h : c.Wf) (hp : c.polls.get? p = some ⟨stage, waiter⟩) :
    (c.finish p waiter).places.Perm c.places := by
  rw [finish_eq]
  split_ifs
  · exact putBack_places hp
  · exact (release_places (putBack_wf h)).trans (putBack_places hp)

theorem finish_inflight (h : c.Wf) : (c.finish p waiter).inner.inflight = c.inner.inflight := by
  rw [finish_eq]
  split_ifs
  · rfl
  · exact release_inflight (putBack_wf h)

end Finish

/-! ## The other locked sections -/

/-- the launch's record after `call_tool` has queued a command, before anything is handed over -/
def Core.queued (c : Core) (caller : ℕ) (command : AgentCommand) : Core :=
  { c with inner := { c.inner with
      inflight := c.inner.inflight.insert command.id ⟨command.tool, caller⟩
      queue := c.inner.queue ++ [command] } }

theorem callLocked_ok {c c' : Core} {caller : ℕ} {command : AgentCommand} (h : c.callLocked caller command = .ok c') :
    c' = (c.queued caller command).releasePollersLocked := by
  unfold Core.callLocked at h
  split_ifs at h
  cases h; rfl

theorem queued_wf {c : Core} (h : c.Wf) (caller : ℕ) (command : AgentCommand) : (c.queued caller command).Wf :=
  h.same rfl rfl

theorem queued_places (c : Core) (caller : ℕ) (command : AgentCommand) :
    (c.queued caller command).places.Perm (c.places ++ [command]) := by
  simp only [Core.places, Core.queued, List.append_assoc]
  exact (List.perm_append_comm).append_left _

/-- a poll enters with the whole queue, or takes its place among the waiters -/
theorem enterLocked_spec (c : Core) (p : ℕ) :
    (c.inner.queue ≠ [] ∧ c.enterLocked p = ({ c with inner := { c.inner with queue := [] } }, some c.inner.queue)) ∨
      c.inner.queue = [] ∧
        c.enterLocked p = ({ c with inner := { c.inner with waiters := c.inner.waiters ++ [p] } }, none) := by
  unfold Core.enterLocked
  cases hq : c.inner.queue with
  | nil => exact Or.inr ⟨rfl, rfl⟩
  | cons d queue => exact Or.inl ⟨List.cons_ne_nil _ _, rfl⟩

theorem entered_wf {c : Core} {p : ℕ} {waiter : PollWaiter} (h : c.Wf) (hp : c.polls.get? p = some ⟨.checked, waiter⟩) :
    Core.Wf ⟨{ c.inner with waiters := c.inner.waiters ++ [p] }, c.polls.insert p ⟨.parked, waiter⟩⟩ := by
  have hnot : p ∉ c.inner.waiters := fun hm => by
    obtain ⟨poll, hp', -, hst⟩ := h.waiting p hm
    rw [hp] at hp'
    cases hp'
    rcases hst with hst | hst <;> cases hst
  refine ⟨?_, ?_, ?_, ?_⟩
  · refine List.nodup_append.2 ⟨h.nodup, List.nodup_singleton p, fun a ha b hb e => hnot ?_⟩
    rwa [← List.mem_singleton.1 hb, ← e]
  · intro w hw
    rcases List.mem_append.1 hw with hw | hw
    · have hne : p ≠ w := fun e => hnot (e ▸ hw)
      simp only [IndexMap.get?_insert_ne _ _ hne]
      exact h.waiting w hw
    · rw [List.mem_singleton.1 hw]
      exact ⟨_, IndexMap.get?_insert_self _ _ _, h.fresh p ⟨.checked, waiter⟩ hp rfl, Or.inl rfl⟩
  · intro q poll hq hst
    simp only [IndexMap.get?_insert] at hq
    split_ifs at hq
    · cases hq; cases hst
    · exact h.fresh q poll hq hst
  · intro q poll hq hst
    simp only [IndexMap.get?_insert] at hq
    split_ifs at hq with hpq
    · subst hpq; exact Or.inl (List.mem_append_right _ (List.mem_singleton.2 rfl))
    · exact (h.woken q poll hq hst).imp_left fun hm => List.mem_append_left _ hm

/-- delivering the empty reply changes no poll but the waiter's, and that one is woken -/
theorem deliverTo_empty (polls : IndexMap ℕ Poll) (w p : ℕ) (poll : Poll)
    (h : (deliverTo polls w []).1.get? p = some poll) :
    ∃ old, polls.get? p = some old ∧ poll.stage = old.stage ∧ held poll = held old ∧
      (old.waiter.notified → poll.waiter.notified) ∧ (w = p → old.waiter.slot = none → poll.waiter.notified) := by
  unfold deliverTo at h
  cases hw : polls.get? w with
  | none =>
    rw [hw] at h
    refine ⟨poll, h, rfl, rfl, id, ?_⟩
    rintro rfl
    exact absurd (hw.symm.trans h) (by simp)
  | some old =>
    simp only [hw, IndexMap.get?_insert] at h
    split_ifs at h with hwp
    · subst hwp
      cases h
      refine ⟨old, hw, rfl, ?_, ?_, ?_⟩
      · unfold PollWaiter.deliver held; split <;> simp [*]
      · intro hn
        unfold PollWaiter.deliver; split <;> simp [hn]
      · intro _ hs
        simp [PollWaiter.deliver, hs]
    · exact ⟨poll, h, rfl, rfl, id, fun e => absurd e hwp⟩

theorem deliverTo_slotted (polls : IndexMap ℕ Poll) (w : ℕ) : slotted (deliverTo polls w []).1 = slotted polls := by
  unfold deliverTo
  cases hw : polls.get? w with
  | none => rfl
  | some old =>
    refine slotted_same hw ?_
    simp only [held, PollWaiter.deliver]
    split
    · rfl
    · rename_i hs; rw [hs]; rfl

/-- slots of waiters that have not had their reply yet -/
theorem deliverTo_free {polls : IndexMap ℕ Poll} {w p : ℕ} (hne : w ≠ p) :
    (deliverTo polls w []).1.get? p = polls.get? p := by
  unfold deliverTo
  cases hw : polls.get? w with
  | none => rfl
  | some old => simp [IndexMap.get?_insert_ne _ _ hne]

/-- the empty replies of a release: every waiter in the list is woken -/
theorem replies_spec (ws : List ℕ) (polls : IndexMap ℕ Poll) (hnd : ws.Nodup)
    (hfree : ∀ w ∈ ws, ∃ poll, polls.get? w = some poll ∧ poll.waiter.slot = none) :
    slotted (ws.foldl (fun polls w => (deliverTo polls w []).1) polls) = slotted polls ∧
      ∀ p poll, (ws.foldl (fun polls w => (deliverTo polls w []).1) polls).get? p = some poll →
        ∃ old, polls.get? p = some old ∧ poll.stage = old.stage ∧ held poll = held old ∧
          (old.waiter.notified ∨ p ∈ ws → poll.waiter.notified) ∧ (p ∉ ws → poll = old) := by
  induction ws generalizing polls with
  | nil => exact ⟨rfl, fun p poll h => ⟨poll, h, rfl, rfl, by simp, fun _ => rfl⟩⟩
  | cons w ws ih =>
    obtain ⟨hnot, hrest⟩ := List.nodup_cons.1 hnd
    have hfree' : ∀ w' ∈ ws, ∃ poll, (deliverTo polls w []).1.get? w' = some poll ∧ poll.waiter.slot = none :=
      fun w' hw' => by
        have hne : w ≠ w' := fun e => hnot (e ▸ hw')
        rw [deliverTo_free hne]
        exact hfree w' (List.mem_cons_of_mem w hw')
    obtain ⟨hs, hp⟩ := ih (deliverTo polls w []).1 hrest hfree'
    refine ⟨hs.trans (deliverTo_slotted polls w), ?_⟩
    intro p poll h
    obtain ⟨mid, hmid, hst, hh, hn, hsame⟩ := hp p poll h
    obtain ⟨old, hold, hst', hh', hn', hw⟩ := deliverTo_empty polls w p mid hmid
    refine ⟨old, hold, hst.trans hst', hh.trans hh', ?_, ?_⟩
    · rintro (ho | hm)
      · exact hn (Or.inl (hn' ho))
      · rcases List.mem_cons.1 hm with rfl | hm
        · obtain ⟨poll', hp', hslot⟩ := hfree p List.mem_cons_self
          rw [hold] at hp'
          cases hp'
          exact hn (Or.inl (hw rfl hslot))
        · exact hn (Or.inr hm)
    · intro hp
      have hne : w ≠ p := fun e => hp (e ▸ List.mem_cons_self)
      have hp : p ∉ ws := fun hm => hp (List.mem_cons_of_mem w hm)
      rw [deliverTo_free hne] at hmid
      rw [hold] at hmid
      cases hmid
      exact hsame hp

theorem releaseLocked_polls {c : Core} (h : c.Wf) :
    slotted c.releaseLocked.polls = slotted c.polls ∧
      ∀ p poll, c.releaseLocked.polls.get? p = some poll →
        ∃ old, c.polls.get? p = some old ∧ poll.stage = old.stage ∧ held poll = held old ∧
          (old.waiter.notified ∨ p ∈ c.inner.waiters → poll.waiter.notified) ∧ (p ∉ c.inner.waiters → poll = old) :=
  replies_spec c.inner.waiters c.polls h.nodup fun w hw => (h.waiting w hw).imp fun _ hp => ⟨hp.1, hp.2.1⟩

theorem releaseLocked_wf {c : Core} (h : c.Wf) : c.releaseLocked.Wf := by
  obtain ⟨-, hp⟩ := releaseLocked_polls h
  refine ⟨List.nodup_nil, ?_, ?_, ?_⟩
  · intro w hw
    cases hw
  · intro p poll hq hst
    obtain ⟨old, hold, hst', -, -, hsame⟩ := hp p poll hq
    rw [hsame fun hm => ?_]
    · exact h.fresh p old hold (hst' ▸ hst)
    · obtain ⟨old', hold', -, hst''⟩ := h.waiting p hm
      rw [hold] at hold'
      cases hold'
      rw [← hst', hst] at hst''
      rcases hst'' with h' | h' <;> cases h'
  · intro p poll hq hst
    obtain ⟨old, hold, hst', -, hn, -⟩ := hp p poll hq
    exact Or.inr (hn (h.woken p old hold (hst' ▸ hst)).symm)

/-! ## Every run -/

/-- a poll whose stage changes to one that does not wait -/
theorem Core.Wf.stage {c : Core} {p : ℕ} {poll : Poll} (h : c.Wf) (hnot : p ∉ c.inner.waiters)
    (hst : poll.stage ≠ .parked) (hslot : poll.stage = .checked → poll.waiter.slot = none) (queue : List AgentCommand) :
    Core.Wf ⟨{ c.inner with queue }, c.polls.insert p poll⟩ := by
  refine ⟨h.nodup, ?_, ?_, ?_⟩
  · intro w hw
    have hne : p ≠ w := fun e => hnot (e ▸ hw)
    simp only [IndexMap.get?_insert_ne _ _ hne]
    exact h.waiting w hw
  · intro q poll' hq hst'
    simp only [IndexMap.get?_insert] at hq
    split_ifs at hq
    · cases hq; exact hslot hst'
    · exact h.fresh q poll' hq hst'
  · intro q poll' hq hst'
    simp only [IndexMap.get?_insert] at hq
    split_ifs at hq
    · cases hq; exact absurd hst' hst
    · exact h.woken q poll' hq hst'

theorem Core.Wf.not_waiting {c : Core} {p : ℕ} {poll : Poll} (h : c.Wf) (hp : c.polls.get? p = some poll)
    (h1 : poll.stage ≠ .parked) (h2 : poll.stage ≠ .closing) : p ∉ c.inner.waiters := fun hm => by
  obtain ⟨poll', hp', -, hst⟩ := h.waiting p hm
  rw [hp] at hp'
  cases hp'
  exact hst.elim h1 h2

theorem Core.Wf.not_waiting_new {c : Core} {p : ℕ} (h : c.Wf) (hp : c.polls.get? p = none) : p ∉ c.inner.waiters :=
  fun hm => by
    obtain ⟨poll', hp', -⟩ := h.waiting p hm
    rw [hp] at hp'
    cases hp'

/-- a poll that takes its slot keeps its place in the list -/
theorem taken_wf {c : Core} (p : ℕ) (waiter : PollWaiter) (h : c.Wf) :
    Core.Wf { c with polls := c.polls.insert p ⟨.closing, waiter.take.1⟩ } := by
  refine ⟨h.nodup, ?_, ?_, ?_⟩
  · intro w hw
    simp only [IndexMap.get?_insert]
    split_ifs
    · exact ⟨_, rfl, rfl, Or.inr rfl⟩
    · exact h.waiting w hw
  · intro q poll hq hst
    simp only [IndexMap.get?_insert] at hq
    split_ifs at hq
    · cases hq; cases hst
    · exact h.fresh q poll hq hst
  · intro q poll hq hst
    simp only [IndexMap.get?_insert] at hq
    split_ifs at hq
    · cases hq; cases hst
    · exact h.woken q poll hq hst

theorem wf_step (s : St) (o : Op) (h : s.core.Wf) : (step s o).core.Wf := by
  cases o with
  | register => simp only [step]; split <;> exact h
  | callStart k tool args timeoutMs => simp only [step]; split <;> exact h
  | callCheck k => simp only [step]; split <;> exact h
  | mint k nowMs => simp only [step]; split <;> exact h
  | mintOther => exact h
  | receive k => simp only [step]; split <;> exact h
  | releaseRemove => simp only [step]; split <;> exact h
  | releaseStore => simp only [step]; split <;> exact h
  | complete id ok data error => simp only [step]; split <;> [exact h; exact h.same rfl rfl]
  | giveUp k =>
    simp only [step]
    split
    · exact h.same rfl rfl
    · exact h.same rfl rfl
    · exact h
  | enqueue k =>
    simp only [step]
    split
    · rename_i command _
      split
      · exact h
      · rename_i core hc
        rw [callLocked_ok hc]
        exact release_wf (queued_wf h k command)
    · exact h
  | pollCheck p =>
    simp only [step]
    cases hp : s.core.polls.get? p with
    | some poll => exact h
    | none =>
      dsimp only
      split_ifs
      · exact h.stage (h.not_waiting_new hp) (by simp) (fun _ => rfl) s.core.inner.queue
      · exact h.stage (h.not_waiting_new hp) (by simp) (fun _ => rfl) s.core.inner.queue
  | pollEnter p =>
    simp only [step]
    split
    · rename_i waiter hp
      rcases enterLocked_spec s.core p with ⟨-, he⟩ | ⟨-, he⟩
      · rw [he]
        exact h.stage (h.not_waiting hp (by simp) (by simp)) (by simp) (by simp) []
      · rw [he]
        exact entered_wf h hp
    · exact h
  | take p =>
    simp only [step]
    split
    · rename_i waiter hp
      exact taken_wf p waiter h
    · exact h
  | close p =>
    simp only [step]
    split
    · exact finish_wf h
    · exact h
  | cancel p =>
    simp only [step]
    split
    · exact finish_wf h
    · exact h
  | releaseLock code message =>
    simp only [step]
    split
    · exact releaseLocked_wf h
    · exact h

end EspectralClient.AgentLaunch
