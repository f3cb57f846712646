/-
The command queue of an agent launch loses nothing and hands nothing out twice.

- `Conserved`, `conserved_run`: what was accepted is, command by command, what is queued, in a slot, returned, abandoned
  or cleared by a release.
- `commandId_inj`, `ids_run`: command ids are fresh while the clock readings they are made of do not lose a base-36
  digit, so each id is in one place.
- `InOrder`, `order_run`: commands come out in the order they were accepted while a batch is handed over only when no
  slot holds commands.
- `commands_conserved`: the three together. `overtaken` and `colliding` are runs that do not meet the conditions.
-/
import EspectralClient.Engine.AgentPolls

namespace EspectralClient.AgentQueue

open EspectralClient.Lib EspectralClient.AgentLaunch

/-! ## Conservation -/

/-- what has left the launcher's side -/
def gone (s : St) : List AgentCommand := returnedCommands s ++ (s.abandoned ++ s.cleared)

def Conserved (s : St) : Prop := s.accepted.Perm (s.core.places ++ gone s)

theorem give_gone (s : St) (p : ℕ) (batch : List AgentCommand) : (gone (s.give p batch)).Perm (batch ++ gone s) := by
  simp only [gone, returnedCommands, St.give, List.flatMap_append, List.flatMap_singleton, List.append_assoc]
  exact List.perm_append_comm_assoc _ _ _

/-- commands that leave the launcher's side are accounted for where they go -/
theorem Conserved.move {s t : St} (h : Conserved s) (moved : List AgentCommand) (ha : t.accepted = s.accepted)
    (hp : s.core.places.Perm (moved ++ t.core.places)) (hg : (gone t).Perm (moved ++ gone s)) : Conserved t := by
  rw [Conserved, ha]
  calc s.accepted.Perm (s.core.places ++ gone s) := h
    _ |>.Perm (moved ++ t.core.places ++ gone s) := hp.append_right _
    _ |>.Perm (t.core.places ++ moved ++ gone s) := (List.perm_append_comm).append_right _
    _ |>.Perm (t.core.places ++ gone t) := by rw [List.append_assoc]; exact hg.symm.append_left _

theorem Conserved.keep {s t : St} (h : Conserved s) (ha : t.accepted = s.accepted)
    (hp : t.core.places.Perm s.core.places) (hg : gone t = gone s) : Conserved t :=
  h.move [] ha hp.symm (by rw [hg]; rfl)

/-- what `abandon` takes out of the queue, and what it leaves -/
theorem find_eraseP_perm (queue : List AgentCommand) (p : AgentCommand → Bool) :
    queue.Perm ((queue.find? p).toList ++ queue.eraseP p) := by
  induction queue with
  | nil => simp
  | cons c queue ih =>
    by_cases h : p c
    · simp [h]
    · simp only [List.find?_cons_of_neg h, List.eraseP_cons_of_neg h]
      exact (ih.cons c).trans (List.perm_middle).symm

theorem enqueue_conserved {s : St} (h : Conserved s) (hw : s.core.Wf) (k : ℕ) (command : AgentCommand) {core : Core}
    (hc : s.core.callLocked k command = .ok core) (calls : IndexMap ℕ Call) :
    Conserved { s with core, accepted := s.accepted ++ [command], calls } := by
  have hplaces : core.places.Perm (s.core.places ++ [command]) := by
    rw [callLocked_ok hc]
    exact (release_places (queued_wf hw k command)).trans (queued_places s.core k command)
  have hg : gone { s with core, accepted := s.accepted ++ [command], calls } = gone s := rfl
  rw [Conserved, hg]
  calc (s.accepted ++ [command]).Perm (s.core.places ++ gone s ++ [command]) := h.append_right _
    _ |>.Perm (s.core.places ++ [command] ++ gone s) := by
      rw [List.append_assoc, List.append_assoc]
      exact (List.perm_append_comm).append_left _
    _ |>.Perm (core.places ++ gone s) := hplaces.symm.append_right _

theorem abandon_conserved {s : St} (h : Conserved s) (command : AgentCommand) (calls : IndexMap ℕ Call)
    (givenUp : List String) : Conserved { s with
      core := { s.core with inner := s.core.inner.abandon command.id }
      calls
      abandoned := s.abandoned ++ (s.core.inner.queue.find? (·.id = command.id)).toList
      givenUp } := by
  refine h.move (s.core.inner.queue.find? (·.id = command.id)).toList rfl ?_ ?_
  · simp only [Core.places, LaunchInner.abandon]
    rw [← List.append_assoc]
    exact (find_eraseP_perm _ _).append_right _
  · have := List.perm_append_comm_assoc (returnedCommands s ++ s.abandoned)
      (s.core.inner.queue.find? (·.id = command.id)).toList s.cleared
    simpa only [gone, returnedCommands, List.append_assoc] using this

theorem conserved_step (s : St) (o : Op) (hw : s.core.Wf) (h : Conserved s) : Conserved (step s o) := by
  cases o with
  | register => simp only [step]; split <;> exact h
  | callStart k tool args timeoutMs => simp only [step]; split <;> exact h
  | callCheck k => simp only [step]; split <;> exact h
  | mint k nowMs => simp only [step]; split <;> exact h
  | mintOther => exact h
  | receive k => simp only [step]; split <;> exact h
  | releaseRemove => simp only [step]; split <;> exact h
  | releaseStore => simp only [step]; split <;> exact h
  | complete id ok data error => simp only [step]; split <;> exact h
  | enqueue k =>
    simp only [step]
    split
    · rename_i command _
      split
      · exact h
      · rename_i core hc
        exact enqueue_conserved h hw k command hc _
    · exact h
  | giveUp k =>
    simp only [step]
    split
    · exact abandon_conserved h _ _ _
    · exact abandon_conserved h _ _ _
    · exact h
  | pollCheck p =>
    simp only [step]
    cases hp : s.core.polls.get? p with
    | some poll => exact h
    | none =>
      dsimp only
      have hs : ∀ stage, slotted (s.core.polls.insert p ⟨stage, .default⟩) = slotted s.core.polls :=
        fun stage => slotted_new hp rfl
      split_ifs
      · exact h.keep rfl (by simp only [Core.places, hs]; rfl) rfl
      · exact h.move [] rfl (by simp only [Core.places, St.give, hs]; rfl) (give_gone _ p [])
  | pollEnter p =>
    simp only [step]
    split
    · rename_i waiter hp
      have hs : ∀ stage, slotted (s.core.polls.insert p ⟨stage, waiter⟩) = slotted s.core.polls :=
        fun stage => slotted_same hp rfl
      rcases enterLocked_spec s.core p with ⟨-, he⟩ | ⟨-, he⟩
      · rw [he]
        refine h.move s.core.inner.queue rfl ?_ (give_gone _ p _)
        simp only [Core.places, St.give, hs, List.nil_append]
        rfl
      · rw [he]
        exact h.keep rfl (by simp only [Core.places, hs]; rfl) rfl
    · exact h
  | take p =>
    simp only [step]
    split
    · rename_i waiter hp
      refine h.move waiter.take.2 rfl ?_ (give_gone _ p _)
      have htaken := (slotted_replace ⟨.closing, waiter.take.1⟩ hp).symm.append_left s.core.inner.queue
      exact htaken.trans (List.perm_append_comm_assoc _ _ _)
    · exact h
  | close p =>
    simp only [step]
    split
    · rename_i waiter hp
      exact h.keep rfl (finish_places hw hp) rfl
    · exact h
  | cancel p =>
    simp only [step]
    split
    · rename_i waiter hp
      exact h.keep rfl (finish_places hw hp) rfl
    · exact h
  | releaseLock code message =>
    simp only [step]
    split
    · refine h.move s.core.inner.queue rfl ?_ ?_
      · simp only [Core.places, (releaseLocked_polls hw).1]
        rfl
      · have : (gone s ++ s.core.inner.queue).Perm (s.core.inner.queue ++ gone s) := List.perm_append_comm
        simpa only [gone, returnedCommands, List.append_assoc] using this
    · exact h

theorem conserved_start (key : String) : Conserved (start key) := List.Perm.refl _

theorem conserved_run (key : String) (ops : List Op) : Conserved (run step (start key) ops) :=
  (run_preserves (I := fun s => s.core.Wf ∧ Conserved s) step
    (fun s o h => ⟨wf_step s o h.1, conserved_step s o h.1 h.2⟩) ops ⟨wf_start key, conserved_start key⟩).2

/-! ## Command ids -/

/-- the digits of a number, least significant first, with a digit for zero -/
def digits36 (n : ℕ) : List ℕ := if n = 0 then [0] else Nat.digits 36 n

theorem base36_toList (n : ℕ) : (base36 n).toList = (digits36 n).reverse.map base36Digit := by
  unfold base36 digits36
  split_ifs
  · decide
  · exact String.toList_ofList

theorem digits36_lt {n d : ℕ} (h : d ∈ digits36 n) : d < 36 := by
  unfold digits36 at h
  split_ifs at h
  · rw [List.mem_singleton.1 h]; decide
  · exact Nat.digits_lt_base (by decide) h

theorem digits36_inj {m n : ℕ} (h : digits36 m = digits36 n) : m = n := by
  have hval : ∀ k, Nat.ofDigits 36 (digits36 k) = k := fun k => by
    unfold digits36
    split_ifs with hk
    · rw [hk]; rfl
    · exact Nat.ofDigits_digits 36 k
  rw [← hval m, ← hval n, h]

theorem digits36_length_mono {m n : ℕ} (h : m ≤ n) : (digits36 m).length ≤ (digits36 n).length := by
  unfold digits36
  split_ifs with hm hn
  · exact le_rfl
  · exact List.length_pos_iff.2 fun he => hn (Nat.digits_eq_nil_iff_eq_zero.1 he)
  · omega
  · exact Nat.le_length_digits_le 36 m n h

/-- the value of a digit character -/
def base36Value (c : Char) : ℕ := "0123456789abcdefghijklmnopqrstuvwxyz".toList.idxOf c

theorem base36Value_digit : ∀ d < 36, base36Value (base36Digit d) = d := by decide

theorem base36_inj {m n : ℕ} (h : base36 m = base36 n) : m = n := by
  have hread : ∀ k, ((base36 k).toList.map base36Value).reverse = digits36 k := fun k => by
    rw [base36_toList, List.map_reverse, List.map_reverse, List.reverse_reverse, List.map_map]
    calc (digits36 k).map (base36Value ∘ base36Digit)
        = (digits36 k).map id := List.map_congr_left fun d hd => base36Value_digit d (digits36_lt hd)
      _ = digits36 k := List.map_id _
  exact digits36_inj (by rw [← hread m, ← hread n, h])

theorem base36_length (n : ℕ) : (base36 n).toList.length = (digits36 n).length := by
  rw [base36_toList, List.length_map, List.length_reverse]

/-- digits of the reading a command id is made of -/
def readingDigits (nowMs : ℤ) : ℕ := (base36 nowMs.toNat).toList.length

/-- **Ids are fresh** as long as neither the reading nor the number loses a digit. -/
theorem commandId_inj {now now' : ℤ} {seq seq' : ℕ} (hnow : readingDigits now ≤ readingDigits now')
    (hseq : seq ≤ seq') (h : commandId now seq = commandId now' seq') : seq = seq' := by
  have hlist := congrArg String.toList h
  simp only [commandId, String.toList_append, List.append_assoc] at hlist
  have htail := List.append_cancel_left hlist
  have hlen := congrArg List.length htail
  have hmono : (base36 seq).toList.length ≤ (base36 seq').toList.length := by
    rw [base36_length, base36_length]; exact digits36_length_mono hseq
  simp only [List.length_append, readingDigits] at hlen hnow
  obtain ⟨-, hs⟩ := List.append_inj htail (by omega)
  exact base36_inj (String.toList_injective hs)

/-- the id of a call that was minted and not queued yet -/
def mintedId (c : Call) : List String :=
  match c.stage with
  | .minted command => [command.id]
  | _ => []

/-- ids in use: of the accepted commands and of calls on their way to the locked section -/
def idsOf (s : St) : List String := s.accepted.map (·.id) ++ s.calls.values.flatMap mintedId

/-- the ids in use are distinct, and made of numbers up to `seq` and readings of at most `digits` digits -/
structure Fresh (digits : ℕ) (s : St) : Prop where
  nodup : (idsOf s).Nodup
  made : ∀ id ∈ idsOf s, ∃ now seq, seq ≤ s.seq ∧ readingDigits now ≤ digits ∧ id = commandId now seq

theorem fresh_start (key : String) : Fresh 0 (start key) where
  nodup := List.nodup_nil
  made _ h := by cases h

/-- steps that bring no id into use -/
theorem Fresh.sub {digits : ℕ} {s t : St} (h : Fresh digits s) (hi : (idsOf t).Subperm (idsOf s)) (hq : t.seq = s.seq) :
    Fresh digits t := by
  obtain ⟨l, hl, hsub⟩ := hi
  refine ⟨hl.nodup_iff.1 (h.nodup.sublist hsub), ?_⟩
  intro id hid
  rw [hq]
  exact h.made id (hsub.subset (hl.symm.subset hid))

theorem Fresh.same {digits : ℕ} {s t : St} (h : Fresh digits s) (ha : t.accepted = s.accepted)
    (hc : t.calls.values.flatMap mintedId = s.calls.values.flatMap mintedId) (hq : t.seq = s.seq) : Fresh digits t :=
  h.sub (by rw [idsOf, idsOf, ha, hc]) hq

theorem settle_minted (calls : IndexMap ℕ Call) (k : ℕ) (outcome : Outcome) :
    (settle calls k outcome).values.flatMap mintedId = calls.values.flatMap mintedId := by
  unfold settle
  split
  · rename_i hk
    exact IndexMap.flatMap_insert_same mintedId hk rfl
  · rfl

theorem dropSender_minted (calls : IndexMap ℕ Call) (old : Option Inflight) :
    (dropSender calls old).values.flatMap mintedId = calls.values.flatMap mintedId := by
  cases old with
  | none => rfl
  | some old => exact settle_minted _ _ _

theorem settleAll_minted (l : List Inflight) (outcome : Outcome) (calls : IndexMap ℕ Call) :
    (l.foldl (fun calls inflight => settle calls inflight.tx outcome) calls).values.flatMap mintedId =
      calls.values.flatMap mintedId := by
  induction l generalizing calls with
  | nil => rfl
  | cons inflight l ih => rw [List.foldl_cons, ih, settle_minted]

theorem mint_fresh {digits : ℕ} {s : St} {k : ℕ} {old : Call} (h : Fresh digits s) (hk : s.calls.get? k = some old)
    (hold : mintedId old = []) (now : ℤ) (hnow : digits ≤ readingDigits now) (command : AgentCommand)
    (hid : command.id = commandId now (s.seq + 1)) (new : Call) (hnew : mintedId new = [command.id]) :
    Fresh (readingDigits now) { s with seq := s.seq + 1, calls := s.calls.insert k new } := by
  have hperm : (idsOf { s with seq := s.seq + 1, calls := s.calls.insert k new }).Perm (command.id :: idsOf s) := by
    have := IndexMap.flatMap_replace new mintedId hk
    rw [hold, List.nil_append, hnew] at this
    exact (this.append_left _).trans List.perm_middle
  refine ⟨hperm.nodup_iff.2 (List.nodup_cons.2 ⟨?_, h.nodup⟩), ?_⟩
  · intro hm
    -- an id in use has a smaller number
    obtain ⟨now', seq, hseq, hdig, he⟩ := h.made _ hm
    have := commandId_inj (hdig.trans hnow) (by omega) (he.symm.trans hid)
    omega
  · intro id hm
    rcases List.mem_cons.1 (hperm.subset hm) with rfl | hm
    · exact ⟨now, s.seq + 1, le_rfl, le_rfl, hid⟩
    · obtain ⟨now', seq, hseq, hdig, he⟩ := h.made id hm
      exact ⟨now', seq, by dsimp only; omega, hdig.trans hnow, he⟩

/-- the reading an operation makes an id of -/
def mintReading : Op → Option ℕ
  | .mint _ nowMs => some (readingDigits nowMs)
  | _ => none

theorem fresh_mono {digits digits' : ℕ} {s : St} (h : Fresh digits s) (hd : digits ≤ digits') : Fresh digits' s :=
  ⟨h.nodup, fun id hid => by
    obtain ⟨now, seq, hseq, hdig, he⟩ := h.made id hid
    exact ⟨now, seq, hseq, hdig.trans hd, he⟩⟩

theorem enqueue_fresh {digits : ℕ} {s : St} (h : Fresh digits s) (k : ℕ) : Fresh digits (step s (.enqueue k)) := by
  simp only [step]
  split
  · rename_i tool args timeoutMs command hk
    have hreplace : ∀ stage, mintedId ⟨tool, args, timeoutMs, stage⟩ = [] →
        (command.id :: (s.calls.insert k ⟨tool, args, timeoutMs, stage⟩).values.flatMap mintedId).Perm
          (s.calls.values.flatMap mintedId) := fun stage hstage => by
      have := IndexMap.flatMap_replace ⟨tool, args, timeoutMs, stage⟩ mintedId hk
      rwa [hstage] at this
    split
    · rename_i e _
      refine h.sub ?_ rfl
      have hsub := (List.sublist_cons_self command.id _).subperm.trans (hreplace (.refused e) rfl).subperm
      exact (List.subperm_append_left _).2 hsub
    · rename_i core _
      have hcalls : ∀ calls : IndexMap ℕ Call, calls.values.flatMap mintedId =
          (s.calls.insert k ⟨tool, args, timeoutMs, .pending command⟩).values.flatMap mintedId →
          Fresh digits { s with core, accepted := s.accepted ++ [command], calls } := fun calls hc => by
        refine h.sub ?_ rfl
        simp only [idsOf, hc, List.map_append, List.map_cons, List.map_nil, List.append_assoc]
        exact ((hreplace (.pending command) rfl).append_left _).subperm
      exact hcalls _ (dropSender_minted _ _)
  · exact h

theorem fresh_step (digits : ℕ) (s : St) (o : Op) (ho : ∀ r ∈ mintReading o, digits ≤ r) (h : Fresh digits s) :
    Fresh ((mintReading o).getD digits) (step s o) := by
  cases o with
  | register => simp only [step]; split <;> exact h.same rfl rfl rfl
  | callStart k tool args timeoutMs =>
    simp only [step]
    split
    · exact h.same rfl (IndexMap.flatMap_insert_new _ mintedId ‹_› |>.trans (List.append_nil _)) rfl
    · exact h.same rfl (IndexMap.flatMap_insert_new _ mintedId ‹_› |>.trans (List.append_nil _)) rfl
    · exact h
  | callCheck k =>
    simp only [step]
    split
    · rename_i hk
      refine h.same rfl (IndexMap.flatMap_insert_same mintedId hk ?_) rfl
      split_ifs <;> rfl
    · exact h
  | mint k nowMs =>
    have hnow : digits ≤ readingDigits nowMs := ho _ rfl
    simp only [step]
    split
    · rename_i hk
      exact mint_fresh h hk rfl nowMs hnow _ rfl _ rfl
    · exact fresh_mono h hnow
  | mintOther =>
    refine ⟨h.nodup, ?_⟩
    intro id hid
    obtain ⟨now, seq, hseq, hdig, he⟩ := h.made id hid
    exact ⟨now, seq, hseq.trans (Nat.le_succ _), hdig, he⟩
  | enqueue k => exact enqueue_fresh h k
  | receive k =>
    simp only [step]
    split
    · rename_i hk
      exact h.same rfl (IndexMap.flatMap_insert_same mintedId hk rfl) rfl
    · exact h
  | giveUp k =>
    simp only [step]
    split
    · rename_i hk
      exact h.same rfl ((dropSender_minted _ _).trans (IndexMap.flatMap_insert_same mintedId hk rfl)) rfl
    · rename_i hk
      exact h.same rfl ((dropSender_minted _ _).trans (IndexMap.flatMap_insert_same mintedId hk rfl)) rfl
    · exact h
  | complete id ok data error =>
    simp only [step]
    split
    · exact h
    · exact h.same rfl (settle_minted _ _ _) rfl
  | pollCheck p =>
    simp only [step]
    split
    · exact h
    · split_ifs <;> exact h.same rfl rfl rfl
  | pollEnter p =>
    simp only [step]
    split
    · split <;> exact h.same rfl rfl rfl
    · exact h
  | take p => simp only [step]; split <;> exact h.same rfl rfl rfl
  | close p => simp only [step]; split <;> exact h.same rfl rfl rfl
  | cancel p => simp only [step]; split <;> exact h.same rfl rfl rfl
  | releaseRemove => simp only [step]; split <;> exact h.same rfl rfl rfl
  | releaseStore => simp only [step]; split <;> exact h.same rfl rfl rfl
  | releaseLock code message =>
    simp only [step]
    split
    · exact h.same rfl (settleAll_minted _ _ _) rfl
    · exact h

/-- ids are distinct in runs whose readings do not lose a digit -/
theorem ids_run (key : String) (ops : List Op) (hclock : (ops.filterMap mintReading).Pairwise (· ≤ ·)) :
    ((run step (start key) ops).accepted.map (·.id)).Nodup := by
  obtain ⟨digits, h, -⟩ := run_monotone step mintReading fresh_step (fun _ _ => Nat.zero_le _) hclock (fresh_start key)
  exact h.nodup.sublist (List.sublist_append_left _ _)

/-! ## Order -/

/-- at most one slot holds commands -/
def OneBatch (polls : IndexMap ℕ Poll) : Prop :=
  ∀ p q a b, polls.get? p = some a → polls.get? q = some b → held a ≠ [] → held b ≠ [] → p = q

/-- what is next to come out, in order -/
def front (c : Core) : List AgentCommand := slotted c.polls ++ c.inner.queue

structure InOrder (s : St) : Prop where
  one : OneBatch s.core.polls
  line : List.Sublist (returnedCommands s ++ front s.core) s.accepted

/-- a batch is handed over only while no slot holds commands -/
def Ordered (s : St) : Op → Prop
  | .enqueue _ => s.core.inner.waiters ≠ [] → slotted s.core.polls = []
  | .pollEnter _ => s.core.inner.queue ≠ [] → slotted s.core.polls = []
  | _ => True

instance (s : St) (o : Op) : Decidable (Ordered s o) := by
  apply Op.casesOn (motive := fun o => Decidable (Ordered s o)) o <;> intros <;> dsimp only [Ordered] <;> infer_instance

section OneSlot

variable {polls : IndexMap ℕ Poll} {p : ℕ} {old new : Poll}

theorem OneBatch.insert_nil (h : OneBatch polls) (hn : held new = []) : OneBatch (polls.insert p new) := by
  intro q r a b ha hb hna hnb
  rw [IndexMap.get?_insert] at ha hb
  split_ifs at ha with h1
  · cases ha; exact absurd hn hna
  · split_ifs at hb with h2
    · cases hb; exact absurd hn hnb
    · exact h q r a b ha hb hna hnb

theorem OneBatch.insert_same (h : OneBatch polls) (ho : polls.get? p = some old) (he : held new = held old) :
    OneBatch (polls.insert p new) := by
  by_cases hn : held new = []
  · exact h.insert_nil hn
  · intro q r a b ha hb hna hnb
    have hread : ∀ q a, (polls.insert p new).get? q = some a → held a ≠ [] → q = p := fun q a ha hna => by
      rw [IndexMap.get?_insert] at ha
      split_ifs at ha with hpq
      · exact hpq.symm
      · exact h q p a old ha ho hna (he ▸ hn)
    rw [hread q a ha hna, hread r b hb hnb]

theorem slotted_single (h : OneBatch polls) (ho : polls.get? p = some old) (hne : held old ≠ []) :
    slotted polls = held old :=
  IndexMap.flatMap_single held ho fun q a ha hq => by
    by_contra hna
    exact hq (h q p a old ha ho hna hne)

/-- the one batch leaves its slot -/
theorem slotted_emptied (h : OneBatch polls) (ho : polls.get? p = some old) (hne : held old ≠ []) (hn : held new = []) :
    slotted (polls.insert p new) = [] := by
  have hperm := slotted_replace new ho
  rw [hn, List.nil_append, slotted_single h ho hne] at hperm
  have := hperm.length_eq
  rw [List.length_append] at this
  exact List.length_eq_zero_iff.1 (by omega)

/-- a batch goes to a slot while the others are empty -/
theorem slotted_filled (h : slotted polls = []) (p : ℕ) (new : Poll) :
    slotted (polls.insert p new) = held new ∧ OneBatch (polls.insert p new) := by
  have hothers : ∀ q a, (polls.insert p new).get? q = some a → q ≠ p → held a = [] := fun q a ha hq => by
    rw [IndexMap.get?_insert_ne _ _ (Ne.symm hq)] at ha
    exact held_of_slotted_nil h ha
  refine ⟨IndexMap.flatMap_single held (polls.get?_insert_self p new) hothers, fun q r a b ha hb hna hnb => ?_⟩
  by_cases hq : q = p
  · by_cases hr : r = p
    · rw [hq, hr]
    · exact absurd (hothers r b hb hr) hnb
  · exact absurd (hothers q a ha hq) hna

end OneSlot

/-- handing the queue over keeps the line, when no slot holds commands -/
theorem release_front {c : Core} (hw : c.Wf) (hone : OneBatch c.polls)
    (h : c.inner.queue ≠ [] → c.inner.waiters ≠ [] → slotted c.polls = []) :
    front c.releasePollersLocked = front c ∧ OneBatch c.releasePollersLocked.polls := by
  rcases hw.release c with ⟨he, -⟩ | ⟨w, rest, poll, hws, hq, -, -, he⟩
  · rw [he]; exact ⟨rfl, hone⟩
  · have hnil : slotted c.polls = [] := h hq (by rw [hws]; exact List.cons_ne_nil _ _)
    obtain ⟨hs, hone'⟩ := slotted_filled hnil w { poll with waiter := ⟨some c.inner.queue, true⟩ }
    rw [he]
    exact ⟨by simp [front, hs, hnil, held], hone'⟩

theorem putBack_front {c : Core} {p : ℕ} {stage : PollStage} {waiter : PollWaiter} (hone : OneBatch c.polls)
    (hp : c.polls.get? p = some ⟨stage, waiter⟩) :
    front (c.putBack p waiter) = front c ∧ OneBatch (c.putBack p waiter).polls ∧
      (waiter.slot.getD [] ≠ [] → slotted (c.putBack p waiter).polls = []) := by
  have hempty : held ⟨.finished, { waiter with slot := none }⟩ = [] := rfl
  refine ⟨?_, hone.insert_nil hempty, fun hne => slotted_emptied hone hp hne hempty⟩
  by_cases hne : waiter.slot.getD [] = []
  · have hs : slotted (c.putBack p waiter).polls = slotted c.polls := slotted_same hp hne.symm
    rw [front, hs, front, Core.putBack, hne, List.nil_append]
  · have hs : slotted (c.putBack p waiter).polls = [] := slotted_emptied hone hp hne hempty
    rw [front, hs, front, slotted_single hone hp hne]
    rfl

theorem finish_front {c : Core} {p : ℕ} {stage : PollStage} {waiter : PollWaiter} (hw : c.Wf) (hone : OneBatch c.polls)
    (hp : c.polls.get? p = some ⟨stage, waiter⟩) :
    front (c.finish p waiter) = front c ∧ OneBatch (c.finish p waiter).polls := by
  obtain ⟨hf, hone', hnil⟩ := putBack_front hone hp
  rw [finish_eq]
  split_ifs with hne
  · exact ⟨hf, hone'⟩
  · obtain ⟨hf', hone''⟩ := release_front (putBack_wf hw) hone' fun _ _ => hnil hne
    exact ⟨hf'.trans hf, hone''⟩

theorem order_start (key : String) : InOrder (start key) where
  one _ _ _ _ h := by cases h
  line := List.Sublist.refl _

/-- steps that accept nothing and keep or shorten the line -/
theorem InOrder.sub {s t : St} (h : InOrder s) (hone : OneBatch t.core.polls) (ha : t.accepted = s.accepted)
    (hl : List.Sublist (returnedCommands t ++ front t.core) (returnedCommands s ++ front s.core)) : InOrder t :=
  ⟨hone, by rw [ha]; exact hl.trans h.line⟩

theorem give_returned (s : St) (p : ℕ) (batch : List AgentCommand) :
    returnedCommands (s.give p batch) = returnedCommands s ++ batch := by
  simp [returnedCommands, St.give]

theorem enqueue_order {s : St} (hw : s.core.Wf) (k : ℕ) (ho : Ordered s (.enqueue k)) (h : InOrder s) :
    InOrder (step s (.enqueue k)) := by
  simp only [step]
  split
  · rename_i command _
    split
    · exact h.sub h.one rfl (List.Sublist.refl _)
    · rename_i core hc
      obtain ⟨hf, hone⟩ := release_front (queued_wf hw k command) h.one fun _ hws => ho hws
      rw [callLocked_ok hc]
      refine ⟨hone, ?_⟩
      have hline := h.line.append_right [command]
      dsimp only [returnedCommands] at hline ⊢
      rw [hf]
      simpa only [front, Core.queued, List.append_assoc] using hline
  · exact h

theorem order_step (s : St) (o : Op) (hw : s.core.Wf) (ho : Ordered s o) (h : InOrder s) : InOrder (step s o) := by
  cases o with
  | register => simp only [step]; split <;> exact h.sub h.one rfl (List.Sublist.refl _)
  | callStart k tool args timeoutMs => simp only [step]; split <;> exact h.sub h.one rfl (List.Sublist.refl _)
  | callCheck k => simp only [step]; split <;> exact h.sub h.one rfl (List.Sublist.refl _)
  | mint k nowMs => simp only [step]; split <;> exact h.sub h.one rfl (List.Sublist.refl _)
  | mintOther => exact h.sub h.one rfl (List.Sublist.refl _)
  | receive k => simp only [step]; split <;> exact h.sub h.one rfl (List.Sublist.refl _)
  | releaseRemove => simp only [step]; split <;> exact h.sub h.one rfl (List.Sublist.refl _)
  | releaseStore => simp only [step]; split <;> exact h.sub h.one rfl (List.Sublist.refl _)
  | complete id ok data error => simp only [step]; split <;> exact h.sub h.one rfl (List.Sublist.refl _)
  | enqueue k => exact enqueue_order hw k ho h
  | giveUp k =>
    have hsub : ∀ id, List.Sublist (returnedCommands s ++ (slotted s.core.polls ++ s.core.inner.queue.eraseP (·.id = id)))
        (returnedCommands s ++ front s.core) := fun id =>
      ((List.eraseP_sublist).append_left _).append_left _
    simp only [step]
    split
    · exact h.sub h.one rfl (hsub _)
    · exact h.sub h.one rfl (hsub _)
    · exact h
  | pollCheck p =>
    simp only [step]
    cases hp : s.core.polls.get? p with
    | some poll => exact h
    | none =>
      dsimp only
      have hs : ∀ stage, slotted (s.core.polls.insert p ⟨stage, .default⟩) = slotted s.core.polls :=
        fun stage => slotted_new hp rfl
      split_ifs
      · refine h.sub (h.one.insert_nil rfl) rfl ?_
        simp only [returnedCommands, front, hs]
        exact List.Sublist.refl _
      · refine h.sub (h.one.insert_nil rfl) rfl ?_
        rw [give_returned, List.append_nil]
        simp only [returnedCommands, front, St.give, hs]
        exact List.Sublist.refl _
  | pollEnter p =>
    simp only [step]
    split
    · rename_i waiter hp
      have hs : ∀ stage, slotted (s.core.polls.insert p ⟨stage, waiter⟩) = slotted s.core.polls :=
        fun stage => slotted_same hp rfl
      rcases enterLocked_spec s.core p with ⟨hq, he⟩ | ⟨-, he⟩
      · -- nothing is in a slot, so the queue is what comes next
        rw [he]
        refine h.sub (h.one.insert_same hp rfl) rfl ?_
        rw [give_returned]
        simp only [returnedCommands, front, St.give, hs, ho hq, List.nil_append, List.append_nil]
        exact List.Sublist.refl _
      · rw [he]
        refine h.sub (h.one.insert_same hp rfl) rfl ?_
        simp only [returnedCommands, front, hs]
        exact List.Sublist.refl _
    · exact h
  | take p =>
    simp only [step]
    split
    · rename_i waiter hp
      have hempty : held ⟨.closing, waiter.take.1⟩ = [] := rfl
      refine h.sub (h.one.insert_nil hempty) rfl ?_
      rw [give_returned]
      dsimp only [St.give, front, returnedCommands]
      by_cases hne : held ⟨.parked, waiter⟩ = []
      · have hout : waiter.take.2 = [] := hne
        rw [slotted_same hp (hempty.trans hne.symm), hout, List.append_nil]
      · have hout : slotted s.core.polls = waiter.take.2 := slotted_single h.one hp hne
        rw [slotted_emptied h.one hp hne hempty, hout, List.nil_append, List.append_assoc]
    · exact h
  | close p =>
    simp only [step]
    split
    · rename_i waiter hp
      obtain ⟨hf, hone⟩ := finish_front hw h.one hp
      exact h.sub hone rfl (by dsimp only [returnedCommands]; rw [hf])
    · exact h
  | cancel p =>
    simp only [step]
    split
    · rename_i waiter hp
      obtain ⟨hf, hone⟩ := finish_front hw h.one hp
      exact h.sub hone rfl (by dsimp only [returnedCommands]; rw [hf])
    · exact h
  | releaseLock code message =>
    simp only [step]
    split
    · obtain ⟨hs, hpolls⟩ := releaseLocked_polls hw
      refine h.sub ?_ rfl ?_
      · intro p q a b ha hb hna hnb
        obtain ⟨a', ha', -, hha, -⟩ := hpolls p a ha
        obtain ⟨b', hb', -, hhb, -⟩ := hpolls q b hb
        exact h.one p q a' b' ha' hb' (hha ▸ hna) (hhb ▸ hnb)
      · dsimp only [returnedCommands, front]
        rw [hs]
        exact (((List.nil_sublist _).append_left _)).append_left _
    · exact h

theorem order_run (key : String) (ops : List Op) (hm : Meets step Ordered (start key) ops) :
    InOrder (run step (start key) ops) :=
  (run_invariant (I := fun s => s.core.Wf ∧ InOrder s) step
    (fun s o ho h => ⟨wf_step s o h.1, order_step s o h.1 ho h.2⟩) hm ⟨wf_start key, order_start key⟩).2

/-! ## Main results -/

/-- **The command queue.** In every run, what `call_tool` accepted is exactly what is queued, in the slot of a poll,
returned, abandoned, or cleared by a release. While the clock readings of command ids do not lose a base-36 digit, each
id is in one of these places and there once, so none is returned twice. While batches are handed over only when no slot
holds commands, they come out in the order they were accepted. -/
theorem commands_conserved (key : String) (ops : List Op) :
    let s := run step (start key) ops
    s.accepted.Perm
        (s.core.inner.queue ++ slotted s.core.polls ++ (returnedCommands s ++ (s.abandoned ++ s.cleared))) ∧
      ((ops.filterMap mintReading).Pairwise (· ≤ ·) →
        ((s.core.inner.queue ++ slotted s.core.polls ++ (returnedCommands s ++ (s.abandoned ++ s.cleared))).map
          (·.id)).Nodup) ∧
      (Meets step Ordered (start key) ops → List.Sublist (returnedCommands s) s.accepted) := by
  intro s
  have hperm : Conserved s := conserved_run key ops
  refine ⟨hperm, ?_, ?_⟩
  · intro hclock
    exact (hperm.map _).nodup_iff.1 (ids_run key ops hclock)
  · intro hm
    exact (List.sublist_append_left _ _).trans (order_run key ops hm).line

/-- the steps of a call up to its id -/
def calling (k : ℕ) (tool : String) (nowMs : ℤ) : List Op := [.callStart k tool none 30000, .callCheck k, .mint k nowMs]

/-- a parked poll gets the first command, is dropped, and the next poll takes both -/
def putBackRun : List Op :=
  [.pollCheck 0, .pollEnter 0] ++ calling 0 "look" 1700000000000 ++ [.enqueue 0, .cancel 0] ++
    calling 1 "jump" 1700000000001 ++ [.enqueue 1, .pollCheck 1, .pollEnter 1]

theorem commands_conserved_example :
    let s := run step (start "l1") putBackRun
    (returnedCommands s).map (·.tool) = ["look", "jump"] ∧
      ((s.core.inner.queue ++ slotted s.core.polls ++ (returnedCommands s ++ (s.abandoned ++ s.cleared))).map
        (·.id)).Nodup ∧ List.Sublist (returnedCommands s) s.accepted :=
  ⟨by decide, (commands_conserved "l1" putBackRun).2.1 (by decide), (commands_conserved "l1" putBackRun).2.2 (by decide)⟩

/-- the first command is in the slot of poll 0; poll 1 enters, finds the second in the queue and returns before poll 0
takes its slot -/
def overtaken : List Op :=
  [.pollCheck 0, .pollEnter 0] ++ calling 0 "look" 1700000000000 ++ [.enqueue 0] ++ calling 1 "jump" 1700000000001 ++
    [.enqueue 1, .pollCheck 1, .pollEnter 1, .take 0, .close 0]

/-- command 1 is made of the reading 37 and command 37 of the reading 1, in base 36 both `c111` -/
def colliding : List Op :=
  calling 0 "look" 37 ++ List.replicate 35 .mintOther ++ calling 1 "jump" 1 ++
    [.enqueue 0, .pollCheck 0, .pollEnter 0, .enqueue 1, .pollCheck 1, .pollEnter 1]

/-- **Order and ids fail** in runs that do not meet the conditions: two polls that overlap return the commands in the
other order, and a clock that goes back lets two polls return one id. -/
theorem commands_overtaken :
    (run step (start "l1") overtaken).accepted.map (·.tool) = ["look", "jump"] ∧
      (run step (start "l1") overtaken).returned.map (fun r => (r.1, r.2.map (·.tool))) = [(1, ["jump"]), (0, ["look"])] ∧
      (run step (start "l1") colliding).returned.map (fun r => (r.1, r.2.map (·.id))) = [(0, ["c111"]), (1, ["c111"])] := by
  decide

end EspectralClient.AgentQueue
