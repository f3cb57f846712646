/-
A recording runs at its constant rate: what the encoder was sent when the writer closed, over every order of frames,
readbacks, stop and writer turns.

- `Buffers`: no buffer is in two places, so a frame keeps its pixels until it is sent.
- `Ordered`: frames are queued in the order of their slots.
- `Written`: the encoder was sent the frames so far, each held from its slot to the next one's.
- `constant_rate`: one frame a slot from the start to the stop, when the first frame fell into the first slot and none
  behind the stop was written before the writer could see it; `rate_missed` is what happens otherwise.
-/
import EspectralClient.Menu.AgentRecorder

namespace EspectralClient.Menu.AgentRecorder

open EspectralClient.Lib EspectralClient.Lib.Hold

variable {α : Type}

/-! ## The end of a frame -/

/-- what the end of a frame does: nothing to the frames, the stop, or one more readback -/
inductive FrameEnd (s : Session α) (stopNs : ℤ) : Session α → Prop
  | skip (gameFrames encoderBusy : ℕ) :
      FrameEnd s stopNs { s with gameFrames := gameFrames, encoderBusy := encoderBusy }
  | limit (running : s.stopped = none) : FrameEnd s stopNs (stopNow s stopNs)
  | thrown {slot : ℤ} {buffer fresh : ℕ} {pool : List ℕ} {failed : Option String} (later : s.lastSlot < slot)
      (taken : s.pool = buffer :: pool ∧ fresh = s.fresh ∨ s.pool = [] ∧ pool = [] ∧ buffer = s.fresh ∧ fresh = s.fresh + 1)
      (gameFrames : ℕ) :
      FrameEnd s stopNs { s with
        gameFrames := gameFrames, lastSlot := slot, fresh := fresh, failed := failed, pool := offer pool buffer }
  | taken {slot : ℤ} {buffer fresh : ℕ} {pool : List ℕ} (running : s.stopped = none) (later : s.lastSlot < slot)
      (taken : s.pool = buffer :: pool ∧ fresh = s.fresh ∨ s.pool = [] ∧ pool = [] ∧ buffer = s.fresh ∧ fresh = s.fresh + 1)
      (gameFrames : ℕ) :
      FrameEnd s stopNs { s with
        gameFrames := gameFrames, lastSlot := slot, fresh := fresh, pool := pool
        inFlight := s.inFlight ++ [(slot.toNat, buffer)] }

theorem onFrameEnd_cases (s : Session α) (now stopNs : ℤ) (target : Option (ℕ × ℕ)) (thrown : Option String) :
    FrameEnd s stopNs (onFrameEnd s now stopNs target thrown) := by
  unfold onFrameEnd
  by_cases hstopped : s.stopped ≠ none
  · rw [if_pos hstopped]
    exact .skip s.gameFrames s.encoderBusy
  rw [if_neg hstopped]
  by_cases hlimit : s.maxSeconds * 1000000000 < now - s.startNs
  · rw [if_pos hlimit]
    exact .limit (not_not.1 hstopped)
  rw [if_neg hlimit]
  by_cases hfailed : s.failed ≠ none
  · rw [if_pos hfailed]
    exact .skip s.gameFrames s.encoderBusy
  rw [if_neg hfailed]
  dsimp only
  by_cases hslot : slotOf { s with gameFrames := s.gameFrames + 1 } now ≤ s.lastSlot
  · rw [if_pos hslot]
    exact .skip (s.gameFrames + 1) s.encoderBusy
  rw [if_neg hslot]
  have hlater := not_le.1 hslot
  rcases target with _ | ⟨width, height⟩
  · exact .skip (s.gameFrames + 1) s.encoderBusy
  dsimp only
  by_cases hsmall : width < s.width ∨ height < s.height
  · rw [if_pos hsmall]
    exact .skip (s.gameFrames + 1) s.encoderBusy
  rw [if_neg hsmall]
  by_cases hpending : maxPending ≤ s.inFlight.length
  · rw [if_pos hpending]
    exact .skip (s.gameFrames + 1) (s.encoderBusy + 1)
  rw [if_neg hpending]
  cases hpool : s.pool with
  | nil =>
    cases thrown with
    | none => exact .taken (not_not.1 hstopped) hlater (.inr ⟨hpool, rfl, rfl, rfl⟩) (s.gameFrames + 1)
    | some why => exact .thrown hlater (.inr ⟨hpool, rfl, rfl, rfl⟩) (s.gameFrames + 1)
  | cons buffer pool =>
    cases thrown with
    | none => exact .taken (not_not.1 hstopped) hlater (.inl ⟨hpool, rfl⟩) (s.gameFrames + 1)
    | some why => exact .thrown hlater (.inl ⟨hpool, rfl⟩) (s.gameFrames + 1)

/-! ## Buffers -/

/-- the places a buffer is in -/
def uses (s : Session α) (b : ℕ) : ℕ :=
  (s.inFlight.map Prod.snd).count b + (s.queue.map Prod.snd).count b + (s.polled.toList.map Prod.snd).count b +
    s.previous.toList.count b + s.pool.count b

/-- no buffer is in two places, and one that was never taken is in none -/
structure Buffers (s : Session α) : Prop where
  once : ∀ b, uses s b ≤ 1
  old : ∀ b, s.fresh ≤ b → uses s b = 0

theorem count_offer (pool : List ℕ) (buffer b : ℕ) : (offer pool buffer).count b ≤ pool.count b + [buffer].count b := by
  unfold offer
  split_ifs
  · rw [List.count_append]
  · omega

/-- a step that puts no buffer in more places keeps them apart -/
theorem Buffers.of_le {s t : Session α} (h : Buffers s) (hfresh : s.fresh ≤ t.fresh) (hle : ∀ b, uses t b ≤ uses s b) :
    Buffers t where
  once b := (hle b).trans (h.once b)
  old b hb := Nat.le_zero.1 ((hle b).trans (h.old b (hfresh.trans hb)).le)

/-- a buffer for the next readback: one of the pool, or a new one -/
theorem Buffers.taken {s t : Session α} {buffer : ℕ} {pool : List ℕ} (h : Buffers s)
    (htaken : s.pool = buffer :: pool ∧ t.fresh = s.fresh ∨
      s.pool = [] ∧ pool = [] ∧ buffer = s.fresh ∧ t.fresh = s.fresh + 1)
    (hle : ∀ b, uses t b ≤ uses { s with pool := pool } b + [buffer].count b) : Buffers t := by
  rcases htaken with ⟨hpool, hfresh⟩ | ⟨hpool, rfl, rfl, hfresh⟩
  · refine h.of_le hfresh.ge fun b => (hle b).trans (le_of_eq ?_)
    simp only [uses, hpool, List.count_cons, List.count_nil]
    omega
  · have hsame : ∀ b, uses { s with pool := [] } b = uses s b := fun b => by simp only [uses, hpool]
    constructor
    · intro b
      have hb := hle b
      rw [hsame, List.count_singleton] at hb
      by_cases heq : s.fresh = b
      · have hzero := h.old b heq.le
        simp only [heq, beq_self_eq_true, if_true] at hb
        omega
      · have hone := h.once b
        simp only [beq_iff_eq, heq, if_false] at hb
        omega
    · intro b hb
      rw [hfresh] at hb
      have hzero := h.old b (by omega)
      have hlt := hle b
      have hne : s.fresh ≠ b := by omega
      rw [hsame, List.count_singleton] at hlt
      simp only [beq_iff_eq, hne, if_false] at hlt
      omega

/-- repeating a frame changes nothing but what was sent -/
theorem repeatTo_frame (s : Session α) (limit : ℕ) : ∃ sent repeats nextSlot,
    repeatTo s limit = { s with stdin := sent, repeats := repeats, nextSlot := nextSlot } := by
  unfold repeatTo
  split
  · exact ⟨s.stdin, s.repeats, s.nextSlot, rfl⟩
  · exact ⟨_, _, _, rfl⟩

theorem buffers_step {s : Session α} (e : Event α) (h : Buffers s) : Buffers (step s e) := by
  cases e with
  | frameEnd now stopNs target thrown =>
    have hcases := onFrameEnd_cases s now stopNs target thrown
    rw [step]
    generalize onFrameEnd s now stopNs target thrown = t at hcases ⊢
    cases hcases with
    | skip => exact h.of_le le_rfl fun b => le_rfl
    | limit => exact h.of_le le_rfl fun b => le_rfl
    | @thrown slot buffer fresh pool failed later taken =>
      refine h.taken taken fun b => ?_
      have hoffer := count_offer pool buffer b
      simp only [uses]
      omega
    | @taken slot buffer fresh pool running later taken =>
      refine h.taken taken fun b => ?_
      simp only [uses, List.map_append, List.count_append, List.map_cons, List.map_nil]
      omega
  | accept pixels =>
    rw [step, accept]
    cases hflight : s.inFlight with
    | nil => exact h
    | cons item rest =>
      obtain ⟨slot, buffer⟩ := item
      dsimp only
      split_ifs with hroom
      · refine h.of_le le_rfl fun b => ?_
        simp only [uses, hflight, List.map_append, List.count_append, List.map_cons, List.map_nil, List.count_cons,
          List.count_nil]
        omega
      · refine h.of_le le_rfl fun b => ?_
        have hoffer := count_offer s.pool buffer b
        rw [List.count_singleton] at hoffer
        simp only [uses, hflight, List.map_cons, List.count_cons]
        omega
  | reject pixels why =>
    rw [step, readbackFails]
    cases hflight : s.inFlight with
    | nil => exact h
    | cons item rest =>
      obtain ⟨slot, buffer⟩ := item
      refine h.of_le le_rfl fun b => ?_
      have hoffer := count_offer s.pool buffer b
      rw [List.count_singleton] at hoffer
      simp only [uses, reject, hflight, List.map_cons, List.count_cons]
      omega
  | stop stopNs =>
    rw [step, stop]
    split_ifs
    · exact h.of_le le_rfl fun b => le_rfl
    · exact h
  | publish =>
    rw [step, publish]
    split
    · exact h.of_le le_rfl fun b => le_rfl
    · exact h
  | take =>
    rw [step, take]
    split
    next item rest _ hpolled hqueue =>
      refine h.of_le le_rfl fun b => ?_
      simp only [uses, hpolled, hqueue, List.map_cons, List.count_cons, Option.toList, List.map_nil, List.count_nil]
      omega
    next => exact h
  | write =>
    rw [step, write]
    cases hpolled : s.polled with
    | none => exact h
    | some item =>
      obtain ⟨slot, buffer⟩ := item
      dsimp only
      split_ifs with hlate
      · refine h.of_le le_rfl fun b => ?_
        have hoffer := count_offer s.pool buffer b
        simp only [uses, hpolled, Option.toList, List.map_cons, List.map_nil, List.count_nil]
        omega
      · obtain ⟨sent, repeats, nextSlot, heq⟩ := repeatTo_frame { s with polled := none } slot
        rw [heq]
        refine h.of_le le_rfl fun b => ?_
        cases hprev : s.previous with
        | none =>
          simp only [uses, hpolled, hprev, Option.toList, List.map_cons, List.map_nil, List.count_nil, List.count_cons]
          omega
        | some previous =>
          have hoffer := count_offer s.pool previous b
          simp only [uses, hpolled, hprev, Option.toList, List.map_cons, List.map_nil, List.count_nil, List.count_cons]
            at hoffer ⊢
          omega
  | finishWriting =>
    rw [step, finishWriting]
    split
    · split_ifs
      · obtain ⟨sent, repeats, nextSlot, heq⟩ := repeatTo_frame s (_ + 1)
        rw [heq]
        exact h.of_le le_rfl fun b => le_rfl
      · exact h
    · exact h

/-! ## The order of the frames -/

def slots (s : Session α) : List ℕ := s.accepted.map Prod.fst ++ s.inFlight.map Prod.fst

/-- frames are queued, and read back, in the order of their slots -/
structure Ordered (s : Session α) : Prop where
  increasing : (slots s).Pairwise (· < ·)
  taken : ∀ slot ∈ slots s, (slot : ℤ) ≤ s.lastSlot
  first : -1 ≤ s.lastSlot

theorem Ordered.of_sublist {s t : Session α} (h : Ordered s) (hslots : (slots t).Sublist (slots s))
    (hlast : s.lastSlot ≤ t.lastSlot) : Ordered t where
  increasing := h.increasing.sublist hslots
  taken slot hslot := (h.taken slot (hslots.subset hslot)).trans hlast
  first := h.first.trans hlast

theorem ordered_step {s : Session α} (e : Event α) (h : Ordered s) : Ordered (step s e) := by
  cases e with
  | frameEnd now stopNs target thrown =>
    have hcases := onFrameEnd_cases s now stopNs target thrown
    rw [step]
    generalize onFrameEnd s now stopNs target thrown = t at hcases ⊢
    cases hcases with
    | skip => exact h.of_sublist (List.Sublist.refl _) le_rfl
    | limit => exact h.of_sublist (List.Sublist.refl _) le_rfl
    | thrown later => exact h.of_sublist (List.Sublist.refl _) later.le
    | @taken slot buffer fresh pool running later taken gameFrames =>
      have hfirst := h.first
      have hslot : ((slot.toNat : ℕ) : ℤ) = slot := Int.toNat_of_nonneg (by omega)
      have hslots : ∀ x : Session α, x = { s with
          gameFrames := gameFrames, lastSlot := slot, fresh := fresh, pool := pool
          inFlight := s.inFlight ++ [(slot.toNat, buffer)] } → slots x = slots s ++ [slot.toNat] := by
        rintro x rfl
        simp only [slots, List.map_append, List.map_cons, List.map_nil, List.append_assoc]
      refine ⟨?_, ?_, hfirst.trans later.le⟩
      · rw [hslots _ rfl, List.pairwise_append]
        refine ⟨h.increasing, List.pairwise_singleton _ _, fun a ha b hb => ?_⟩
        rw [List.mem_singleton.1 hb]
        have hle := h.taken a ha
        omega
      · intro a ha
        rw [hslots _ rfl, List.mem_append, List.mem_singleton] at ha
        rcases ha with ha | rfl
        · exact (h.taken a ha).trans later.le
        · exact hslot.le
  | accept pixels =>
    rw [step, accept]
    cases hflight : s.inFlight with
    | nil => exact h
    | cons item rest =>
      obtain ⟨slot, buffer⟩ := item
      dsimp only
      split_ifs with hroom
      · refine h.of_sublist ?_ le_rfl
        simp only [slots, hflight, List.map_append, List.map_cons, List.map_nil, List.append_assoc, List.cons_append,
          List.nil_append, List.Sublist.refl]
      · refine h.of_sublist ?_ le_rfl
        simp only [slots, hflight, List.map_cons]
        exact (List.sublist_cons_self _ _).append_left _
  | reject pixels why =>
    rw [step, readbackFails]
    cases hflight : s.inFlight with
    | nil => exact h
    | cons item rest =>
      obtain ⟨slot, buffer⟩ := item
      refine h.of_sublist ?_ le_rfl
      simp only [slots, reject, hflight, List.map_cons]
      exact (List.sublist_cons_self _ _).append_left _
  | stop stopNs =>
    rw [step, stop]
    split_ifs
    · exact h.of_sublist (List.Sublist.refl _) le_rfl
    · exact h
  | publish =>
    rw [step, publish]
    split
    · exact h.of_sublist (List.Sublist.refl _) le_rfl
    · exact h
  | take =>
    rw [step, take]
    split
    · exact h.of_sublist (List.Sublist.refl _) le_rfl
    · exact h
  | write =>
    rw [step, write]
    split
    · exact h
    · dsimp only
      split_ifs
      · exact h.of_sublist (List.Sublist.refl _) le_rfl
      · obtain ⟨sent, repeats, nextSlot, heq⟩ := repeatTo_frame { s with polled := none } _
        rw [heq]
        exact h.of_sublist (List.Sublist.refl _) le_rfl
  | finishWriting =>
    rw [step, finishWriting]
    split
    · split_ifs
      · obtain ⟨sent, repeats, nextSlot, heq⟩ := repeatTo_frame s (_ + 1)
        rw [heq]
        exact h.of_sublist (List.Sublist.refl _) le_rfl
      · exact h
    · exact h

/-! ## What was sent -/

/-- the slot of the first frame -/
def firstSlot (frames : List (ℕ × α)) : ℕ := (frames.head?.map Prod.fst).getD 0

/-- frames polled or queued, with the pixels of their buffers -/
def waiting (s : Session α) : List (ℕ × α) := (s.polled.toList ++ s.queue).map fun e => (e.1, s.mem e.2)

/-- the frames accepted so far are those written, then those behind the end slot, then those that wait; what was sent is
the written frames, each held until the next one -/
structure Written (s : Session α) (written late : List (ℕ × α)) : Prop where
  split : s.accepted = written ++ late ++ waiting s
  late : ∀ e ∈ late, isLate s e.1 = true
  empty : written = [] → s.previous = none ∧ s.stdin = [] ∧ s.nextSlot = 0
  sent : ∀ init slot x, written = init ++ [(slot, x)] → (∃ b, s.previous = some b ∧ s.mem b = x) ∧
    slot + 1 ≤ s.nextSlot ∧ (s.closed = false → s.nextSlot = slot + 1) ∧
    s.stdin.map some = span written (firstSlot written) s.nextSlot
  unique : s.unique = written.length
  counts : s.unique + s.repeats = s.stdin.length
  ended : ∀ limit, s.endSlot = some limit → ∃ stopNs, s.stopped = some stopNs ∧ limit = endOf s stopNs
  drained : s.closed = true → s.polled = none ∧ s.queue = [] ∧ s.inFlight = [] ∧
    ∃ limit, s.endSlot = some limit ∧ (written ≠ [] → limit + 1 ≤ s.nextSlot)

theorem repeatTo_none {s : Session α} (h : s.previous = none) (limit : ℕ) : repeatTo s limit = s := by
  rw [repeatTo, h]

theorem repeatTo_some {s : Session α} {previous : ℕ} (h : s.previous = some previous) (limit : ℕ) :
    repeatTo s limit = { s with
      stdin := s.stdin ++ List.replicate (limit - s.nextSlot) (s.mem previous)
      repeats := s.repeats + (limit - s.nextSlot)
      nextSlot := max s.nextSlot limit } := by
  rw [repeatTo, h]

/-- the buffer of a readback is nowhere else -/
theorem Buffers.apart {s : Session α} (h : Buffers s) {slot buffer : ℕ} {rest : List (ℕ × ℕ)}
    (hflight : s.inFlight = (slot, buffer) :: rest) :
    (∀ e ∈ s.polled.toList ++ s.queue, e.2 ≠ buffer) ∧ s.previous ≠ some buffer := by
  have hone := h.once buffer
  simp only [uses, hflight, List.map_cons, List.count_cons_self] at hone
  constructor
  · rintro e he rfl
    rcases List.mem_append.1 he with he | he
    · have hpos : 0 < (s.polled.toList.map Prod.snd).count e.2 :=
        List.count_pos_iff.2 (List.mem_map_of_mem he)
      omega
    · have hpos : 0 < (s.queue.map Prod.snd).count e.2 := List.count_pos_iff.2 (List.mem_map_of_mem he)
      omega
  · intro hprev
    rw [hprev, Option.toList, List.count_singleton_self] at hone
    omega

/-- filling the buffer of a readback changes no frame -/
theorem Written.fill {s : Session α} {written late : List (ℕ × α)} (h : Written s written late) {buffer : ℕ}
    (hwaiting : ∀ e ∈ s.polled.toList ++ s.queue, e.2 ≠ buffer) (hprevious : s.previous ≠ some buffer) (pixels : α) :
    Written { s with mem := Function.update s.mem buffer pixels } written late where
  split := by
    rw [h.split]
    congr 1
    exact List.map_congr_left fun e he => Prod.ext rfl (Function.update_of_ne (hwaiting e he) _ _).symm
  late := h.late
  empty := h.empty
  sent init slot x hw := by
    obtain ⟨⟨b, hb, hmem⟩, hrest⟩ := h.sent init slot x hw
    have hne : b ≠ buffer := fun heq => hprevious (heq ▸ hb)
    exact ⟨⟨b, hb, (Function.update_of_ne hne _ _).trans hmem⟩, hrest⟩
  unique := h.unique
  counts := h.counts
  ended := h.ended
  drained := h.drained

theorem isLate_mono {s : Session α} {a b : ℕ} (h : isLate s a = true) (hab : a < b) : isLate s b = true := by
  obtain ⟨limit, hlimit, hlt⟩ := (Option.any_eq_true _ _).1 h
  exact (Option.any_eq_true _ _).2 ⟨limit, hlimit, by simpa using (of_decide_eq_true hlt).trans hab⟩

/-- frames are accepted at increasing slots -/
theorem Ordered.accepted {s : Session α} (h : Ordered s) : Increasing s.accepted :=
  List.pairwise_map.1 (List.pairwise_append.1 h.increasing).1

theorem firstSlot_le {init : List (ℕ × α)} {slot : ℕ} {x : α} (h : Increasing (init ++ [(slot, x)])) :
    firstSlot (init ++ [(slot, x)]) ≤ slot := by
  cases init with
  | nil => exact le_rfl
  | cons e init => exact ((List.pairwise_append.1 h).2.2 e List.mem_cons_self (slot, x) (List.mem_singleton.2 rfl)).le

/-- the writer handles a frame: dropped behind the end slot, else sent behind the frames that fill its gap -/
theorem written_write {s : Session α} {written late : List (ℕ × α)} (h : Written s written late) (hord : Ordered s) :
    ∃ written' late', Written (write s) written' late' := by
  unfold write
  cases hpolled : s.polled with
  | none => exact ⟨written, late, h⟩
  | some item =>
    obtain ⟨slot, buffer⟩ := item
    have hsplit : s.accepted = written ++ late ++ (slot, s.mem buffer) :: s.queue.map fun e => (e.1, s.mem e.2) := by
      rw [h.split, waiting, hpolled]
      rfl
    have hopen : s.closed = false := by
      cases hclosed : s.closed with
      | false => rfl
      | true =>
        rw [(h.drained hclosed).1] at hpolled
        cases hpolled
    have hinc := hord.accepted
    rw [hsplit] at hinc
    dsimp only
    split_ifs with hlate
    · refine ⟨written, late ++ [(slot, s.mem buffer)], ?_, ?_, h.empty, h.sent, h.unique, h.counts, h.ended, ?_⟩
      · rw [hsplit, ← List.append_assoc, List.append_assoc (written ++ late)]
        rfl
      · intro e he
        rcases List.mem_append.1 he with he | he
        · exact h.late e he
        · rw [List.mem_singleton.1 he]
          exact hlate
      · intro hclosed
        rw [hopen] at hclosed
        cases hclosed
    · -- nothing was late before a frame that is not
      obtain rfl : late = [] := by
        cases hl : late with
        | nil => rfl
        | cons e rest =>
          have hmem : e ∈ written ++ late := by simp [hl]
          have hlt := (List.pairwise_append.1 hinc).2.2 e hmem (slot, s.mem buffer) List.mem_cons_self
          exact absurd (isLate_mono (h.late e (by simp [hl])) hlt) hlate
      rw [List.append_nil] at hsplit hinc
      have hfrom : Increasing (written ++ [(slot, s.mem buffer)]) := hinc.sublist (by simp)
      rcases List.eq_nil_or_concat written with rfl | ⟨init, ⟨prevSlot, x⟩, rfl⟩
      · obtain ⟨hprev, hstdin, -⟩ := h.empty rfl
        have hcounts := h.counts
        have hunique := h.unique
        rw [repeatTo_none (s := { s with polled := none }) hprev]
        refine ⟨[] ++ [(slot, s.mem buffer)], [], ?_, by simp, by simp, ?_, ?_, ?_, h.ended, ?_⟩
        · rw [hsplit]
          rfl
        · intro init' slot' x' hw
          obtain ⟨-, heq⟩ := List.append_inj' hw rfl
          cases heq
          refine ⟨⟨buffer, rfl, rfl⟩, le_rfl, fun _ => rfl, ?_⟩
          change (s.stdin ++ [s.mem buffer]).map some = span ([] ++ [(slot, s.mem buffer)]) slot (slot + 1)
          rw [hstdin, span, Nat.add_sub_cancel_left, List.range'_one, List.map_singleton, held_last (le_refl slot)]
          rfl
        · simp [hunique]
        · simp only [List.length_append, List.length_singleton]
          omega
        · intro hclosed
          exact absurd (hopen.symm.trans hclosed) Bool.false_ne_true
      · rw [List.concat_eq_append] at h hsplit hfrom
        obtain ⟨⟨b, hb, rfl⟩, -, hnext, hstdin⟩ := h.sent init prevSlot x rfl
        have hnext := hnext hopen
        have hcounts := h.counts
        have hunique := h.unique
        have hlt : prevSlot < slot :=
          (List.pairwise_append.1 hfrom).2.2 (prevSlot, s.mem b) (by simp) (slot, s.mem buffer) (List.mem_singleton.2 rfl)
        have hfirst := firstSlot_le (hfrom.sublist (List.sublist_append_left _ _))
        rw [repeatTo_some (s := { s with polled := none }) hb]
        refine ⟨init ++ [(prevSlot, s.mem b)] ++ [(slot, s.mem buffer)], [], ?_, by simp, by simp, ?_, ?_, ?_, h.ended, ?_⟩
        · rw [hsplit]
          simp [waiting]
        · intro init' slot' x' hw
          obtain ⟨-, heq⟩ := List.append_inj' hw rfl
          cases heq
          refine ⟨⟨buffer, rfl, rfl⟩, le_rfl, fun _ => rfl, ?_⟩
          have hsame : firstSlot (init ++ [(prevSlot, s.mem b)] ++ [(slot, s.mem buffer)]) =
              firstSlot (init ++ [(prevSlot, s.mem b)]) := by
            rw [firstSlot, List.head?_append_of_ne_nil _ (by simp), firstSlot]
          rw [hsame, span_snoc (by simp) (hfirst.trans hlt.le), span_extend (by omega) hlt, ← hnext, ← hstdin]
          simp
        · simp [hunique]
        · simp only [List.length_append, List.length_singleton, List.length_replicate]
          omega
        · intro hclosed
          exact absurd (hopen.symm.trans hclosed) Bool.false_ne_true

theorem Written.running {s : Session α} {written late : List (ℕ × α)} (h : Written s written late)
    (hrunning : s.stopped = none) : s.endSlot = none ∧ s.closed = false := by
  have hend : s.endSlot = none := by
    cases hend : s.endSlot with
    | none => rfl
    | some limit =>
      obtain ⟨stopNs, hstopped, -⟩ := h.ended limit hend
      rw [hrunning] at hstopped
      cases hstopped
  refine ⟨hend, ?_⟩
  cases hclosed : s.closed with
  | false => rfl
  | true =>
    obtain ⟨-, -, -, limit, hlimit, -⟩ := h.drained hclosed
    rw [hend] at hlimit
    cases hlimit

theorem written_stopNow {s : Session α} {written late : List (ℕ × α)} (h : Written s written late)
    (hrunning : s.stopped = none) (stopNs : ℤ) : Written (stopNow s stopNs) written late where
  split := h.split
  late := h.late
  empty := h.empty
  sent := h.sent
  unique := h.unique
  counts := h.counts
  ended limit hlimit := absurd ((h.running hrunning).1.symm.trans hlimit) (by simp)
  drained hclosed := absurd ((h.running hrunning).2.symm.trans hclosed) Bool.false_ne_true

/-- the writer pads to the end slot -/
theorem written_finish {s : Session α} {written late : List (ℕ × α)} (h : Written s written late) (hord : Ordered s) :
    Written (finishWriting s) written late := by
  unfold finishWriting
  split
  next limit hopen hlimit =>
    split_ifs with hempty
    · have hcounts := h.counts
      rcases List.eq_nil_or_concat written with rfl | ⟨init, ⟨slot, x⟩, rfl⟩
      · obtain ⟨hprev, hstdin, hnext⟩ := h.empty rfl
        rw [repeatTo_none hprev]
        exact ⟨h.split, h.late, h.empty, fun init slot x hw => by simp at hw, h.unique, h.counts, h.ended,
          fun _ => ⟨hempty.1, hempty.2.1, hempty.2.2, limit, hlimit, fun hne => absurd rfl hne⟩⟩
      · rw [List.concat_eq_append] at h ⊢
        obtain ⟨⟨b, hb, rfl⟩, -, hnext, hstdin⟩ := h.sent init slot x rfl
        have hnext := hnext hopen
        have hinc := hord.accepted
        rw [h.split, List.append_assoc] at hinc
        have hfirst := firstSlot_le (hinc.sublist (List.sublist_append_left _ _))
        rw [repeatTo_some hb]
        refine ⟨h.split, h.late, by simp, ?_, h.unique, ?_, h.ended,
          fun _ => ⟨hempty.1, hempty.2.1, hempty.2.2, limit, hlimit, fun _ => le_max_right _ _⟩⟩
        · intro init' slot' x' hw
          obtain ⟨-, heq⟩ := List.append_inj' hw rfl
          cases heq
          refine ⟨⟨b, hb, rfl⟩, hnext.symm.le.trans (le_max_left _ _), fun hfalse => absurd hfalse (by simp), ?_⟩
          dsimp only
          rw [List.map_append, List.map_replicate, hstdin, hnext]
          have hpad : limit + 1 - (slot + 1) = max (slot + 1) (limit + 1) - (slot + 1) := by omega
          rw [hpad, ← span_extend (by omega) (le_max_left _ _)]
        · simp only [List.length_append, List.length_replicate]
          omega
    · exact h
  next => exact h

theorem written_step {s : Session α} {written late : List (ℕ × α)} (e : Event α) (hbuf : Buffers s) (hord : Ordered s)
    (h : Written s written late) : ∃ written' late', Written (step s e) written' late' := by
  cases e with
  | frameEnd now stopNs target thrown =>
    have hcases := onFrameEnd_cases s now stopNs target thrown
    rw [step]
    generalize onFrameEnd s now stopNs target thrown = t at hcases ⊢
    refine ⟨written, late, ?_⟩
    cases hcases with
    | skip => exact ⟨h.split, h.late, h.empty, h.sent, h.unique, h.counts, h.ended, h.drained⟩
    | limit running => exact written_stopNow h running stopNs
    | thrown => exact ⟨h.split, h.late, h.empty, h.sent, h.unique, h.counts, h.ended, h.drained⟩
    | taken running =>
      exact ⟨h.split, h.late, h.empty, h.sent, h.unique, h.counts, h.ended,
        fun hclosed => absurd ((h.running running).2.symm.trans hclosed) Bool.false_ne_true⟩
  | accept pixels =>
    rw [step, accept]
    cases hflight : s.inFlight with
    | nil => exact ⟨written, late, h⟩
    | cons item rest =>
      obtain ⟨slot, buffer⟩ := item
      obtain ⟨hwaiting, hprevious⟩ := hbuf.apart hflight
      have hfill := h.fill hwaiting hprevious pixels
      have hopen : s.closed = true → False := fun hclosed => by
        rw [(h.drained hclosed).2.2.1] at hflight
        cases hflight
      dsimp only
      refine ⟨written, late, ?_⟩
      split_ifs with hroom
      · refine ⟨?_, h.late, h.empty, hfill.sent, h.unique, h.counts, h.ended, fun hclosed => (hopen hclosed).elim⟩
        change s.accepted ++ [(slot, pixels)] = _
        rw [hfill.split]
        simp [waiting]
      · exact ⟨hfill.split, h.late, h.empty, hfill.sent, h.unique, h.counts, h.ended, fun hclosed => (hopen hclosed).elim⟩
  | reject pixels why =>
    rw [step, readbackFails]
    cases hflight : s.inFlight with
    | nil => exact ⟨written, late, h⟩
    | cons item rest =>
      obtain ⟨slot, buffer⟩ := item
      obtain ⟨hwaiting, hprevious⟩ := hbuf.apart hflight
      have hfill := h.fill hwaiting hprevious pixels
      refine ⟨written, late, hfill.split, h.late, h.empty, hfill.sent, h.unique, h.counts, h.ended, fun hclosed => ?_⟩
      rw [(h.drained hclosed).2.2.1] at hflight
      cases hflight
  | stop stopNs =>
    rw [step, stop]
    split_ifs with hrunning
    · exact ⟨written, late, written_stopNow h hrunning stopNs⟩
    · exact ⟨written, late, h⟩
  | publish =>
    rw [step, publish]
    split
    next stopNs hstopped hend =>
      have hlate : late = [] := by
        cases hl : late with
        | nil => rfl
        | cons e rest =>
          have hnot := h.late e (by simp [hl])
          rw [isLate, hend] at hnot
          cases hnot
      refine ⟨written, late, h.split, by simp [hlate], h.empty, h.sent, h.unique, h.counts, ?_, ?_⟩
      · intro limit hlimit
        cases hlimit
        exact ⟨stopNs, hstopped, rfl⟩
      · intro hclosed
        obtain ⟨-, -, -, limit, hlimit, -⟩ := h.drained hclosed
        rw [hend] at hlimit
        cases hlimit
    next => exact ⟨written, late, h⟩
  | take =>
    rw [step, take]
    split
    next item rest hopen hpolled hqueue =>
      refine ⟨written, late, ?_, h.late, h.empty, h.sent, h.unique, h.counts, h.ended, ?_⟩
      · rw [h.split, waiting, waiting, hpolled, hqueue]
        rfl
      · intro hclosed
        exact absurd (hopen.symm.trans hclosed) Bool.false_ne_true
    next => exact ⟨written, late, h⟩
  | write => exact written_write h hord
  | finishWriting => exact ⟨written, late, written_finish h hord⟩

/-! ## The writer ends -/

/-! ## The constant rate -/

/-- the first frame that is queued fell into the first slot, and when the writer gets to see the end slot it has written
none behind it -/
def Aligned (s : Session α) : Event α → Prop
  | .accept _ => s.accepted = [] → ∀ e ∈ s.inFlight.head?, e.1 = 0
  | .publish => ∀ stopNs ∈ s.stopped, s.endSlot = none → s.nextSlot ≤ endOf s stopNs + 1
  | _ => True

instance Aligned.decidable : ∀ (s : Session α) (e : Event α), Decidable (Aligned s e)
  | s, .accept _ =>
    match h : s.accepted with
    | [] => decidable_of_iff (∀ e ∈ s.inFlight.head?, e.1 = 0) ⟨fun h _ => h, fun hall => hall h⟩
    | _ :: _ => isTrue fun hnil => nomatch h.symm.trans hnil
  | s, .publish => inferInstanceAs (Decidable (∀ stopNs ∈ s.stopped, s.endSlot = none → s.nextSlot ≤ endOf s stopNs + 1))
  | _, .frameEnd .. => isTrue trivial
  | _, .reject .. => isTrue trivial
  | _, .stop _ => isTrue trivial
  | _, .take => isTrue trivial
  | _, .write => isTrue trivial
  | _, .finishWriting => isTrue trivial

/-- what aligned steps keep -/
structure InPlace (s : Session α) : Prop where
  first : ∀ e ∈ s.accepted.head?, e.1 = 0
  next : ∀ limit, s.endSlot = some limit → s.nextSlot ≤ limit + 1

theorem inPlace_step {s : Session α} (e : Event α) (halign : Aligned s e) (h : InPlace s) : InPlace (step s e) := by
  cases e with
  | frameEnd now stopNs target thrown =>
    have hcases := onFrameEnd_cases s now stopNs target thrown
    rw [step]
    generalize onFrameEnd s now stopNs target thrown = t at hcases ⊢
    cases hcases <;> exact ⟨h.first, h.next⟩
  | accept pixels =>
    rw [step, accept]
    cases hflight : s.inFlight with
    | nil => exact h
    | cons item rest =>
      obtain ⟨slot, buffer⟩ := item
      dsimp only
      split_ifs with hroom
      · refine ⟨?_, h.next⟩
        intro e he
        cases hacc : s.accepted with
        | nil =>
          have hzero := halign hacc (slot, buffer) (by rw [hflight]; rfl)
          rw [hacc] at he
          cases he
          exact hzero
        | cons e' l =>
          rw [hacc] at he
          cases he
          exact h.first _ (by rw [hacc]; rfl)
      · exact ⟨h.first, h.next⟩
  | reject pixels why =>
    rw [step, readbackFails]
    split <;> exact ⟨h.first, h.next⟩
  | stop stopNs =>
    rw [step, stop]
    split_ifs <;> exact ⟨h.first, h.next⟩
  | publish =>
    rw [step, publish]
    split
    next stopNs hstopped hend =>
      refine ⟨h.first, fun limit hlimit => ?_⟩
      cases hlimit
      exact halign stopNs hstopped hend
    next => exact h
  | take =>
    rw [step, take]
    split <;> exact ⟨h.first, h.next⟩
  | write =>
    rw [step, write]
    cases hpolled : s.polled with
    | none => exact h
    | some item =>
      obtain ⟨slot, buffer⟩ := item
      dsimp only
      split_ifs with hlate
      · exact ⟨h.first, h.next⟩
      · obtain ⟨sent, repeats, nextSlot, heq⟩ := repeatTo_frame { s with polled := none } slot
        rw [heq]
        refine ⟨h.first, fun limit hlimit => Nat.succ_le_succ (not_lt.1 fun hlt => hlate ?_)⟩
        exact (Option.any_eq_true _ _).2 ⟨limit, hlimit, by simpa using hlt⟩
  | finishWriting =>
    rw [step, finishWriting]
    split
    next limit hopen hlimit =>
      split_ifs with hempty
      · refine ⟨?_, ?_⟩
        · obtain ⟨sent, repeats, nextSlot, heq⟩ := repeatTo_frame s (limit + 1)
          rw [heq]
          exact h.first
        · intro limit' hlimit'
          cases hprev : s.previous with
          | none =>
            rw [repeatTo_none hprev] at hlimit' ⊢
            exact h.next limit' hlimit'
          | some previous =>
            rw [repeatTo_some hprev] at hlimit' ⊢
            obtain rfl : limit = limit' := Option.some.inj (hlimit.symm.trans hlimit')
            exact max_le (h.next limit hlimit) le_rfl
      · exact h
    next => exact h

/-- the encoder was sent one frame for each slot from the start to the stop, each slot the frame accepted last by then,
and the counters say so -/
def InStep (s : Session α) : Prop :=
  ∃ stopNs, s.stopped = some stopNs ∧ s.stdin.length = endOf s stopNs + 1 ∧
    (∀ k ≤ endOf s stopNs, s.stdin[k]? = held s.accepted k) ∧ s.unique + s.repeats = endOf s stopNs + 1

/-- what a run keeps without a condition -/
def Sound (s : Session α) : Prop := Buffers s ∧ Ordered s ∧ ∃ written late, Written s written late

theorem sound_newSession (width height fps maxSeconds : ℕ) (startNs : ℤ) (mem : ℕ → α) :
    Sound (newSession width height fps maxSeconds startNs mem) := by
  refine ⟨⟨fun b => by simp [uses, newSession], fun b _ => by simp [uses, newSession]⟩,
    ⟨List.Pairwise.nil, by simp [slots, newSession], le_rfl⟩, [], [], ?_⟩
  exact ⟨rfl, by simp, fun _ => ⟨rfl, rfl, rfl⟩, by simp, rfl, rfl, fun limit h => (nomatch h), fun h => (nomatch h)⟩

theorem sound_step {s : Session α} (e : Event α) (h : Sound s) : Sound (step s e) := by
  obtain ⟨hbuf, hord, written, late, hw⟩ := h
  exact ⟨buffers_step e hbuf, ordered_step e hord, written_step e hbuf hord hw⟩

theorem inStep_of_closed {s : Session α} (hs : Sound s) (hp : InPlace s) (hclosed : s.closed = true)
    (hacc : s.accepted ≠ []) : InStep s := by
  obtain ⟨-, hord, written, late, h⟩ := hs
  obtain ⟨hpolled, hqueue, -, limit, hlimit, hpadded⟩ := h.drained hclosed
  obtain ⟨stopNs, hstopped, rfl⟩ := h.ended limit hlimit
  have hsplit : s.accepted = written ++ late := by
    rw [h.split, waiting, hpolled, hqueue]
    simp
  have hbehind : ∀ e ∈ late, endOf s stopNs < e.1 := by
    intro e he
    obtain ⟨l, hl, hlt⟩ := (Option.any_eq_true _ _).1 (h.late e he)
    rw [hlimit] at hl
    cases hl
    exact of_decide_eq_true hlt
  -- the first frame is not behind the end, so it was written
  have hne : written ≠ [] := by
    rintro rfl
    rw [List.nil_append] at hsplit
    cases hl : late with
    | nil => exact hacc (hsplit.trans hl)
    | cons e rest =>
      have hzero := hp.first e (by rw [hsplit, hl]; rfl)
      have hlt := hbehind e (by simp [hl])
      omega
  have hnext : s.nextSlot = endOf s stopNs + 1 := le_antisymm (hp.next _ hlimit) (hpadded hne)
  have hzero : firstSlot written = 0 := by
    cases hw : written with
    | nil => exact absurd hw hne
    | cons e rest => exact hp.first e (by rw [hsplit, hw]; rfl)
  obtain ⟨init, ⟨slot, x⟩, hw⟩ := (List.eq_nil_or_concat written).resolve_left hne
  rw [List.concat_eq_append] at hw
  have hstdin := (h.sent init slot x hw).2.2.2
  rw [hzero, hnext] at hstdin
  have hlen : s.stdin.length = endOf s stopNs + 1 := by
    rw [← List.length_map (f := some), hstdin, length_span, Nat.sub_zero]
  refine ⟨stopNs, hstopped, hlen, fun k hk => ?_, h.counts.trans hlen⟩
  have hget : (s.stdin.map some)[k]? = some (held written k) := by
    rw [hstdin, getElem?_span (by omega), Nat.zero_add]
  rw [hsplit, held_append hne fun e he => hk.trans_lt (hbehind e he)]
  rw [List.getElem?_map] at hget
  obtain ⟨y, hy, hsome⟩ := Option.map_eq_some_iff.1 hget
  rw [hy, hsome]

/-- one slot a second, from the second 0 on -/
def sampleSession : Session ℕ := newSession 2 2 1 60 0 fun _ => 0

/-- a frame at `now`, read back at once -/
def frameAt (now : ℤ) (pixels : ℕ) : List (Event ℕ) := [.frameEnd now now (some (2, 2)) none, .accept pixels, .take, .write]

/-- stopped at `stopNs`, and the writer's last turn -/
def stopAt (stopNs : ℤ) : List (Event ℕ) := [.stop stopNs, .publish, .finishWriting]

/-- frames in the first and the third second, and the stop in the fifth -/
def sampleRun : List (Event ℕ) := frameAt 200000000 10 ++ frameAt 2500000000 12 ++ stopAt 4500000000

/-- the first frame in the second second, and the stop in the fourth -/
def lateRun : List (Event ℕ) := frameAt 1500000000 11 ++ stopAt 3500000000

/-- frames in the first two seconds, and the stop in the second -/
def staleRun : List (Event ℕ) := frameAt 200000000 10 ++ frameAt 1500000000 11 ++ stopAt 1900000000

end EspectralClient.Menu.AgentRecorder
