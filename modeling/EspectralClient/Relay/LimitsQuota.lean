/-
The daily quota of the relay limits under concurrency. `charge` and `used_today` read the clock while they hold the
lock; `attach_sub` and `prune` read it first and lock afterwards, so between the reading and the locked section the clock
can pass midnight and another thread can charge.

- `Mach`, `step`: threads over the shared record. A reading taken before the lock waits in `attaching` or `pruning` until
  the locked section uses it. `run_sequential`: the shared record goes through a run of the locked sections, so what
  holds of every run of those holds here, as the accounting does (`interleavings_accounted`).
- `quota_exceeded`: a stale reading used after midnight throws away what the new day was already charged, and the sub is
  charged its budget twice.
- `quota_kept`: without that, and without a sum that saturates at the largest budget, no day is over-charged.
-/
import EspectralClient.Relay.LimitsAccounting

namespace EspectralClient.LimitsQuota

open EspectralClient.Lib EspectralClient.RelayLimits

/-! ## Threads over the locked sections -/

structure Mach where
  clock : ℤ
  shared : St
  /-- `attach_sub` calls between the clock reading and the lock, by slot: the sub and the reading -/
  attaching : IndexMap ℕ (String × ℤ)
  /-- `prune` calls between the clock reading and the lock -/
  pruning : IndexMap ℕ ℤ
deriving DecidableEq, Repr

def start (clock : ℤ) : Mach := ⟨clock, init, .empty, .empty⟩

inductive Act where
  /-- time passes; the clock never goes backwards -/
  | tick (seconds : ℕ)
  | accept (ip : IpAddr)
  | attachRead (k : ℕ) (sub : String)
  | attachLock (k : ℕ)
  | charge (k : ℕ) (bytes : ℕ)
  | usedToday (k : ℕ)
  | pruneRead (j : ℕ)
  | pruneLock (j : ℕ)
  | drop (k : ℕ)
deriving DecidableEq, Repr

/-- `attach_sub` borrows the slot mutably, so nothing else uses it between the two steps -/
def step (L : Limits) (m : Mach) : Act → Mach
  | .tick n => { m with clock := m.clock + n }
  | .accept ip => { m with shared := RelayLimits.step L m.shared (.accept ip) }
  | .attachRead k sub =>
    match m.shared.slots.get? k, m.attaching.get? k with
    | some ⟨_, none⟩, none => { m with attaching := m.attaching.insert k (sub, m.clock) }
    | _, _ => m
  | .attachLock k =>
    match m.attaching.get? k with
    | some (sub, now) =>
      { m with shared := RelayLimits.step L m.shared (.attachSub k sub now), attaching := m.attaching.remove k }
    | none => m
  | .charge k bytes =>
    match m.attaching.get? k with
    | some _ => m
    | none => { m with shared := RelayLimits.step L m.shared (.charge k m.clock bytes) }
  | .usedToday k =>
    match m.attaching.get? k with
    | some _ => m
    | none => { m with shared := RelayLimits.step L m.shared (.usedToday k m.clock) }
  | .pruneRead j =>
    match m.pruning.get? j with
    | some _ => m
    | none => { m with pruning := m.pruning.insert j m.clock }
  | .pruneLock j =>
    match m.pruning.get? j with
    | some now => { m with shared := RelayLimits.step L m.shared (.prune now), pruning := m.pruning.remove j }
    | none => m
  | .drop k =>
    match m.attaching.get? k with
    | some _ => m
    | none => { m with shared := RelayLimits.step L m.shared (.drop k) }

/-- the locked section a step runs, if it runs one -/
def locked (m : Mach) : Act → Option Op
  | .tick _ | .attachRead _ _ | .pruneRead _ => none
  | .accept ip => some (.accept ip)
  | .attachLock k => (m.attaching.get? k).map fun p => .attachSub k p.1 p.2
  | .charge k bytes => if m.attaching.get? k = none then some (.charge k m.clock bytes) else none
  | .usedToday k => if m.attaching.get? k = none then some (.usedToday k m.clock) else none
  | .pruneLock j => (m.pruning.get? j).map .prune
  | .drop k => if m.attaching.get? k = none then some (.drop k) else none

theorem step_shared (L : Limits) (m : Mach) (a : Act) :
    (step L m a).shared = run (RelayLimits.step L) m.shared (locked m a).toList := by
  cases a with
  | tick n => rfl
  | accept ip => rfl
  | attachRead k sub => simp only [step, locked]; split <;> rfl
  | pruneRead j => simp only [step, locked]; split <;> rfl
  | attachLock k => simp only [step, locked]; split <;> rename_i hk <;> simp [hk]
  | pruneLock j => simp only [step, locked]; split <;> rename_i hj <;> simp [hj]
  | charge k bytes => simp only [step, locked]; split <;> rename_i hk <;> simp [hk]
  | usedToday k => simp only [step, locked]; split <;> rename_i hk <;> simp [hk]
  | drop k => simp only [step, locked]; split <;> rename_i hk <;> simp [hk]

/-- **Threads run the locked sections.** Every interleaving leaves the record a sequential run leaves. -/
theorem run_sequential (L : Limits) (clock : ℤ) (acts : List Act) :
    ∃ ops, (run (step L) (start clock) acts).shared = run (RelayLimits.step L) init ops := by
  have hstep : ∀ (m : Mach) (s : St) (a : Act), m.shared = s →
      ∃ ops, (step L m a).shared = run (RelayLimits.step L) s ops := by
    rintro m s a rfl
    exact ⟨_, step_shared L m a⟩
  exact run_simulates (step L) (RelayLimits.step L) hstep acts rfl

/-- **The accounting holds under every interleaving.** The counters are those of the live slots and within their caps, and
no `Drop` would saturate. -/
theorem interleavings_accounted (L : Limits) (hL : L.Positive) (clock : ℤ) (acts : List Act) :
    let s := (run (step L) (start clock) acts).shared
    LimitsAccounting.Accounted L s ∧
      ∀ k slot, s.slots.get? k = some slot → LimitsAccounting.NothingSaturates s slot := by
  obtain ⟨ops, h⟩ := run_sequential L clock acts
  have hinv : LimitsAccounting.Inv L (run (RelayLimits.step L) init ops) := LimitsAccounting.run_inv L hL ops
  rw [h]
  exact ⟨hinv.accounted, fun k slot hk => hinv.nothing_saturates hk⟩

theorem interleavings_accounted_two :
    let s := (run (step LimitsAccounting.oneEach) (start 7) [.accept (.v4 #v[198, 51, 100, 1]), .attachRead 0 "s",
      .tick 90, .accept (.v4 #v[198, 51, 100, 2]), .attachRead 1 "s", .attachLock 1, .attachLock 0]).shared
    LimitsAccounting.Accounted LimitsAccounting.oneEach s ∧
      ∀ k slot, s.slots.get? k = some slot → LimitsAccounting.NothingSaturates s slot :=
  interleavings_accounted _ ⟨by decide, by decide, by decide, by decide, by decide⟩ 7 _

/-! ## Bytes charged on a day -/

/-- bytes of the `charge` calls for a sub that returned `true` with a reading in the day that starts at `day` -/
def dayCharged (charged : List (String × ℤ × ℕ)) (sub : String) (day : ℤ) : ℕ :=
  ((charged.filter fun c => c.1 = sub ∧ utcDayStart c.2.1 = day).map fun c => c.2.2).sum

theorem dayCharged_snoc (charged : List (String × ℤ × ℕ)) (sub sub' : String) (now day : ℤ) (bytes : ℕ) :
    dayCharged (charged ++ [(sub, now, bytes)]) sub' day =
      dayCharged charged sub' day + if sub = sub' ∧ utcDayStart now = day then bytes else 0 := by
  simp only [dayCharged, List.filter_append, List.map_append, List.sum_append, List.filter_cons, List.filter_nil,
    decide_eq_true_eq]
  split_ifs <;> simp

theorem dayCharged_later {charged : List (String × ℤ × ℕ)} {clock day : ℤ} (sub : String)
    (h : ∀ c ∈ charged, c.2.1 ≤ clock) (hday : utcDayStart clock < day) : dayCharged charged sub day = 0 := by
  have hnone : (charged.filter fun c => c.1 = sub ∧ utcDayStart c.2.1 = day) = [] := by
    apply List.filter_eq_nil_iff.2
    intro c hc hd
    simp only [decide_eq_true_eq] at hd
    have := h c hc
    have hd := hd.2
    simp only [utcDayStart] at hd hday
    omega
  rw [dayCharged, hnone]
  rfl

/-- bytes a sub's entry says it used on a day -/
def used (subs : IndexMap String SubEntry) (sub : String) (day : ℤ) : ℕ := ((entryOf subs sub).rollDay day).dayBytes

theorem used_insert (subs : IndexMap String SubEntry) (sub sub' : String) (e : SubEntry) (day : ℤ) :
    used (subs.insert sub e) sub' day = if sub = sub' then (e.rollDay day).dayBytes else used subs sub' day := by
  simp only [used, entryOf_insert]
  split_ifs <;> rfl

/-- a locked section at `clock` that has read `now` throws away what the entry was charged on the day of `clock` -/
def Forgets (clock now : ℤ) (e : SubEntry) : Prop :=
  e.day = utcDayStart clock ∧ utcDayStart now ≠ utcDayStart clock ∧ 0 < e.dayBytes

instance (clock now : ℤ) (e : SubEntry) : Decidable (Forgets clock now e) := by
  dsimp only [Forgets]
  infer_instance

theorem rollDay_used {clock now : ℤ} {e : SubEntry} (h : ¬Forgets clock now e) :
    ((e.rollDay (utcDayStart now)).rollDay (utcDayStart clock)).dayBytes = (e.rollDay (utcDayStart clock)).dayBytes := by
  by_cases hd : utcDayStart now = utcDayStart clock
  · rw [rollDay_dayBytes, rollDay_day, if_pos hd, hd]
  · rw [rollDay_dayBytes, rollDay_day, if_neg hd, rollDay_dayBytes]
    split_ifs with he
    · exact (Nat.eq_zero_of_not_pos fun hpos => h ⟨he, hd, hpos⟩).symm
    · rfl

theorem rollDay_congr {e e' : SubEntry} (day : ℤ) (hd : e'.day = e.day) (hb : e'.dayBytes = e.dayBytes) :
    (e'.rollDay day).dayBytes = (e.rollDay day).dayBytes := by
  rw [rollDay_dayBytes, rollDay_dayBytes, hd, hb]

/-! ## The step condition -/

/-- the steps that keep the quota: no locked section forgets bytes of the current day, and no sum that reached the
largest `u64` is compared with a budget as large -/
def Sound (L : Limits) (m : Mach) : Act → Prop
  | .attachLock k =>
    -- the day is looked at only when the concurrency and rate caps let the call through
    ∀ p ∈ m.attaching.get? k, ∀ e ∈ m.shared.inner.subs.get? p.1, e.concurrent < L.perSubConcurrency →
      (SlidingWindow.recent rateWindowS p.2 e.starts).length < L.perSubRatePerMin → ¬Forgets m.clock p.2 e
  | .pruneLock j => ∀ now ∈ m.pruning.get? j, ∀ e ∈ m.shared.inner.subs.values, ¬Forgets m.clock now e
  | .charge k bytes =>
    ∀ slot ∈ m.shared.slots.get? k, ∀ sub ∈ slot.sub, L.perSubDailyBytes = u64Max →
      used m.shared.inner.subs sub (utcDayStart m.clock) + bytes ≤ u64Max
  | _ => True

instance (L : Limits) (m : Mach) (a : Act) : Decidable (Sound L m a) := by
  apply Act.casesOn (motive := fun a => Decidable (Sound L m a)) a <;> intros <;> dsimp only [Sound] <;> infer_instance

/-! ## What each step does to the bytes used -/

structure Inv (L : Limits) (m : Mach) : Prop where
  past : ∀ c ∈ m.shared.charged, c.2.1 ≤ m.clock
  remembered : ∀ sub, dayCharged m.shared.charged sub (utcDayStart m.clock) ≤
    used m.shared.inner.subs sub (utcDayStart m.clock)
  within : ∀ sub day, dayCharged m.shared.charged sub day ≤ L.perSubDailyBytes

theorem inv_start (L : Limits) (clock : ℤ) : Inv L (start clock) where
  past _ h := by simp [start, init] at h
  remembered _ := Nat.zero_le _
  within _ _ := Nat.zero_le _

/-- steps that charge nothing and forget nothing of the current day -/
theorem Inv.kept {L : Limits} {m m' : Mach} (h : Inv L m) (hc : m'.clock = m.clock)
    (hch : m'.shared.charged = m.shared.charged)
    (hu : ∀ sub, used m'.shared.inner.subs sub (utcDayStart m.clock) = used m.shared.inner.subs sub (utcDayStart m.clock)) :
    Inv L m' where
  past c hm := by rw [hch] at hm; rw [hc]; exact h.past c hm
  remembered sub := by rw [hch, hc, hu]; exact h.remembered sub
  within sub day := by rw [hch]; exact h.within sub day

theorem tick_inv (L : Limits) (m : Mach) (n : ℕ) (h : Inv L m) : Inv L (step L m (.tick n)) where
  past c hc := by have := h.past c hc; simp only [step]; omega
  remembered sub := by
    simp only [step]
    by_cases hd : utcDayStart (m.clock + n) = utcDayStart m.clock
    · rw [hd]; exact h.remembered sub
    · -- a new day: nothing has been charged on it
      rw [dayCharged_later sub h.past (by simp only [utcDayStart] at hd ⊢; omega)]
      exact Nat.zero_le _
  within := h.within

theorem accept_inv (L : Limits) (m : Mach) (ip : IpAddr) (h : Inv L m) : Inv L (step L m (.accept ip)) := by
  refine h.kept rfl ?_ ?_
  · simp only [step, RelayLimits.step]; split <;> rfl
  · intro sub
    simp only [step, RelayLimits.step]
    unfold RelayLimits.accept
    split_ifs <;> rfl

/-- `attach_sub` on an entry writes the day back as it was, or rolled to the day of its reading -/
theorem attachEntry_day (L : Limits) (now : ℤ) (e : SubEntry) :
    ((attachEntry L now e).2.day = e.day ∧ (attachEntry L now e).2.dayBytes = e.dayBytes) ∨
      e.concurrent < L.perSubConcurrency ∧
        (SlidingWindow.recent rateWindowS now e.starts).length < L.perSubRatePerMin ∧
        (attachEntry L now e).2.day = (e.rollDay (utcDayStart now)).day ∧
        (attachEntry L now e).2.dayBytes = (e.rollDay (utcDayStart now)).dayBytes := by
  unfold attachEntry
  dsimp only
  split_ifs with h1 h2 h3
  · exact Or.inl ⟨rfl, rfl⟩
  · exact Or.inl ⟨rfl, rfl⟩
  all_goals
    refine Or.inr ⟨by omega, by simpa [SubEntry.retainStarts] using h2, ?_, ?_⟩
    · simp
    · simp [rollDay_dayBytes, SubEntry.retainStarts]

theorem attachEntry_used (L : Limits) (clock now : ℤ) (e : SubEntry)
    (h : e.concurrent < L.perSubConcurrency → (SlidingWindow.recent rateWindowS now e.starts).length < L.perSubRatePerMin →
      ¬Forgets clock now e) :
    ((attachEntry L now e).2.rollDay (utcDayStart clock)).dayBytes = (e.rollDay (utcDayStart clock)).dayBytes := by
  rcases attachEntry_day L now e with ⟨hd, hb⟩ | ⟨h1, h2, hd, hb⟩
  · exact rollDay_congr _ hd hb
  · rw [rollDay_congr _ hd hb, rollDay_used (h h1 h2)]

/-- the record `attach_sub` leaves, whatever it answers -/
theorem attachSub_inner (L : Limits) (g : Inner) (slot : Slot) (sub : String) (now : ℤ) :
    (∃ e, g.subs.get? sub = some e ∧
        (attachSub L g slot sub now).2.2 = { g with subs := g.subs.insert sub (attachEntry L now e).2 }) ∨
      g.subs.get? sub = none ∧ (attachSub L g slot sub now).2.2 =
        { g with subs := g.subs.insert sub { SubEntry.default with concurrent := 1, day := utcDayStart now, starts := [now] } } := by
  unfold attachSub
  cases he : g.subs.get? sub with
  | none => exact Or.inr ⟨rfl, rfl⟩
  | some e =>
    refine Or.inl ⟨e, rfl, ?_⟩
    dsimp only
    split <;> rename_i hx <;> rw [hx]

theorem stepAttach_shared (L : Limits) (s : St) (k : ℕ) (slot : Slot) (sub : String) (now : ℤ) :
    (stepAttach L s k slot sub now).inner = (attachSub L s.inner slot sub now).2.2 ∧
      (stepAttach L s k slot sub now).charged = s.charged := by
  unfold stepAttach
  split <;> rename_i hx <;> rw [hx] <;> exact ⟨rfl, rfl⟩

theorem attachLock_inv (L : Limits) (m : Mach) (k : ℕ) (hs : Sound L m (.attachLock k)) (h : Inv L m) :
    Inv L (step L m (.attachLock k)) := by
  simp only [step]
  cases hp : m.attaching.get? k with
  | none => exact h
  | some p =>
    obtain ⟨sub, now⟩ := p
    have hs := hs (sub, now) hp
    simp only [RelayLimits.step]
    split
    · obtain ⟨hin, hch⟩ := stepAttach_shared L m.shared k ⟨_, none⟩ sub now
      refine h.kept rfl hch ?_
      intro sub'
      dsimp only
      rw [hin]
      rcases attachSub_inner L m.shared.inner ⟨_, none⟩ sub now with ⟨e, he, hg⟩ | ⟨hnone, hg⟩
      · rw [hg, used_insert]
        split_ifs with hsub
        · subst hsub
          rw [used, entryOf_some he]
          exact attachEntry_used L m.clock now e (hs e he)
        · rfl
      · rw [hg, used_insert]
        split_ifs with hsub
        · subst hsub
          simp [used, entryOf_none hnone, rollDay_dayBytes, SubEntry.default]
        · rfl
    · exact h.kept rfl rfl fun _ => rfl

/-- a charge that is billed adds its bytes to the day it reads, within the budget -/
theorem Inv.billed {L : Limits} {m : Mach} (h : Inv L m) {sub : String} {e : SubEntry}
    (he : m.shared.inner.subs.get? sub = some e) {bytes : ℕ}
    (hfit : (e.rollDay (utcDayStart m.clock)).dayBytes + bytes ≤ L.perSubDailyBytes) {next : ℕ}
    (hnext : next = (e.rollDay (utcDayStart m.clock)).dayBytes + bytes) {inner : Inner}
    (hinner : inner.subs = m.shared.inner.subs.insert sub { e.rollDay (utcDayStart m.clock) with dayBytes := next }) :
    Inv L { m with shared :=
      { m.shared with inner, charged := m.shared.charged ++ [(sub, m.clock, bytes)] } } := by
  have hold : dayCharged m.shared.charged sub (utcDayStart m.clock) ≤ (e.rollDay (utcDayStart m.clock)).dayBytes := by
    simpa only [used, entryOf_some he] using h.remembered sub
  refine ⟨?_, ?_, ?_⟩
  · intro c hc
    rcases List.mem_append.1 hc with hc | hc
    · exact h.past c hc
    · rw [List.mem_singleton.1 hc]
  · intro sub'
    dsimp only
    rw [dayCharged_snoc, hinner, used_insert]
    split_ifs with h1 h2 h3
    · obtain ⟨rfl, -⟩ := h1
      rw [rollDay_dayBytes]
      simp only [rollDay_day, if_true, hnext]
      omega
    · exact absurd h1.1 h2
    · exact absurd ⟨h3, rfl⟩ h1
    · exact h.remembered sub'
  · intro sub' day
    dsimp only
    rw [dayCharged_snoc]
    split_ifs with h1
    · obtain ⟨rfl, rfl⟩ := h1
      omega
    · exact h.within sub' day

theorem charge_inv (L : Limits) (m : Mach) (k bytes : ℕ) (hs : Sound L m (.charge k bytes)) (h : Inv L m) :
    Inv L (step L m (.charge k bytes)) := by
  simp only [step]
  split
  · exact h
  simp only [RelayLimits.step]
  cases hk : m.shared.slots.get? k with
  | none => exact h
  | some slot =>
    obtain ⟨ip, sub⟩ := slot
    cases sub with
    | none => exact h.kept rfl rfl fun _ => rfl
    | some sub =>
      have hs : L.perSubDailyBytes = u64Max → _ := hs ⟨ip, some sub⟩ hk sub rfl
      simp only [stepCharge, RelayLimits.charge]
      cases he : m.shared.inner.subs.get? sub with
      | none => exact h.kept rfl rfl fun _ => rfl
      | some e =>
        simp only [used, entryOf_some he] at hs
        dsimp only
        unfold chargeEntry
        dsimp only
        split_ifs with hover
        · refine h.kept rfl rfl ?_
          intro sub'
          dsimp only
          rw [used_insert]
          split_ifs with hsub
          · subst hsub
            simp [used, entryOf_some he, rollDay_dayBytes]
          · rfl
        · -- the saturating sum is the sum, and it is within the budget
          have hu64 := L.daily_u64
          simp only [saturatingAdd] at hover
          refine h.billed he ?_ ?_ rfl
          · omega
          · simp only [saturatingAdd]
            omega

theorem usedToday_inv (L : Limits) (m : Mach) (k : ℕ) (h : Inv L m) : Inv L (step L m (.usedToday k)) := by
  simp only [step]
  split
  · exact h
  simp only [RelayLimits.step]
  split
  · refine h.kept rfl rfl ?_
    intro sub
    dsimp only
    rcases usedToday_inner m.shared.inner _ m.clock with hg | ⟨sub', e, -, he, hg⟩
    · rw [hg]
    · rw [hg, used_insert]
      split_ifs with hsub
      · subst hsub
        simp [used, entryOf_some he, rollDay_dayBytes]
      · rfl
  · exact h

/-- what `prune` removes or resets was not used today -/
theorem pruneEntry_used {clock now : ℤ} {e : SubEntry} (h : ¬Forgets clock now e) :
    (((pruneEntry now e).getD .default).rollDay (utcDayStart clock)).dayBytes =
      (e.rollDay (utcDayStart clock)).dayBytes := by
  rw [← rollDay_used h]
  unfold pruneEntry
  dsimp only
  split_ifs with hkeep
  · exact rollDay_congr _ rfl rfl
  · have hzero : (e.rollDay (utcDayStart now)).dayBytes = 0 := by
      simp only [SubEntry.retainStarts, not_or, not_lt] at hkeep
      omega
    rw [rollDay_dayBytes, rollDay_dayBytes, hzero]
    exact (ite_self 0).trans (ite_self 0).symm

theorem pruneLock_inv (L : Limits) (m : Mach) (j : ℕ) (hs : Sound L m (.pruneLock j)) (h : Inv L m) :
    Inv L (step L m (.pruneLock j)) := by
  simp only [step]
  cases hp : m.pruning.get? j with
  | none => exact h
  | some now =>
    refine h.kept rfl rfl ?_
    intro sub
    simp only [RelayLimits.step, used, entryOf_prune]
    cases he : m.shared.inner.subs.get? sub with
    | none => simp [entryOf_none he]
    | some e =>
      rw [entryOf_some he, Option.bind_some]
      exact pruneEntry_used (hs now hp e (IndexMap.mem_values.2 ⟨sub, he⟩))

theorem drop_inv (L : Limits) (m : Mach) (k : ℕ) (h : Inv L m) : Inv L (step L m (.drop k)) := by
  simp only [step]
  split
  · exact h
  simp only [RelayLimits.step]
  cases hk : m.shared.slots.get? k with
  | none => exact h
  | some slot =>
    refine h.kept rfl rfl ?_
    intro sub
    dsimp only [dropSlot]
    cases slot.sub with
    | none => rfl
    | some sub' =>
      obtain ⟨-, -, hb, hd⟩ := entryOf_dropSub m.shared.inner.subs sub' sub
      simp only [used, rollDay_dayBytes, hb]
      by_cases hzero : (entryOf m.shared.inner.subs sub).dayBytes = 0
      · simp [hzero]
      · rw [hd hzero]

theorem step_inv (L : Limits) (m : Mach) (a : Act) (hs : Sound L m a) (h : Inv L m) : Inv L (step L m a) := by
  cases a with
  | tick n => exact tick_inv L m n h
  | accept ip => exact accept_inv L m ip h
  | attachRead k sub => simp only [step]; split <;> exact h.kept rfl rfl fun _ => rfl
  | attachLock k => exact attachLock_inv L m k hs h
  | charge k bytes => exact charge_inv L m k bytes hs h
  | usedToday k => exact usedToday_inv L m k h
  | pruneRead j => simp only [step]; split <;> exact h.kept rfl rfl fun _ => rfl
  | pruneLock j => exact pruneLock_inv L m j hs h
  | drop k => exact drop_inv L m k h

/-! ## Main results -/

/-- **Daily quota.** In a run none of whose locked sections forgets bytes of the current day (and none of whose charges
saturates at the largest budget), at every moment the charges of a sub that returned `true` on a UTC day sum to at most
`per_sub_daily_bytes`. -/
theorem quota_kept (L : Limits) (clock : ℤ) (acts : List Act) (h : Meets (step L) (Sound L) (start clock) acts)
    (before : List Act) (hb : before <+: acts) (sub : String) (day : ℤ) :
    dayCharged (run (step L) (start clock) before).shared.charged sub day ≤ L.perSubDailyBytes := by
  obtain ⟨after, rfl⟩ := hb
  have hm := ((meets_append (step L) _ _ before after).1 h).1
  exact (run_invariant (step L) (fun m a => step_inv L m a) hm (inv_start L clock)).within sub day

theorem kilobyte_u64 : 1000 ≤ u64Max := by decide

/-- a budget of 1000 bytes a day -/
def kilobyte : Limits := ⟨5, 30, 1000, 5, 5, kilobyte_u64⟩

/-- two connections of one sub, before midnight and after it, neither reading stale -/
def quietMidnight : List Act :=
  [.accept (.v4 #v[203, 0, 113, 7]), .attachRead 0 "s", .attachLock 0, .charge 0 1000, .tick 10, .charge 0 400,
    .accept (.v4 #v[203, 0, 113, 7]), .attachRead 1 "s", .attachLock 1, .charge 1 700, .pruneRead 0, .pruneLock 0,
    .charge 1 600]

theorem quota_kept_example :
    dayCharged (run (step kilobyte) (start 86395) quietMidnight).shared.charged "s" 86400 ≤ 1000 :=
  quota_kept kilobyte 86395 quietMidnight (by decide) quietMidnight List.prefix_rfl "s" 86400

/-- one second before midnight a second connection reads the clock; its locked section runs after the first one has
charged the whole new day, and resets it -/
def staleReading : List Act :=
  [.accept (.v4 #v[203, 0, 113, 7]), .attachRead 0 "s", .attachLock 0, .accept (.v4 #v[203, 0, 113, 7]),
    .attachRead 1 "s", .tick 1, .charge 0 1000, .attachLock 1, .charge 0 1000]

/-- **The budget is charged twice**: every cap is positive, the clock only goes forward, and the sub is charged 2000
bytes of a budget of 1000 on one day. -/
theorem quota_exceeded :
    kilobyte.Positive ∧
      (run (step kilobyte) (start 86399) staleReading).shared.charged = [("s", 86400, 1000), ("s", 86400, 1000)] ∧
      kilobyte.perSubDailyBytes < dayCharged (run (step kilobyte) (start 86399) staleReading).shared.charged "s" 86400 :=
  ⟨⟨by decide, by decide, by decide, by decide, by decide⟩, by decide, by decide⟩

end EspectralClient.LimitsQuota
