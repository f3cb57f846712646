/-
The relay's in-memory limits (`services/ruta-relay/src/limits.rs`): one mutex-guarded record with a global counter, a
counter for each source IP, and for each grant subject its live connections, the bytes of its current UTC day and the
start times of its recent connections.

Each function takes the guarded record (`Inner`) and, where the source reads the clock, the reading; it answers the
source's result with the record it leaves. Counters are naturals: `usize` and `u32` values stay below the caps they are
compared with. Byte counts are `u64`, so the one addition on them saturates (`saturatingAdd`).

`St` and `step` run any interleaving of the operations over the live slots. Two history fields say what succeeded:
`attached`, the `attach_sub` calls that answered `Ok`, and `charged`, the billed `charge` calls that answered `true`.
-/
import EspectralClient.Lib.IndexMap
import EspectralClient.Lib.Run
import EspectralClient.Lib.SlidingWindow
import EspectralClient.Relay.IpAddr

namespace EspectralClient.RelayLimits

open EspectralClient.Lib

/-! ## Model -/

def u64Max : ℕ := 2 ^ 64 - 1

/-- `u64::saturating_add` -/
def saturatingAdd (a b : ℕ) : ℕ := min (a + b) u64Max

/-- sliding window for the per-sub connection rate, in seconds -/
def rateWindowS : ℤ := 60

/-- Unix seconds at UTC midnight of the day containing `now` -/
def utcDayStart (now : ℤ) : ℤ := now / 86400 * 86400

structure SubEntry where
  concurrent : ℕ
  /-- start of the current UTC day and bytes consumed in it -/
  day : ℤ
  dayBytes : ℕ
  /-- start timestamps of accepted connections inside the rate window -/
  starts : List ℤ
deriving DecidableEq, Repr

/-- `SubEntry::default()` -/
def SubEntry.default : SubEntry := ⟨0, 0, 0, []⟩

structure Inner where
  global : ℕ
  subs : IndexMap String SubEntry
  ips : IndexMap IpAddr ℕ
deriving DecidableEq, Repr

inductive Reject where
  | busy
  | limit
deriving DecidableEq, Repr

/-- the caps; `per_sub_daily_bytes` is a `u64` -/
structure Limits where
  perSubConcurrency : ℕ
  perSubRatePerMin : ℕ
  perSubDailyBytes : ℕ
  perIpConcurrency : ℕ
  globalMax : ℕ
  daily_u64 : perSubDailyBytes ≤ u64Max

/-- what `config::validate` requires of the caps -/
structure Limits.Positive (L : Limits) : Prop where
  perSubConcurrency : 0 < L.perSubConcurrency
  perSubRatePerMin : 0 < L.perSubRatePerMin
  perSubDailyBytes : 0 < L.perSubDailyBytes
  perIpConcurrency : 0 < L.perIpConcurrency
  globalMax : 0 < L.globalMax

/-- a held reservation for one connection -/
structure Slot where
  ip : IpAddr
  sub : Option String
deriving DecidableEq, Repr

/-- the day counter starts again when the stored day is not the caller's -/
def SubEntry.rollDay (e : SubEntry) (today : ℤ) : SubEntry :=
  if e.day ≠ today then { e with day := today, dayBytes := 0 } else e

/-- `entry.starts.retain(|t| *t > now - RATE_WINDOW_S)` -/
def SubEntry.retainStarts (e : SubEntry) (now : ℤ) : SubEntry :=
  { e with starts := SlidingWindow.recent rateWindowS now e.starts }

/-- `charge` on a sub that has an entry; a refused chunk is not billed -/
def chargeEntry (L : Limits) (now : ℤ) (bytes : ℕ) (entry : SubEntry) : Bool × SubEntry :=
  let entry := entry.rollDay (utcDayStart now)
  let next := saturatingAdd entry.dayBytes bytes
  if L.perSubDailyBytes < next then (false, entry) else (true, { entry with dayBytes := next })

def charge (L : Limits) (g : Inner) (slot : Slot) (now : ℤ) (bytes : ℕ) : Bool × Inner :=
  match slot.sub with
  | none => (true, g)
  | some sub =>
    match g.subs.get? sub with
    | none => (false, g)
    | some entry =>
      let (ok, entry) := chargeEntry L now bytes entry
      (ok, { g with subs := g.subs.insert sub entry })

def usedToday (g : Inner) (slot : Slot) (now : ℤ) : ℕ × Inner :=
  match slot.sub with
  | none => (0, g)
  | some sub =>
    match g.subs.get? sub with
    | none => (0, g)
    | some entry =>
      let entry := entry.rollDay (utcDayStart now)
      (entry.dayBytes, { g with subs := g.subs.insert sub entry })

/-- the per-IP counter after a drop: removed when it reaches zero -/
def dropIp (ips : IndexMap IpAddr ℕ) (ip : IpAddr) : IndexMap IpAddr ℕ :=
  match ips.get? ip with
  | none => ips
  | some n => if n - 1 = 0 then ips.remove ip else ips.insert ip (n - 1)

/-- the sub's entry after a drop: removed when nothing of it is left to remember -/
def dropSub (subs : IndexMap String SubEntry) (sub : String) : IndexMap String SubEntry :=
  match subs.get? sub with
  | none => subs
  | some e =>
    let e := { e with concurrent := e.concurrent - 1 }
    if e.concurrent = 0 ∧ e.dayBytes = 0 ∧ e.starts = [] then subs.remove sub else subs.insert sub e

/-- `Drop for Slot`; subtraction on naturals is `saturating_sub` -/
def dropSlot (g : Inner) (slot : Slot) : Inner where
  global := g.global - 1
  ips := dropIp g.ips slot.ip
  subs :=
    match slot.sub with
    | none => g.subs
    | some sub => dropSub g.subs sub

def accept (L : Limits) (g : Inner) (ip : IpAddr) : Except Reject Slot × Inner :=
  if L.globalMax ≤ g.global then (.error .busy, g)
  else if L.perIpConcurrency ≤ (g.ips.get? ip).getD 0 then (.error .limit, g)
  else
    (.ok ⟨ip, none⟩, { g with ips := g.ips.insert ip ((g.ips.get? ip).getD 0 + 1), global := g.global + 1 })

/-- `attach_sub` on a sub that has an entry; a refused call leaves what the checks before the refusal wrote -/
def attachEntry (L : Limits) (now : ℤ) (entry : SubEntry) : Except Reject Unit × SubEntry :=
  if L.perSubConcurrency ≤ entry.concurrent then (.error .limit, entry)
  else
    let entry := entry.retainStarts now
    if L.perSubRatePerMin ≤ entry.starts.length then (.error .limit, entry)
    else
      let entry := entry.rollDay (utcDayStart now)
      if L.perSubDailyBytes ≤ entry.dayBytes then (.error .limit, entry)
      else (.ok (), { entry with concurrent := entry.concurrent + 1, starts := entry.starts ++ [now] })

def attachSub (L : Limits) (g : Inner) (slot : Slot) (sub : String) (now : ℤ) : Except Reject Unit × Slot × Inner :=
  match g.subs.get? sub with
  | some entry =>
    match attachEntry L now entry with
    | (.error r, entry) => (.error r, slot, { g with subs := g.subs.insert sub entry })
    | (.ok (), entry) => (.ok (), { slot with sub := some sub }, { g with subs := g.subs.insert sub entry })
  | none =>
    -- first sighting: the caps are not looked at
    let entry := { SubEntry.default with concurrent := 1, day := utcDayStart now, starts := [now] }
    (.ok (), { slot with sub := some sub }, { g with subs := g.subs.insert sub entry })

/-- what `prune` does to one entry: `none` when nothing of it is left to remember -/
def pruneEntry (now : ℤ) (e : SubEntry) : Option SubEntry :=
  let e := (e.rollDay (utcDayStart now)).retainStarts now
  if 0 < e.concurrent ∨ 0 < e.dayBytes ∨ e.starts ≠ [] then some e else none

def prune (g : Inner) (now : ℤ) : Inner := { g with subs := g.subs.retain fun _ e => pruneEntry now e }

/-! ## What each function does to one entry -/

/-- the entry of a sub; a sub without one reads as the default -/
def entryOf (subs : IndexMap String SubEntry) (sub : String) : SubEntry := (subs.get? sub).getD .default

theorem entryOf_some {subs : IndexMap String SubEntry} {sub : String} {e : SubEntry} (h : subs.get? sub = some e) :
    entryOf subs sub = e := by
  simp [entryOf, h]

theorem entryOf_none {subs : IndexMap String SubEntry} {sub : String} (h : subs.get? sub = none) :
    entryOf subs sub = .default := by
  simp [entryOf, h]

theorem entryOf_insert (subs : IndexMap String SubEntry) (sub sub' : String) (e : SubEntry) :
    entryOf (subs.insert sub e) sub' = if sub = sub' then e else entryOf subs sub' := by
  simp only [entryOf, IndexMap.get?_insert]
  split_ifs <;> rfl

@[simp] theorem rollDay_concurrent (e : SubEntry) (d : ℤ) : (e.rollDay d).concurrent = e.concurrent := by
  unfold SubEntry.rollDay; split_ifs <;> rfl

@[simp] theorem rollDay_starts (e : SubEntry) (d : ℤ) : (e.rollDay d).starts = e.starts := by
  unfold SubEntry.rollDay; split_ifs <;> rfl

@[simp] theorem rollDay_day (e : SubEntry) (d : ℤ) : (e.rollDay d).day = d := by
  unfold SubEntry.rollDay; split_ifs with h
  · rfl
  · exact not_not.1 h

theorem rollDay_dayBytes (e : SubEntry) (d : ℤ) : (e.rollDay d).dayBytes = if e.day = d then e.dayBytes else 0 := by
  unfold SubEntry.rollDay; split_ifs <;> first | rfl | contradiction

@[simp] theorem chargeEntry_concurrent (L : Limits) (now : ℤ) (bytes : ℕ) (e : SubEntry) :
    (chargeEntry L now bytes e).2.concurrent = e.concurrent := by
  unfold chargeEntry; dsimp only; split_ifs <;> simp

@[simp] theorem chargeEntry_starts (L : Limits) (now : ℤ) (bytes : ℕ) (e : SubEntry) :
    (chargeEntry L now bytes e).2.starts = e.starts := by
  unfold chargeEntry; dsimp only; split_ifs <;> simp

/-- `charge` touches the map only, and of it only the entry of the slot's sub -/
theorem charge_inner (L : Limits) (g : Inner) (slot : Slot) (now : ℤ) (bytes : ℕ) :
    (charge L g slot now bytes).2 = g ∨ ∃ sub e, slot.sub = some sub ∧ g.subs.get? sub = some e ∧
      (charge L g slot now bytes).2 = { g with subs := g.subs.insert sub (chargeEntry L now bytes e).2 } := by
  unfold charge
  split
  · exact Or.inl rfl
  · rename_i sub hsub
    split
    · exact Or.inl rfl
    · rename_i e he
      exact Or.inr ⟨sub, e, hsub, he, rfl⟩

theorem usedToday_inner (g : Inner) (slot : Slot) (now : ℤ) :
    (usedToday g slot now).2 = g ∨ ∃ sub e, slot.sub = some sub ∧ g.subs.get? sub = some e ∧
      (usedToday g slot now).2 = { g with subs := g.subs.insert sub (e.rollDay (utcDayStart now)) } := by
  unfold usedToday
  split
  · exact Or.inl rfl
  · rename_i sub hsub
    split
    · exact Or.inl rfl
    · rename_i e he
      exact Or.inr ⟨sub, e, hsub, he, rfl⟩

/-- what is left of an entry after `prune` counts the same connections and the starts still in the window -/
theorem pruneEntry_getD (now : ℤ) (e : SubEntry) :
    ((pruneEntry now e).getD .default).concurrent = e.concurrent ∧
      ((pruneEntry now e).getD .default).starts = SlidingWindow.recent rateWindowS now e.starts := by
  unfold pruneEntry
  dsimp only
  split_ifs with h
  · simp [SubEntry.retainStarts]
  · simp only [SubEntry.retainStarts, rollDay_concurrent, rollDay_starts, not_or, not_not] at h
    exact ⟨by simp [SubEntry.default]; omega, by simp [SubEntry.default, h.2.2]⟩

theorem entryOf_prune (g : Inner) (now : ℤ) (sub : String) :
    entryOf (prune g now).subs sub = ((g.subs.get? sub).bind (pruneEntry now)).getD .default := by
  simp [entryOf, prune]

theorem prune_concurrent (g : Inner) (now : ℤ) (sub : String) :
    (entryOf (prune g now).subs sub).concurrent = (entryOf g.subs sub).concurrent := by
  rw [entryOf_prune]
  cases h : g.subs.get? sub with
  | none => simp [entryOf_none h]
  | some e => simpa [entryOf_some h] using (pruneEntry_getD now e).1

theorem prune_starts (g : Inner) (now : ℤ) (sub : String) :
    (entryOf (prune g now).subs sub).starts = SlidingWindow.recent rateWindowS now (entryOf g.subs sub).starts := by
  rw [entryOf_prune]
  cases h : g.subs.get? sub with
  | none => simp [entryOf_none h, SubEntry.default]
  | some e => simpa [entryOf_some h] using (pruneEntry_getD now e).2

/-- a drop takes one connection off the sub's entry and forgets nothing else that counts -/
theorem entryOf_dropSub (subs : IndexMap String SubEntry) (sub sub' : String) :
    (entryOf (dropSub subs sub) sub').concurrent =
        (entryOf subs sub').concurrent - (if sub = sub' then 1 else 0) ∧
      (entryOf (dropSub subs sub) sub').starts = (entryOf subs sub').starts ∧
      (entryOf (dropSub subs sub) sub').dayBytes = (entryOf subs sub').dayBytes ∧
      ((entryOf subs sub').dayBytes ≠ 0 → (entryOf (dropSub subs sub) sub').day = (entryOf subs sub').day) := by
  by_cases hs : sub = sub'
  · subst hs
    rw [if_pos rfl]
    unfold dropSub
    cases h : subs.get? sub with
    | none => simp [entryOf, h, SubEntry.default]
    | some e =>
      dsimp only
      split_ifs with hz
      · simp [entryOf, h, SubEntry.default, hz.1, hz.2.1, hz.2.2]
      · simp [entryOf, h]
  · have hsub : (dropSub subs sub).get? sub' = subs.get? sub' := by
      unfold dropSub
      cases h : subs.get? sub with
      | none => rfl
      | some e => dsimp only; split_ifs <;> simp [IndexMap.get?_insert, IndexMap.get?_remove, hs]
    simp [entryOf, hsub, hs]

/-- what `attach_sub` writes into an entry -/
theorem attachEntry_spec (L : Limits) (now : ℤ) (e : SubEntry) :
    (∃ r e', attachEntry L now e = (.error r, e') ∧ e'.concurrent = e.concurrent ∧
        (e'.starts = e.starts ∨ e'.starts = SlidingWindow.recent rateWindowS now e.starts)) ∨
      (∃ e', attachEntry L now e = (.ok (), e') ∧ e.concurrent < L.perSubConcurrency ∧
        e'.concurrent = e.concurrent + 1 ∧
        (SlidingWindow.recent rateWindowS now e.starts).length < L.perSubRatePerMin ∧
        e'.starts = SlidingWindow.recent rateWindowS now e.starts ++ [now]) := by
  unfold attachEntry
  dsimp only
  split_ifs with h1 h2 h3
  · exact Or.inl ⟨_, _, rfl, rfl, Or.inl rfl⟩
  · exact Or.inl ⟨_, _, rfl, rfl, Or.inr rfl⟩
  · exact Or.inl ⟨_, _, rfl, by simp [SubEntry.retainStarts], Or.inr (by simp [SubEntry.retainStarts])⟩
  · refine Or.inr ⟨_, rfl, by omega, by simp [SubEntry.retainStarts], ?_, by simp [SubEntry.retainStarts]⟩
    simpa [SubEntry.retainStarts] using h2

/-- **What `attach_sub` does**: it is refused and writes back an entry with the same count, or it is accepted and writes
one connection and one start. A sub that has an entry is accepted only below the concurrency and rate caps. -/
theorem attachSub_spec (L : Limits) (g : Inner) (slot : Slot) (sub : String) (now : ℤ) :
    (∃ r e e', attachSub L g slot sub now = (.error r, slot, { g with subs := g.subs.insert sub e' }) ∧
        g.subs.get? sub = some e ∧ e' = (attachEntry L now e).2 ∧ e'.concurrent = e.concurrent ∧
        (e'.starts = e.starts ∨ e'.starts = SlidingWindow.recent rateWindowS now e.starts)) ∨
      ∃ e', attachSub L g slot sub now =
          (.ok (), { slot with sub := some sub }, { g with subs := g.subs.insert sub e' }) ∧
        (g.subs.get? sub = none ∨ (entryOf g.subs sub).concurrent < L.perSubConcurrency ∧
          (SlidingWindow.recent rateWindowS now (entryOf g.subs sub).starts).length < L.perSubRatePerMin) ∧
        e'.concurrent = (entryOf g.subs sub).concurrent + 1 ∧
        e'.starts = SlidingWindow.recent rateWindowS now (entryOf g.subs sub).starts ++ [now] := by
  unfold attachSub
  cases he : g.subs.get? sub with
  | none =>
    rw [entryOf_none he]
    exact Or.inr ⟨_, rfl, Or.inl rfl, rfl, rfl⟩
  | some e =>
    rw [entryOf_some he]
    rcases attachEntry_spec L now e with ⟨r, e', ha, hc, hs⟩ | ⟨e', ha, hlt, hc, hroom, hs⟩
    · exact Or.inl ⟨r, e, e', by simp only [ha], rfl, by rw [ha], hc, hs⟩
    · exact Or.inr ⟨e', by simp only [ha], Or.inr ⟨hlt, hroom⟩, hc, hs⟩

/-! ## Runs over the live slots -/

structure St where
  inner : Inner
  /-- live slots by the number of the connection that holds them -/
  slots : IndexMap ℕ Slot
  nextSlot : ℕ
  /-- `attach_sub` calls that returned `Ok`: (sub, reading) -/
  attached : List (String × ℤ)
  /-- billed `charge` calls that returned `true`: (sub, reading, bytes) -/
  charged : List (String × ℤ × ℕ)
deriving DecidableEq, Repr

def init : St := ⟨⟨0, .empty, .empty⟩, .empty, 0, [], []⟩

inductive Op where
  | accept (ip : IpAddr)
  | attachSub (k : ℕ) (sub : String) (now : ℤ)
  | charge (k : ℕ) (now : ℤ) (bytes : ℕ)
  | usedToday (k : ℕ) (now : ℤ)
  | prune (now : ℤ)
  | drop (k : ℕ)
deriving DecidableEq, Repr

def stepAttach (L : Limits) (s : St) (k : ℕ) (slot : Slot) (sub : String) (now : ℤ) : St :=
  match attachSub L s.inner slot sub now with
  | (.error _, slot, g) => { s with inner := g, slots := s.slots.insert k slot }
  | (.ok (), slot, g) =>
    { s with inner := g, slots := s.slots.insert k slot, attached := s.attached ++ [(sub, now)] }

def stepCharge (L : Limits) (s : St) (slot : Slot) (now : ℤ) (bytes : ℕ) : St :=
  match charge L s.inner slot now bytes, slot.sub with
  | (true, g), some sub => { s with inner := g, charged := s.charged ++ [(sub, now, bytes)] }
  | (_, g), _ => { s with inner := g }

/-- operations on a slot that is not live do nothing, and neither does a second `attach_sub` on a slot -/
def step (L : Limits) (s : St) : Op → St
  | .accept ip =>
    match accept L s.inner ip with
    | (.error _, g) => { s with inner := g }
    | (.ok slot, g) => { s with inner := g, slots := s.slots.insert s.nextSlot slot, nextSlot := s.nextSlot + 1 }
  | .attachSub k sub now =>
    match s.slots.get? k with
    | some ⟨ip, none⟩ => stepAttach L s k ⟨ip, none⟩ sub now
    | _ => s
  | .charge k now bytes =>
    match s.slots.get? k with
    | some slot => stepCharge L s slot now bytes
    | none => s
  | .usedToday k now =>
    match s.slots.get? k with
    | some slot => { s with inner := (usedToday s.inner slot now).2 }
    | none => s
  | .prune now => { s with inner := prune s.inner now }
  | .drop k =>
    match s.slots.get? k with
    | some slot => { s with inner := dropSlot s.inner slot, slots := s.slots.remove k }
    | none => s

end EspectralClient.RelayLimits
