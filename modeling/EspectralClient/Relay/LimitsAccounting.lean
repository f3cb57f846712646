/-
Reservation accounting of the relay limits: the three counters are the live slots, counted.

- `Inv`: `global` counts the live slots, `ips` counts them by source address with no entry at zero, and each sub's
  `concurrent` counts the slots bound to it; every counter is within its cap.
- `step_inv`, `run_inv`: every operation, with any clock reading, keeps it. Operations that only move day counters and
  start times, and refused ones, leave the counters alone (`Untouched`).
- `reservations_accounted`: the accounting after any run, with what it gives each `Drop` (nothing saturates) and each
  refusal (no counter and no binding changes).
-/
import EspectralClient.Relay.Limits

namespace EspectralClient.LimitsAccounting

open EspectralClient.Lib EspectralClient.RelayLimits

/-! ## Counting the live slots -/

/-- live slots that came from an address -/
def fromIp (slots : IndexMap ℕ Slot) (ip : IpAddr) : ℕ := slots.values.countP fun x => x.ip = ip

/-- live slots bound to a sub -/
def boundTo (slots : IndexMap ℕ Slot) (sub : String) : ℕ := slots.values.countP fun x => x.sub = some sub

section Counts

variable {slots : IndexMap ℕ Slot} {k : ℕ}

theorem fromIp_new (ip ip' : IpAddr) (hk : slots.get? k = none) :
    fromIp (slots.insert k ⟨ip, none⟩) ip' = fromIp slots ip' + if ip = ip' then 1 else 0 := by
  simp [fromIp, IndexMap.countP_insert_new _ _ hk]

theorem boundTo_new (ip : IpAddr) (sub : String) (hk : slots.get? k = none) :
    boundTo (slots.insert k ⟨ip, none⟩) sub = boundTo slots sub := by
  simp [boundTo, IndexMap.countP_insert_new _ _ hk]

theorem fromIp_bind (ip ip' : IpAddr) (sub : String) (hk : slots.get? k = some ⟨ip, none⟩) :
    fromIp (slots.insert k ⟨ip, some sub⟩) ip' = fromIp slots ip' := by
  have := IndexMap.countP_insert_old (fun x => x.ip = ip') (⟨ip, some sub⟩ : Slot) hk
  simpa [fromIp] using this

theorem boundTo_bind (ip : IpAddr) (sub sub' : String) (hk : slots.get? k = some ⟨ip, none⟩) :
    boundTo (slots.insert k ⟨ip, some sub⟩) sub' = boundTo slots sub' + if sub = sub' then 1 else 0 := by
  have := IndexMap.countP_insert_old (fun x => x.sub = some sub') (⟨ip, some sub⟩ : Slot) hk
  simpa [boundTo] using this

theorem fromIp_remove {slot : Slot} (ip : IpAddr) (hk : slots.get? k = some slot) :
    fromIp (slots.remove k) ip + (if slot.ip = ip then 1 else 0) = fromIp slots ip := by
  simpa [fromIp] using IndexMap.countP_remove (fun x : Slot => x.ip = ip) hk

theorem boundTo_remove {slot : Slot} (sub : String) (hk : slots.get? k = some slot) :
    boundTo (slots.remove k) sub + (if slot.sub = some sub then 1 else 0) = boundTo slots sub := by
  simpa [boundTo] using IndexMap.countP_remove (fun x : Slot => x.sub = some sub) hk

theorem fromIp_pos {ip : IpAddr} : 0 < fromIp slots ip ↔ ∃ k slot, slots.get? k = some slot ∧ slot.ip = ip := by
  simp only [fromIp, List.countP_pos_iff, decide_eq_true_eq, IndexMap.mem_values]
  constructor
  · rintro ⟨slot, ⟨k, hk⟩, h⟩
    exact ⟨k, slot, hk, h⟩
  · rintro ⟨k, slot, hk, h⟩
    exact ⟨slot, ⟨k, hk⟩, h⟩

theorem boundTo_pos {sub : String} : 0 < boundTo slots sub ↔ ∃ k slot, slots.get? k = some slot ∧ slot.sub = some sub := by
  simp only [boundTo, List.countP_pos_iff, decide_eq_true_eq, IndexMap.mem_values]
  constructor
  · rintro ⟨slot, ⟨k, hk⟩, h⟩
    exact ⟨k, slot, hk, h⟩
  · rintro ⟨k, slot, hk, h⟩
    exact ⟨slot, ⟨k, hk⟩, h⟩

end Counts

/-! ## The invariant -/

structure Inv (L : Limits) (s : St) : Prop where
  global : s.inner.global = s.slots.size
  globalMax : s.inner.global ≤ L.globalMax
  ips : ∀ ip, s.inner.ips.get? ip = if fromIp s.slots ip = 0 then none else some (fromIp s.slots ip)
  ipMax : ∀ ip, fromIp s.slots ip ≤ L.perIpConcurrency
  subs : ∀ sub, (entryOf s.inner.subs sub).concurrent = boundTo s.slots sub
  subMax : ∀ sub, boundTo s.slots sub ≤ L.perSubConcurrency
  fresh : ∀ k, s.nextSlot ≤ k → s.slots.get? k = none

theorem inv_init (L : Limits) : Inv L init where
  global := rfl
  globalMax := Nat.zero_le _
  ips _ := rfl
  ipMax _ := Nat.zero_le _
  subs _ := rfl
  subMax _ := Nat.zero_le _
  fresh _ _ := rfl

/-! ## Steps that leave the counters alone -/

/-- the counters, the live slots and their bindings are the same -/
structure Untouched (s t : St) : Prop where
  global : t.inner.global = s.inner.global
  ips : t.inner.ips = s.inner.ips
  concurrent : ∀ sub, (entryOf t.inner.subs sub).concurrent = (entryOf s.inner.subs sub).concurrent
  slots : t.slots = s.slots
  nextSlot : t.nextSlot = s.nextSlot

theorem Untouched.refl (s : St) : Untouched s s := ⟨rfl, rfl, fun _ => rfl, rfl, rfl⟩

theorem Untouched.inv {L : Limits} {s t : St} (hu : Untouched s t) (h : Inv L s) : Inv L t where
  global := by rw [hu.global, hu.slots]; exact h.global
  globalMax := by rw [hu.global]; exact h.globalMax
  ips ip := by rw [hu.ips, hu.slots]; exact h.ips ip
  ipMax ip := by rw [hu.slots]; exact h.ipMax ip
  subs sub := by rw [hu.concurrent, hu.slots]; exact h.subs sub
  subMax sub := by rw [hu.slots]; exact h.subMax sub
  fresh k hk := by rw [hu.slots]; exact h.fresh k (hu.nextSlot ▸ hk)

/-- an entry written back with the same `concurrent` -/
theorem insert_concurrent {subs : IndexMap String SubEntry} {sub : String} {e e' : SubEntry}
    (h : subs.get? sub = some e) (hc : e'.concurrent = e.concurrent) (sub' : String) :
    (entryOf (subs.insert sub e') sub').concurrent = (entryOf subs sub').concurrent := by
  rw [entryOf_insert]
  split_ifs with hs
  · subst hs; rw [entryOf_some h, hc]
  · rfl

theorem charge_untouched (L : Limits) (s : St) (k : ℕ) (now : ℤ) (bytes : ℕ) :
    Untouched s (step L s (.charge k now bytes)) := by
  simp only [step]
  cases hk : s.slots.get? k with
  | none => exact Untouched.refl s
  | some slot =>
    obtain ⟨h1, h2, h3⟩ : (charge L s.inner slot now bytes).2.global = s.inner.global ∧
        (charge L s.inner slot now bytes).2.ips = s.inner.ips ∧ ∀ sub,
          (entryOf (charge L s.inner slot now bytes).2.subs sub).concurrent =
            (entryOf s.inner.subs sub).concurrent := by
      rcases charge_inner L s.inner slot now bytes with h | ⟨sub, e, -, he, h⟩
      · rw [h]; exact ⟨rfl, rfl, fun _ => rfl⟩
      · rw [h]; exact ⟨rfl, rfl, insert_concurrent he (by simp)⟩
    dsimp only [stepCharge]
    split
    · rename_i hc _; rw [hc] at h1 h2 h3; exact ⟨h1, h2, h3, rfl, rfl⟩
    · rename_i hc _; rw [hc] at h1 h2 h3; exact ⟨h1, h2, h3, rfl, rfl⟩

theorem usedToday_untouched (L : Limits) (s : St) (k : ℕ) (now : ℤ) : Untouched s (step L s (.usedToday k now)) := by
  simp only [step]
  cases hk : s.slots.get? k with
  | none => exact Untouched.refl s
  | some slot =>
    dsimp only
    rcases usedToday_inner s.inner slot now with h | ⟨sub, e, -, he, h⟩
    · rw [h]; exact Untouched.refl s
    · rw [h]; exact ⟨rfl, rfl, insert_concurrent he (by simp), rfl, rfl⟩

theorem prune_untouched (L : Limits) (s : St) (now : ℤ) : Untouched s (step L s (.prune now)) :=
  ⟨rfl, rfl, prune_concurrent s.inner now, rfl, rfl⟩

/-- a refused `accept` leaves no trace -/
theorem accept_refused (L : Limits) (s : St) (ip : IpAddr) {r : Reject} (h : (accept L s.inner ip).1 = .error r) :
    step L s (.accept ip) = s := by
  simp only [step]
  unfold accept at h ⊢
  split_ifs at h ⊢
  · rfl
  · rfl

/-- a refused `attach_sub` leaves the counters and the binding alone -/
theorem attachSub_refused (L : Limits) (s : St) (k : ℕ) (slot : Slot) (sub : String) (now : ℤ)
    (hk : s.slots.get? k = some slot) {r : Reject} (h : (attachSub L s.inner slot sub now).1 = .error r) :
    Untouched s (stepAttach L s k slot sub now) ∧ (attachSub L s.inner slot sub now).2.1 = slot := by
  rcases attachSub_spec L s.inner slot sub now with ⟨r', e, e', ha, he, -, hc, -⟩ | ⟨e', ha, -⟩
  · simp only [stepAttach, ha]
    exact ⟨⟨rfl, rfl, insert_concurrent he hc, IndexMap.insert_get? hk, rfl⟩, trivial⟩
  · rw [ha] at h; cases h

/-! ## Every step keeps the accounting -/

theorem accept_inv (L : Limits) (s : St) (ip : IpAddr) (h : Inv L s) : Inv L (step L s (.accept ip)) := by
  have hget : (s.inner.ips.get? ip).getD 0 = fromIp s.slots ip := by
    rw [h.ips]; split_ifs with h0
    · simp [h0]
    · rfl
  have hnew : s.slots.get? s.nextSlot = none := h.fresh _ le_rfl
  simp only [step]
  unfold accept
  rw [hget]
  split_ifs with h1 h2
  · exact h
  · exact h
  · refine ⟨?_, ?_, ?_, ?_, ?_, ?_, ?_⟩
    · dsimp only; rw [IndexMap.size_insert_new _ hnew, h.global]
    · dsimp only; omega
    · intro ip'
      simp only [IndexMap.get?_insert, fromIp_new ip ip' hnew]
      by_cases hip : ip = ip'
      · subst hip; simp
      · simpa only [hip, if_false, add_zero] using h.ips ip'
    · intro ip'
      simp only [fromIp_new ip ip' hnew]
      by_cases hip : ip = ip'
      · subst hip; simp only [if_true]; omega
      · simpa only [hip, if_false, add_zero] using h.ipMax ip'
    · intro sub
      simpa only [boundTo_new ip sub hnew] using h.subs sub
    · intro sub
      simpa only [boundTo_new ip sub hnew] using h.subMax sub
    · intro k hk
      have hne : s.nextSlot ≠ k := by dsimp only at hk; omega
      simpa only [IndexMap.get?_insert_ne s.slots _ hne] using h.fresh k (by dsimp only at hk; omega)

theorem stepAttach_inv (L : Limits) (hL : L.Positive) (s : St) (k : ℕ) (ip : IpAddr) (sub : String) (now : ℤ)
    (hk : s.slots.get? k = some ⟨ip, none⟩) (h : Inv L s) : Inv L (stepAttach L s k ⟨ip, none⟩ sub now) := by
  rcases attachSub_spec L s.inner ⟨ip, none⟩ sub now with ⟨r, e, e', ha, -⟩ | ⟨e, ha, hroom, hc, -⟩
  · exact (attachSub_refused L s k _ sub now hk (r := r) (by rw [ha])).1.inv h
  · simp only [stepAttach, ha]
    refine ⟨?_, h.globalMax, ?_, ?_, ?_, ?_, ?_⟩
    · dsimp only; rw [IndexMap.size_insert_old _ hk]; exact h.global
    · intro ip'
      simpa only [fromIp_bind ip ip' sub hk] using h.ips ip'
    · intro ip'
      simpa only [fromIp_bind ip ip' sub hk] using h.ipMax ip'
    · intro sub'
      simp only [entryOf_insert, boundTo_bind ip sub sub' hk]
      split_ifs with hsub
      · subst hsub; rw [hc, h.subs]
      · exact h.subs sub'
    · intro sub'
      simp only [boundTo_bind ip sub sub' hk]
      split_ifs with hsub
      · subst hsub
        rcases hroom with hnone | ⟨hlt, -⟩
        · have hzero : boundTo s.slots sub = 0 := by rw [← h.subs, entryOf_none hnone]; rfl
          have := hL.perSubConcurrency
          omega
        · rw [h.subs] at hlt; omega
      · exact h.subMax sub'
    · intro j hj
      have hne : k ≠ j := by
        rintro rfl
        rw [h.fresh k hj] at hk; cases hk
      simpa only [IndexMap.get?_insert_ne s.slots _ hne] using h.fresh j hj

/-- the counter of an address after a drop, when it was the number `c` of its slots -/
theorem dropIp_get? (ips : IndexMap IpAddr ℕ) (ip ip' : IpAddr) (c : ℕ)
    (h : ips.get? ip' = if c = 0 then none else some c) (hc : ip = ip' → 0 < c) :
    (dropIp ips ip).get? ip' =
      if c - (if ip = ip' then 1 else 0) = 0 then none else some (c - if ip = ip' then 1 else 0) := by
  unfold dropIp
  by_cases hip : ip = ip'
  · subst hip
    have hc := hc rfl
    rw [if_neg (by omega)] at h
    simp only [h, ↓reduceIte]
    split_ifs <;> simp
  · cases hget : ips.get? ip with
    | none => simpa [hip] using h
    | some n => dsimp only; split_ifs <;> simp_all [IndexMap.get?_insert, IndexMap.get?_remove]

theorem drop_inv (L : Limits) (s : St) (k : ℕ) (h : Inv L s) : Inv L (step L s (.drop k)) := by
  simp only [step]
  cases hk : s.slots.get? k with
  | none => exact h
  | some slot =>
    have hip : ∀ ip, fromIp (s.slots.remove k) ip = fromIp s.slots ip - if slot.ip = ip then 1 else 0 := fun ip => by
      have := fromIp_remove ip hk; omega
    have hsub : ∀ sub, boundTo (s.slots.remove k) sub = boundTo s.slots sub - if slot.sub = some sub then 1 else 0 :=
      fun sub => by have := boundTo_remove sub hk; omega
    refine ⟨?_, ?_, ?_, ?_, ?_, ?_, ?_⟩
    · have h1 := IndexMap.size_remove hk
      have h2 := h.global
      simp only [dropSlot]; omega
    · have := h.globalMax
      simp only [dropSlot]; omega
    · intro ip
      simp only [dropSlot, hip]
      exact dropIp_get? _ _ _ _ (h.ips ip) fun he => fromIp_pos.2 ⟨k, slot, hk, he⟩
    · intro ip
      have := h.ipMax ip
      simp only [hip]; omega
    · intro sub
      simp only [hsub, dropSlot]
      cases hs : slot.sub with
      | none => simpa using h.subs sub
      | some sub' => simpa only [Option.some.injEq, h.subs] using (entryOf_dropSub s.inner.subs sub' sub).1
    · intro sub
      have := h.subMax sub
      simp only [hsub]; omega
    · intro j hj
      dsimp only
      rw [IndexMap.get?_remove]
      split_ifs
      · rfl
      · exact h.fresh j hj

theorem step_inv (L : Limits) (hL : L.Positive) (s : St) (o : Op) (h : Inv L s) : Inv L (step L s o) := by
  cases o with
  | accept ip => exact accept_inv L s ip h
  | attachSub k sub now =>
    simp only [step]
    split
    · rename_i ip hk
      exact stepAttach_inv L hL s k ip sub now hk h
    · exact h
  | charge k now bytes => exact (charge_untouched L s k now bytes).inv h
  | usedToday k now => exact (usedToday_untouched L s k now).inv h
  | prune now => exact (prune_untouched L s now).inv h
  | drop k => exact drop_inv L s k h

theorem run_inv (L : Limits) (hL : L.Positive) (ops : List Op) : Inv L (run (step L) init ops) :=
  run_preserves (step L) (fun s o => step_inv L hL s o) ops (inv_init L)

/-! ## Main result -/

/-- the accounting, read off the maps: every counter is the number of live slots it stands for and within its cap -/
structure Accounted (L : Limits) (s : St) : Prop where
  global : s.inner.global = s.slots.size ∧ s.inner.global ≤ L.globalMax
  ips_entry : ∀ ip, (∃ n, s.inner.ips.get? ip = some n) ↔ ∃ k slot, s.slots.get? k = some slot ∧ slot.ip = ip
  ips_value : ∀ ip n, s.inner.ips.get? ip = some n → n = fromIp s.slots ip ∧ n ≤ L.perIpConcurrency
  subs_value : ∀ sub, boundTo s.slots sub = ((s.inner.subs.get? sub).map SubEntry.concurrent).getD 0 ∧
    boundTo s.slots sub ≤ L.perSubConcurrency
  subs_entry : ∀ k slot sub, s.slots.get? k = some slot → slot.sub = some sub → ∃ e, s.inner.subs.get? sub = some e

/-- each subtraction a `Drop` of a live slot makes starts from at least one -/
structure NothingSaturates (s : St) (slot : Slot) : Prop where
  global : 1 ≤ s.inner.global
  ip : ∃ n, s.inner.ips.get? slot.ip = some n ∧ 1 ≤ n
  sub : ∀ sub, slot.sub = some sub → ∃ e, s.inner.subs.get? sub = some e ∧ 1 ≤ e.concurrent

theorem concurrent_eq (subs : IndexMap String SubEntry) (sub : String) :
    ((subs.get? sub).map SubEntry.concurrent).getD 0 = (entryOf subs sub).concurrent := by
  cases h : subs.get? sub <;> simp [entryOf, h, SubEntry.default]

theorem Inv.bound_entry {L : Limits} {s : St} (h : Inv L s) {k : ℕ} {slot : Slot} {sub : String}
    (hk : s.slots.get? k = some slot) (hs : slot.sub = some sub) :
    ∃ e, s.inner.subs.get? sub = some e ∧ 1 ≤ e.concurrent := by
  have hpos : 0 < boundTo s.slots sub := boundTo_pos.2 ⟨k, slot, hk, hs⟩
  rw [← h.subs] at hpos
  cases he : s.inner.subs.get? sub with
  | none => simp [entryOf_none he, SubEntry.default] at hpos
  | some e => exact ⟨e, rfl, by rwa [entryOf_some he] at hpos⟩

theorem Inv.accounted {L : Limits} {s : St} (h : Inv L s) : Accounted L s where
  global := ⟨h.global, h.globalMax⟩
  ips_entry ip := by
    rw [← fromIp_pos, h.ips]
    split_ifs with h0
    · simp [h0]
    · simpa using Nat.pos_of_ne_zero h0
  ips_value ip n hn := by
    rw [h.ips] at hn
    split_ifs at hn
    cases hn
    exact ⟨rfl, h.ipMax ip⟩
  subs_value sub := ⟨by rw [concurrent_eq, h.subs], h.subMax sub⟩
  subs_entry _ _ _ hk hs := (h.bound_entry hk hs).imp fun _ he => he.1

theorem Inv.nothing_saturates {L : Limits} {s : St} (h : Inv L s) {k : ℕ} {slot : Slot}
    (hk : s.slots.get? k = some slot) : NothingSaturates s slot where
  global := by have := IndexMap.size_remove hk; have := h.global; omega
  ip := by
    have hpos : 0 < fromIp s.slots slot.ip := fromIp_pos.2 ⟨k, slot, hk, rfl⟩
    exact ⟨fromIp s.slots slot.ip, by rw [h.ips, if_neg (by omega)], hpos⟩
  sub _ hs := h.bound_entry hk hs

/-- **Reservation accounting.** With positive caps, after any run: every counter is the number of live slots it stands
for and within its cap, no subtraction of a `Drop` saturates, and a refused `accept` or `attach_sub` changes neither
the counters nor the binding of the slot. -/
theorem reservations_accounted (L : Limits) (hL : L.Positive) (ops : List Op) :
    let s := run (step L) init ops
    Accounted L s ∧ (∀ k slot, s.slots.get? k = some slot → NothingSaturates s slot) ∧
      (∀ ip r, (accept L s.inner ip).1 = .error r → Untouched s (step L s (.accept ip))) ∧
      ∀ k ip sub now r, s.slots.get? k = some ⟨ip, none⟩ → (attachSub L s.inner ⟨ip, none⟩ sub now).1 = .error r →
        Untouched s (step L s (.attachSub k sub now)) ∧ (attachSub L s.inner ⟨ip, none⟩ sub now).2.1 = ⟨ip, none⟩ := by
  intro s
  have h : Inv L s := run_inv L hL ops
  refine ⟨h.accounted, fun k slot hk => h.nothing_saturates hk, ?_, ?_⟩
  · intro ip r hr
    rw [accept_refused L s ip hr]; exact Untouched.refl s
  · intro k ip sub now r hk hr
    obtain ⟨h1, h2⟩ := attachSub_refused L s k ⟨ip, none⟩ sub now hk hr
    exact ⟨by simpa only [step, hk] using h1, h2⟩

/-- one slot for each address and for each sub, ten in all -/
def oneEach : Limits := ⟨1, 30, 1000, 1, 10, by decide⟩

theorem reservations_accounted_example :
    let s := run (step oneEach) init [.accept (.v4 #v[198, 51, 100, 1]), .attachSub 0 "s" 7]
    Accounted oneEach s ∧ (∀ k slot, s.slots.get? k = some slot → NothingSaturates s slot) ∧
      (∀ ip r, (accept oneEach s.inner ip).1 = .error r → Untouched s (step oneEach s (.accept ip))) ∧
      ∀ k ip sub now r, s.slots.get? k = some ⟨ip, none⟩ →
        (attachSub oneEach s.inner ⟨ip, none⟩ sub now).1 = .error r →
        Untouched s (step oneEach s (.attachSub k sub now)) ∧
          (attachSub oneEach s.inner ⟨ip, none⟩ sub now).2.1 = ⟨ip, none⟩ :=
  reservations_accounted oneEach ⟨by decide, by decide, by decide, by decide, by decide⟩
    [.accept (.v4 #v[198, 51, 100, 1]), .attachSub 0 "s" 7]

end EspectralClient.LimitsAccounting
