/-
The per-sub connection rate of the relay limits: at most `per_sub_rate_per_min` accepted `attach_sub` calls in any 60
seconds, whatever else runs in between.

- `successes`: the readings of the accepted calls for a sub, in order.
- `Inv`: the successes are an admission log of `SlidingWindow`, and the start times an entry holds answer for it, from
  the last reading on. `attach_sub` and `prune` filter the stored times, `Drop` and `prune` delete the entry, but only
  times that have left the window are ever forgotten.
- `rate_limited`: the bound on every window, and that the stored times are the successes of the last minute, no more
  and no less, so nothing frees a rate slot early and a refused call consumes none.
-/
import EspectralClient.Relay.Limits

namespace EspectralClient.LimitsRate

open EspectralClient.Lib EspectralClient.Lib.SlidingWindow EspectralClient.RelayLimits

/-- clock readings of the accepted `attach_sub` calls for a sub -/
def successes (s : St) (sub : String) : List ℤ := (s.attached.filter fun e => e.1 = sub).map Prod.snd

/-- the start times stored for a sub -/
def storedStarts (s : St) (sub : String) : List ℤ := (entryOf s.inner.subs sub).starts

/-- the clock reading of an operation that looks at the rate window -/
def windowReading : Op → Option ℤ
  | .attachSub _ _ now => some now
  | .prune now => some now
  | _ => none

structure Inv (L : Limits) (last : ℤ) (s : St) : Prop where
  admitted : ∀ sub, Admitted rateWindowS L.perSubRatePerMin (successes s sub)
  past : ∀ sub, ∀ x ∈ successes s sub, x ≤ last
  stored : ∀ sub n, last ≤ n → recent rateWindowS n (storedStarts s sub) = recent rateWindowS n (successes s sub)

theorem inv_init (L : Limits) (last : ℤ) : Inv L last init where
  admitted _ := .nil
  past _ _ h := by simp [successes, init] at h
  stored _ _ _ := rfl

/-- steps that accept nothing and only filter the stored times, with a reading not before the last one -/
theorem Inv.filtered {L : Limits} {last now : ℤ} {s t : St} (h : Inv L last s) (hnow : last ≤ now)
    (ha : t.attached = s.attached)
    (hs : ∀ sub, storedStarts t sub = storedStarts s sub ∨
      storedStarts t sub = recent rateWindowS now (storedStarts s sub)) : Inv L now t := by
  have hsucc : ∀ sub, successes t sub = successes s sub := fun sub => by simp only [successes, ha]
  refine ⟨?_, ?_, ?_⟩
  · intro sub
    rw [hsucc]; exact h.admitted sub
  · intro sub x hx
    rw [hsucc] at hx; exact (h.past sub x hx).trans hnow
  · intro sub n hn
    rw [hsucc, ← h.stored sub n (hnow.trans hn)]
    rcases hs sub with he | he
    · rw [he]
    · rw [he, recent_recent _ hn]

theorem insert_starts (subs : IndexMap String SubEntry) (sub sub' : String) (e : SubEntry) :
    (entryOf (subs.insert sub e) sub').starts = if sub = sub' then e.starts else (entryOf subs sub').starts := by
  rw [entryOf_insert]
  split_ifs <;> rfl

/-- an entry written back with the starts it had -/
theorem insert_same_starts {subs : IndexMap String SubEntry} {sub : String} {e e' : SubEntry}
    (h : subs.get? sub = some e) (he : e'.starts = e.starts) (sub' : String) :
    (entryOf (subs.insert sub e') sub').starts = (entryOf subs sub').starts := by
  rw [insert_starts]
  split_ifs with hs
  · subst hs; rw [he, entryOf_some h]
  · rfl

theorem accept_inv (L : Limits) (last : ℤ) (s : St) (ip : IpAddr) (h : Inv L last s) :
    Inv L last (step L s (.accept ip)) := by
  refine h.filtered le_rfl ?_ fun sub => Or.inl ?_
  · simp only [step]; split <;> rfl
  · simp only [step, storedStarts]
    unfold accept
    split_ifs <;> rfl

theorem charge_inv (L : Limits) (last : ℤ) (s : St) (k : ℕ) (now : ℤ) (bytes : ℕ) (h : Inv L last s) :
    Inv L last (step L s (.charge k now bytes)) := by
  simp only [step]
  cases hk : s.slots.get? k with
  | none => exact h
  | some slot =>
    have hsame : ∀ sub, (entryOf (charge L s.inner slot now bytes).2.subs sub).starts =
        (entryOf s.inner.subs sub).starts := fun sub => by
      rcases charge_inner L s.inner slot now bytes with hg | ⟨sub', e, -, he, hg⟩
      · rw [hg]
      · rw [hg]; exact insert_same_starts he (by simp) sub
    dsimp only [stepCharge]
    split
    · rename_i hc _; rw [hc] at hsame; exact h.filtered le_rfl rfl fun sub => Or.inl (hsame sub)
    · rename_i hc _; rw [hc] at hsame; exact h.filtered le_rfl rfl fun sub => Or.inl (hsame sub)

theorem usedToday_inv (L : Limits) (last : ℤ) (s : St) (k : ℕ) (now : ℤ) (h : Inv L last s) :
    Inv L last (step L s (.usedToday k now)) := by
  simp only [step]
  cases hk : s.slots.get? k with
  | none => exact h
  | some slot =>
    refine h.filtered le_rfl rfl fun sub => Or.inl ?_
    dsimp only [storedStarts]
    rcases usedToday_inner s.inner slot now with hg | ⟨sub', e, -, he, hg⟩
    · rw [hg]
    · rw [hg]; exact insert_same_starts he (by simp) sub

theorem drop_inv (L : Limits) (last : ℤ) (s : St) (k : ℕ) (h : Inv L last s) : Inv L last (step L s (.drop k)) := by
  simp only [step]
  cases hk : s.slots.get? k with
  | none => exact h
  | some slot =>
    refine h.filtered le_rfl rfl fun sub => Or.inl ?_
    dsimp only [storedStarts, dropSlot]
    cases slot.sub with
    | none => rfl
    | some sub' => exact (entryOf_dropSub s.inner.subs sub' sub).2.1

theorem prune_inv (L : Limits) (last now : ℤ) (s : St) (hnow : last ≤ now) (h : Inv L last s) :
    Inv L now (step L s (.prune now)) :=
  h.filtered hnow rfl fun sub => Or.inr (prune_starts s.inner now sub)

/-- a refused `attach_sub` accepts nothing and at most filters the stored times -/
theorem stepAttach_refused (L : Limits) (s : St) (k : ℕ) (slot : Slot) (sub : String) (now : ℤ) {r : Reject}
    (h : (attachSub L s.inner slot sub now).1 = .error r) :
    (stepAttach L s k slot sub now).attached = s.attached ∧
      ∀ sub', storedStarts (stepAttach L s k slot sub now) sub' = storedStarts s sub' ∨
        storedStarts (stepAttach L s k slot sub now) sub' = recent rateWindowS now (storedStarts s sub') := by
  rcases attachSub_spec L s.inner slot sub now with ⟨r', e, e', ha, he, -, -, hs⟩ | ⟨e', ha, -⟩
  · simp only [stepAttach, ha, storedStarts, insert_starts]
    refine ⟨trivial, ?_⟩
    intro sub'
    split_ifs with hsub
    · subst hsub; rwa [entryOf_some he]
    · exact Or.inl rfl
  · rw [ha] at h; cases h

theorem stepAttach_inv (L : Limits) (hL : 0 < L.perSubRatePerMin) (last now : ℤ) (s : St) (k : ℕ) (slot : Slot)
    (sub : String) (hnow : last ≤ now) (h : Inv L last s) : Inv L now (stepAttach L s k slot sub now) := by
  rcases attachSub_spec L s.inner slot sub now with ⟨r, e, e', ha, -⟩ | ⟨e, ha, hroom, -, hs⟩
  · obtain ⟨h1, h2⟩ := stepAttach_refused L s k slot sub now (r := r) (by rw [ha])
    exact h.filtered hnow h1 h2
  · -- accepted: the stored times less than a minute old are the successes less than a minute old
    have hrecent : recent rateWindowS now (storedStarts s sub) = recent rateWindowS now (successes s sub) :=
      h.stored sub now hnow
    have hlen : (recent rateWindowS now (successes s sub)).length < L.perSubRatePerMin := by
      rw [← hrecent]
      rcases hroom with hnone | ⟨-, hlt⟩
      · simpa [storedStarts, entryOf_none hnone, SubEntry.default] using hL
      · exact hlt
    have hsucc : ∀ sub', successes (stepAttach L s k slot sub now) sub' =
        successes s sub' ++ if sub = sub' then [now] else [] := fun sub' => by
      simp only [stepAttach, ha, successes, List.filter_append, List.map_append]
      split_ifs with hsub <;> simp [hsub]
    have hstored : ∀ sub', storedStarts (stepAttach L s k slot sub now) sub' =
        if sub = sub' then recent rateWindowS now (storedStarts s sub) ++ [now] else storedStarts s sub' := fun sub' => by
      simp only [stepAttach, ha, storedStarts, insert_starts, hs]
    refine ⟨?_, ?_, ?_⟩
    · intro sub'
      rw [hsucc]
      split_ifs with hsub
      · subst hsub
        exact (h.admitted sub).snoc (fun x hx => (h.past sub x hx).trans hnow) hlen
      · rw [List.append_nil]; exact h.admitted sub'
    · intro sub' x hx
      rw [hsucc] at hx
      rcases List.mem_append.1 hx with hx | hx
      · exact (h.past sub' x hx).trans hnow
      · split_ifs at hx
        · exact (List.mem_singleton.1 hx).le
        · cases hx
    · intro sub' n hn
      rw [hsucc, hstored]
      split_ifs with hsub
      · subst hsub
        rw [recent_append, recent_append, recent_recent _ hn, h.stored sub n (hnow.trans hn)]
      · rw [List.append_nil]; exact h.stored sub' n (hnow.trans hn)

/-- one step: the reading, if the operation looks at the window, becomes the last one -/
theorem step_inv (L : Limits) (hL : 0 < L.perSubRatePerMin) (last : ℤ) (s : St) (o : Op)
    (ho : ∀ now ∈ windowReading o, last ≤ now) (h : Inv L last s) :
    Inv L ((windowReading o).getD last) (step L s o) := by
  cases o with
  | accept ip => exact accept_inv L last s ip h
  | attachSub k sub now =>
    have hnow : last ≤ now := ho now rfl
    simp only [step]
    split
    · exact stepAttach_inv L hL last now s k _ sub hnow h
    · exact h.filtered hnow rfl fun _ => Or.inl rfl
  | charge k now bytes => exact charge_inv L last s k now bytes h
  | usedToday k now => exact usedToday_inv L last s k now h
  | prune now => exact prune_inv L last now s (ho now rfl) h
  | drop k => exact drop_inv L last s k h

/-- **Connection rate.** In a run whose successive `attach_sub` and `prune` calls see non-decreasing clock readings, no
window `(t - 60, t]` holds more than `per_sub_rate_per_min` accepted calls for a sub. The stored start times less than
a minute old are exactly the accepted ones, whatever was dropped, pruned, deleted and created again; and a refused
`attach_sub` adds no start time. -/
theorem rate_limited (L : Limits) (hL : 0 < L.perSubRatePerMin) (ops : List Op)
    (hclock : (ops.filterMap windowReading).Pairwise (· ≤ ·)) :
    let s := run (step L) init ops
    (∀ sub t, windowCount 60 t (successes s sub) ≤ L.perSubRatePerMin) ∧
      (∀ sub n, (∀ r ∈ ops.filterMap windowReading, r ≤ n) →
        recent 60 n (storedStarts s sub) = recent 60 n (successes s sub)) ∧
      ∀ k ip sub now r, s.slots.get? k = some ⟨ip, none⟩ → (attachSub L s.inner ⟨ip, none⟩ sub now).1 = .error r →
        (step L s (.attachSub k sub now)).attached = s.attached ∧
          ∀ sub', List.Sublist (storedStarts (step L s (.attachSub k sub now)) sub') (storedStarts s sub') := by
  intro s
  -- the induction starts from a reading no later than any of the run
  obtain ⟨first, hfirst⟩ : ∃ first : ℤ, ∀ r ∈ ops.filterMap windowReading, first ≤ r :=
    match ops.filterMap windowReading, hclock with
    | [], _ => ⟨0, by simp⟩
    | r :: l, hc => ⟨r, fun x hx => (List.mem_cons.1 hx).elim (fun e => e.ge) ((List.pairwise_cons.1 hc).1 x)⟩
  refine ⟨?_, ?_, ?_⟩
  · intro sub t
    obtain ⟨last, h, -⟩ := run_monotone (step L) windowReading (step_inv L hL) hfirst hclock (inv_init L first)
    exact (h.admitted sub).window_le t
  · intro sub n hn
    have hstart : ∀ r ∈ ops.filterMap windowReading, min first n ≤ r :=
      fun r hr => (min_le_left _ _).trans (hfirst r hr)
    obtain ⟨last, h, hl⟩ := run_monotone (step L) windowReading (step_inv L hL) hstart hclock (inv_init L _)
    refine h.stored sub n ?_
    rcases hl with rfl | hl
    · exact min_le_right _ _
    · exact hn last hl
  · intro k ip sub now r hk hr
    obtain ⟨h1, h2⟩ := stepAttach_refused L s k ⟨ip, none⟩ sub now hr
    simp only [step, hk]
    refine ⟨h1, ?_⟩
    intro sub'
    rcases h2 sub' with he | he
    · rw [he]
    · rw [he]; exact List.filter_sublist

/-- two connections a minute: the third call of the minute is refused although both slots were dropped and pruned -/
theorem rate_limited_example :
    let L : Limits := ⟨5, 2, 1000, 5, 5, by decide⟩
    let ip : IpAddr := .v4 #v[203, 0, 113, 7]
    let ops : List Op := [.accept ip, .attachSub 0 "s" 100, .drop 0, .accept ip, .attachSub 1 "s" 130, .drop 1,
      .prune 140, .accept ip, .attachSub 2 "s" 150]
    successes (run (step L) init ops) "s" = [100, 130] ∧
      windowCount 60 150 (successes (run (step L) init ops) "s") ≤ 2 :=
  ⟨by decide, (rate_limited ⟨5, 2, 1000, 5, 5, by decide⟩ (by decide)
    [.accept (.v4 #v[203, 0, 113, 7]), .attachSub 0 "s" 100, .drop 0, .accept (.v4 #v[203, 0, 113, 7]),
      .attachSub 1 "s" 130, .drop 1, .prune 140, .accept (.v4 #v[203, 0, 113, 7]), .attachSub 2 "s" 150]
    (by decide)).1 "s" 150⟩

end EspectralClient.LimitsRate
