/-
One mutex for each destination of a download (`native/engine/src/download.rs`, `dest_lock`, `release_dest_lock`,
`download_file`). A call looks its mutex up in `dest_locks` (or makes it), awaits it, downloads, lets the guard go, and
removes the entry when the reference count says that only the map and itself still hold the mutex. The count is read
under the lock of the map; the handle itself is dropped after that lock is let go.

- `step`: any number of calls, any interleaving of their sections, with a call cancelled at any await point. A handle on
  a mutex is an `Arc`, so `strongCount` counts the map's entry and the calls that still hold theirs.
- `Inv`: a call that has not given its mutex up holds the one in the map; two calls never hold one mutex.
- `mutualExclusion`: no two calls download to one destination at a time.
- `covered_iff_alone`: an entry stays covered by a call that will look at it again exactly when no check of the count is
  misled by a call that has made its own check and not yet dropped its handle.
- `one_writer_per_destination`: mutual exclusion in every run, and the runs in which nothing is left behind, exactly.
- `entry_left_behind`: two calls, neither cancelled, that leave the entry in the map for good.
-/
import EspectralClient.Lib.Run
import EspectralClient.Lib.IndexMap

namespace EspectralClient.DestLock

open EspectralClient.Lib

/-! ## Model -/

variable {δ : Type} [DecidableEq δ]

inductive Phase where
  /-- `lock.lock().await` -/
  | waiting
  /-- holds the guard, inside `download_inner` for the primary or the mirror -/
  | running
  /-- let the guard go, about to check the count -/
  | finished
  /-- done with the mutex, its handle not dropped yet -/
  | leaving
deriving DecidableEq, Repr

structure Call (δ : Type) where
  dest : δ
  lock : ℕ
  phase : Phase
deriving DecidableEq, Repr

structure St (δ : Type) where
  destLocks : IndexMap δ ℕ
  calls : IndexMap ℕ (Call δ)
  /-- the mutexes made so far, as the destinations they were made for -/
  made : List δ
  /-- the destinations of the calls that were cancelled -/
  cancelled : List δ
deriving Repr

def init : St δ := ⟨.empty, .empty, [], []⟩

/-- `Arc::strong_count`: the handle of the map and those of the calls -/
def strongCount (s : St δ) (lock : ℕ) : ℕ :=
  s.destLocks.values.countP (· = lock) + s.calls.values.countP (·.lock = lock)

/-- `dest_lock`: the mutex of the map, or a new one -/
def destLock (s : St δ) (dest : δ) : ℕ × St δ :=
  match s.destLocks.get? dest with
  | some lock => (lock, s)
  | none => (s.made.length, { s with destLocks := s.destLocks.insert dest s.made.length, made := s.made ++ [dest] })

def setPhase (s : St δ) (t : ℕ) (c : Call δ) (phase : Phase) : St δ :=
  { s with calls := s.calls.insert t { c with phase := phase } }

/-- the locked section of `release_dest_lock` -/
def releaseDestLock (s : St δ) (c : Call δ) : St δ :=
  if strongCount s c.lock ≤ 2 then { s with destLocks := s.destLocks.remove c.dest } else s

/-- nobody holds the guard of the mutex -/
def Free (s : St δ) (lock : ℕ) : Prop := ∀ c ∈ s.calls.values, c.lock = lock → c.phase ≠ .running

instance (s : St δ) (lock : ℕ) : Decidable (Free s lock) := by unfold Free; infer_instance

inductive Op (δ : Type) where
  | call (t : ℕ) (dest : δ)
  | acquire (t : ℕ)
  | finish (t : ℕ)
  | release (t : ℕ)
  | drop (t : ℕ)
  /-- the future is dropped while it waits or downloads: its guard goes first, then its handle -/
  | cancel (t : ℕ)
deriving DecidableEq, Repr

def step (s : St δ) : Op δ → St δ
  | .call t dest =>
    match s.calls.get? t with
    | some _ => s
    | none =>
      let (lock, s) := destLock s dest
      { s with calls := s.calls.insert t ⟨dest, lock, .waiting⟩ }
  | .acquire t =>
    match s.calls.get? t with
    | some c => if c.phase = .waiting ∧ Free s c.lock then setPhase s t c .running else s
    | none => s
  | .finish t =>
    match s.calls.get? t with
    | some c => if c.phase = .running then setPhase s t c .finished else s
    | none => s
  | .release t =>
    match s.calls.get? t with
    | some c => if c.phase = .finished then setPhase (releaseDestLock s c) t c .leaving else s
    | none => s
  | .drop t =>
    match s.calls.get? t with
    | some c => if c.phase = .leaving then { s with calls := s.calls.remove t } else s
    | none => s
  | .cancel t =>
    match s.calls.get? t with
    | some c =>
      if c.phase = .waiting ∨ c.phase = .running then
        { setPhase s t c .leaving with cancelled := s.cancelled ++ [c.dest] }
      else s
    | none => s

/-- no two calls download to one destination -/
def MutualExclusion (s : St δ) : Prop :=
  ∀ t c t' c', s.calls.get? t = some c → s.calls.get? t' = some c' → c.phase = .running → c'.phase = .running →
    c.dest = c'.dest → t = t'

/-- a destination without a call, and none of whose calls was cancelled, has no entry -/
def CleanedUp (s : St δ) : Prop :=
  ∀ dest, (∀ t c, s.calls.get? t = some c → c.dest ≠ dest) → dest ∉ s.cancelled → s.destLocks.get? dest = none

/-! ## The invariant -/

structure Inv (s : St δ) : Prop where
  callMade : ∀ t c, s.calls.get? t = some c → s.made[c.lock]? = some c.dest
  entryMade : ∀ dest lock, s.destLocks.get? dest = some lock → s.made[lock]? = some dest
  /-- a call that has not given its mutex up holds the one in the map -/
  current : ∀ t c, s.calls.get? t = some c → c.phase ≠ .leaving → s.destLocks.get? c.dest = some c.lock
  /-- one guard for each mutex -/
  guard : ∀ t c t' c', s.calls.get? t = some c → s.calls.get? t' = some c' → c.phase = .running →
    c'.phase = .running → c.lock = c'.lock → t = t'

theorem inv_init : Inv (init : St δ) := by
  constructor <;> simp [init]

theorem Inv.mutualExclusion {s : St δ} (h : Inv s) : MutualExclusion s := by
  intro t c t' c' hc hc' hr hr' hdest
  have hl := h.current t c hc (by simp [hr])
  have hl' := h.current t' c' hc' (by simp [hr'])
  have hlock : c.lock = c'.lock := by
    rw [hdest, hl'] at hl
    exact (Option.some.inj hl).symm
  exact h.guard t c t' c' hc hc' hr hr' hlock

/-- the count is at most two exactly when no other call holds the mutex -/
theorem Inv.strongCount_le_two {s : St δ} (h : Inv s) {t : ℕ} {c : Call δ} (hc : s.calls.get? t = some c)
    (hm : s.destLocks.get? c.dest = some c.lock) :
    strongCount s c.lock ≤ 2 ↔ ∀ t' c', s.calls.get? t' = some c' → c'.lock = c.lock → t' = t := by
  have hmap : s.destLocks.values.countP (· = c.lock) = 1 := by
    rw [IndexMap.countP_eq_one_iff _ hm (by simp)]
    intro dest' lock' hm' hlock
    have h1 := h.entryMade dest' lock' hm'
    rw [of_decide_eq_true hlock, h.entryMade _ _ hm] at h1
    exact (Option.some.inj h1).symm
  have hpos : 0 < s.calls.values.countP (·.lock = c.lock) := by
    rw [List.countP_pos_iff]
    exact ⟨c, IndexMap.mem_values.2 ⟨t, hc⟩, by simp⟩
  have hone := IndexMap.countP_eq_one_iff (fun c' : Call δ => c'.lock = c.lock) hc (by simp)
  simp only [decide_eq_true_eq] at hone
  rw [← hone, strongCount, hmap]
  omega

omit [DecidableEq δ] in
@[simp] theorem setPhase_calls (s : St δ) (t : ℕ) (c : Call δ) (p : Phase) :
    (setPhase s t c p).calls = s.calls.insert t { c with phase := p } := rfl

omit [DecidableEq δ] in
@[simp] theorem setPhase_destLocks (s : St δ) (t : ℕ) (c : Call δ) (p : Phase) :
    (setPhase s t c p).destLocks = s.destLocks := rfl

omit [DecidableEq δ] in
theorem get?_setPhase {s : St δ} {t t' : ℕ} {c c' : Call δ} {p : Phase}
    (h : (setPhase s t c p).calls.get? t' = some c') :
    (t' = t ∧ c' = { c with phase := p }) ∨ (t' ≠ t ∧ s.calls.get? t' = some c') := by
  by_cases ht : t = t'
  · subst ht
    rw [setPhase_calls, IndexMap.get?_insert_self] at h
    exact .inl ⟨rfl, (Option.some.inj h).symm⟩
  · rw [setPhase_calls, IndexMap.get?_insert_ne _ _ ht] at h
    exact .inr ⟨Ne.symm ht, h⟩

theorem setPhase_inv {s : St δ} (h : Inv s) {t : ℕ} {c : Call δ} (hc : s.calls.get? t = some c) {p : Phase}
    (hp : p ≠ .leaving → c.phase ≠ .leaving) (hfree : p = .running → Free s c.lock) : Inv (setPhase s t c p) := by
  constructor
  · intro t' c' hc'
    rcases get?_setPhase hc' with ⟨rfl, rfl⟩ | ⟨-, hc'⟩
    · exact h.callMade t' c hc
    · exact h.callMade t' c' hc'
  · exact h.entryMade
  · intro t' c' hc' hl
    rcases get?_setPhase hc' with ⟨rfl, rfl⟩ | ⟨-, hc'⟩
    · exact h.current t' c hc (hp hl)
    · exact h.current t' c' hc' hl
  · intro t₁ c₁ t₂ c₂ h₁ h₂ hr₁ hr₂ hlock
    -- who already runs on the mutex keeps it from being taken
    have taken : ∀ t' c', s.calls.get? t' = some c' → c'.phase = .running → p = .running → c'.lock ≠ c.lock := by
      intro t' c' hc' hr' hrun hlock
      exact hfree hrun c' (IndexMap.mem_values.2 ⟨t', hc'⟩) hlock hr'
    rcases get?_setPhase h₁ with ⟨rfl, rfl⟩ | ⟨-, hold₁⟩ <;> rcases get?_setPhase h₂ with ⟨rfl, rfl⟩ | ⟨-, hold₂⟩
    · rfl
    · exact absurd hlock.symm (taken t₂ c₂ hold₂ hr₂ hr₁)
    · exact absurd hlock (taken t₁ c₁ hold₁ hr₁ hr₂)
    · exact h.guard t₁ c₁ t₂ c₂ hold₁ hold₂ hr₁ hr₂ hlock

theorem call_inv {s : St δ} (h : Inv s) {t : ℕ} (hnew : s.calls.get? t = none) (dest : δ) :
    Inv (step s (.call t dest)) := by
  have hinsert : ∀ {s' : St δ} {lock : ℕ}, Inv s' → s'.calls.get? t = none → s'.destLocks.get? dest = some lock →
      Inv { s' with calls := s'.calls.insert t ⟨dest, lock, .waiting⟩ } := by
    intro s' lock h' hn hm
    have old : ∀ {t' c'}, (s'.calls.insert t ⟨dest, lock, .waiting⟩).get? t' = some c' →
        c' = ⟨dest, lock, .waiting⟩ ∨ s'.calls.get? t' = some c' := by
      intro t' c' hc'
      rw [IndexMap.get?_insert] at hc'
      split_ifs at hc' with ht
      · exact .inl (Option.some.inj hc').symm
      · exact .inr hc'
    constructor
    · intro t' c' hc'
      rcases old hc' with rfl | hc'
      · exact h'.entryMade dest lock hm
      · exact h'.callMade t' c' hc'
    · exact h'.entryMade
    · intro t' c' hc' hl
      rcases old hc' with rfl | hc'
      · exact hm
      · exact h'.current t' c' hc' hl
    · intro t₁ c₁ t₂ c₂ h₁ h₂ hr₁ hr₂ hlock
      rcases old h₁ with rfl | h₁
      · cases hr₁
      · rcases old h₂ with rfl | h₂
        · cases hr₂
        · exact h'.guard t₁ c₁ t₂ c₂ h₁ h₂ hr₁ hr₂ hlock
  simp only [step, hnew, destLock]
  cases hm : s.destLocks.get? dest with
  | some lock => exact hinsert h hnew hm
  | none =>
    refine hinsert ?_ hnew (s.destLocks.get?_insert_self dest s.made.length)
    have keep : ∀ {lock : ℕ} {d : δ}, s.made[lock]? = some d → (s.made ++ [dest])[lock]? = some d := by
      intro lock d hd
      rw [List.getElem?_append_left (List.getElem?_eq_some_iff.1 hd).1, hd]
    constructor
    · intro t' c' hc'
      exact keep (h.callMade t' c' hc')
    · intro dest' lock hm'
      rw [IndexMap.get?_insert] at hm'
      split_ifs at hm' with hd
      · obtain rfl := Option.some.inj hm'
        simp [hd]
      · exact keep (h.entryMade dest' lock hm')
    · intro t' c' hc' hl
      have hcur := h.current t' c' hc' hl
      have hd : dest ≠ c'.dest := by
        rintro rfl
        rw [hm] at hcur
        cases hcur
      rw [IndexMap.get?_insert_ne _ _ hd, hcur]
    · exact h.guard

theorem release_inv {s : St δ} (h : Inv s) {t : ℕ} {c : Call δ} (hc : s.calls.get? t = some c)
    (hf : c.phase = .finished) : Inv (setPhase (releaseDestLock s c) t c .leaving) := by
  have hm : s.destLocks.get? c.dest = some c.lock := h.current t c hc (by simp [hf])
  unfold releaseDestLock
  split_ifs with hcount
  · have hsole := (h.strongCount_le_two hc hm).1 hcount
    have h' : Inv (setPhase s t c .leaving) := setPhase_inv h hc (by simp) (by simp)
    refine ⟨h'.callMade, ?_, ?_, h'.guard⟩
    · intro dest lock hm'
      simp only [setPhase_destLocks, IndexMap.get?_remove] at hm'
      split_ifs at hm' with hd
      exact h.entryMade dest lock hm'
    · intro t' c' hc' hl
      rcases get?_setPhase hc' with ⟨rfl, rfl⟩ | ⟨ht, hc'⟩
      · exact absurd rfl hl
      · -- another call on this destination would hold this mutex too
        have hcur := h.current t' c' hc' hl
        have hd : c.dest ≠ c'.dest := by
          intro hd
          rw [← hd, hm] at hcur
          exact ht (hsole t' c' hc' (Option.some.inj hcur).symm)
        simp only [setPhase_destLocks]
        rw [IndexMap.get?_remove_ne _ hd, hcur]
  · exact setPhase_inv h hc (by simp) (by simp)

theorem drop_inv {s : St δ} (h : Inv s) (t : ℕ) : Inv { s with calls := s.calls.remove t } := by
  have old : ∀ {t' c'}, (s.calls.remove t).get? t' = some c' → s.calls.get? t' = some c' := by
    intro t' c' hc'
    rw [IndexMap.get?_remove] at hc'
    split_ifs at hc'
    exact hc'
  constructor
  · intro t' c' hc'
    exact h.callMade t' c' (old hc')
  · exact h.entryMade
  · intro t' c' hc' hl
    exact h.current t' c' (old hc') hl
  · intro t₁ c₁ t₂ c₂ h₁ h₂
    exact h.guard t₁ c₁ t₂ c₂ (old h₁) (old h₂)

theorem step_inv (s : St δ) (o : Op δ) (h : Inv s) : Inv (step s o) := by
  cases o with
  | call t dest =>
    cases hnew : s.calls.get? t with
    | some c => simpa [step, hnew] using h
    | none => exact call_inv h hnew dest
  | acquire t =>
    simp only [step]
    split
    · rename_i c hc
      split_ifs with hw
      · exact setPhase_inv h hc (by simp [hw.1]) (fun _ => hw.2)
      · exact h
    · exact h
  | finish t =>
    simp only [step]
    split
    · rename_i c hc
      split_ifs with hr
      · exact setPhase_inv h hc (by simp [hr]) (by simp)
      · exact h
    · exact h
  | release t =>
    simp only [step]
    split
    · rename_i c hc
      split_ifs with hf
      · exact release_inv h hc hf
      · exact h
    · exact h
  | drop t =>
    simp only [step]
    split
    · split_ifs
      · exact drop_inv h t
      · exact h
    · exact h
  | cancel t =>
    simp only [step]
    split
    · rename_i c hc
      split_ifs
      · have h' : Inv (setPhase s t c .leaving) := setPhase_inv h hc (by simp) (by simp)
        exact ⟨h'.callMade, h'.entryMade, h'.current, h'.guard⟩
      · exact h
    · exact h

theorem run_inv (ops : List (Op δ)) : Inv (run step init ops) := run_preserves step step_inv ops inv_init

/-! ## Entries left behind -/

/-- an entry has a call that will still check the count, unless a call for its destination was cancelled -/
def Covered (s : St δ) : Prop :=
  ∀ dest lock, s.destLocks.get? dest = some lock → dest ∉ s.cancelled →
    ∃ t c, s.calls.get? t = some c ∧ c.dest = dest ∧ c.phase ≠ .leaving

/-- a check of the count is not the last one for its destination, or counts no handle that is about to be dropped -/
def Alone (s : St δ) : Op δ → Prop
  | .release t => ∀ c, s.calls.get? t = some c → c.phase = .finished → c.dest ∉ s.cancelled →
      (∃ t' c', t' ≠ t ∧ s.calls.get? t' = some c' ∧ c'.dest = c.dest ∧ c'.phase ≠ .leaving) ∨
        ∀ t' c', s.calls.get? t' = some c' → c'.lock = c.lock → c'.phase ≠ .leaving
  | _ => True

theorem Covered.cleanedUp {s : St δ} (h : Covered s) : CleanedUp s := by
  intro dest hnone hcan
  by_contra hm
  obtain ⟨lock, hm⟩ := Option.ne_none_iff_exists'.1 hm
  obtain ⟨t, c, hc, hd, -⟩ := h dest lock hm hcan
  exact hnone t c hc hd

theorem setPhase_covered {s : St δ} (h : Covered s) {t : ℕ} {c : Call δ} (hc : s.calls.get? t = some c) {p : Phase}
    (hp : p ≠ .leaving) : Covered (setPhase s t c p) := by
  intro dest lock hm hcan
  obtain ⟨t', c', hc', hd, hl⟩ := h dest lock hm hcan
  by_cases ht : t = t'
  · subst ht
    obtain rfl : c = c' := Option.some.inj (hc.symm.trans hc')
    exact ⟨t, _, s.calls.get?_insert_self t _, hd, hp⟩
  · exact ⟨t', c', by rw [setPhase_calls, IndexMap.get?_insert_ne _ _ ht, hc'], hd, hl⟩

theorem call_covered {s : St δ} (h : Covered s) {t : ℕ} (hnew : s.calls.get? t = none) (dest : δ) :
    Covered (step s (.call t dest)) := by
  intro dest' lock hm hcan
  by_cases hd : dest = dest'
  · refine ⟨t, ⟨dest, (destLock s dest).1, .waiting⟩, ?_, hd, by simp⟩
    simp [step, hnew]
  · -- the entry was there before
    have hold : s.destLocks.get? dest' = some lock ∧ dest' ∉ s.cancelled := by
      simp only [step, hnew, destLock] at hm hcan
      cases hdest : s.destLocks.get? dest with
      | some lock' => simpa [hdest] using And.intro hm hcan
      | none =>
        simp only [hdest, IndexMap.get?_insert_ne _ _ hd] at hm hcan
        exact ⟨hm, hcan⟩
    obtain ⟨t', c', hc', hd', hl⟩ := h dest' lock hold.1 hold.2
    have ht : t ≠ t' := by
      rintro rfl
      rw [hnew] at hc'
      cases hc'
    refine ⟨t', c', ?_, hd', hl⟩
    simp only [step, hnew, destLock]
    cases s.destLocks.get? dest <;> simpa [IndexMap.get?_insert_ne _ _ ht] using hc'

theorem drop_covered {s : St δ} (h : Covered s) (t : ℕ) : Covered (step s (.drop t)) := by
  simp only [step]
  split
  · rename_i c hc
    split_ifs with hl
    · intro dest lock hm hcan
      obtain ⟨t', c', hc', hd, hl'⟩ := h dest lock hm hcan
      have ht : t ≠ t' := by
        rintro rfl
        obtain rfl : c = c' := Option.some.inj (hc.symm.trans hc')
        exact hl' hl
      exact ⟨t', c', by rw [IndexMap.get?_remove_ne _ ht, hc'], hd, hl'⟩
    · exact h
  · exact h

theorem cancel_covered {s : St δ} (h : Covered s) (t : ℕ) : Covered (step s (.cancel t)) := by
  simp only [step]
  split
  · rename_i c hc
    split_ifs
    · intro dest lock hm hcan
      simp only [List.mem_append, List.mem_singleton, not_or] at hcan
      obtain ⟨t', c', hc', hd, hl⟩ := h dest lock hm hcan.1
      have ht : t ≠ t' := by
        rintro rfl
        obtain rfl : c = c' := Option.some.inj (hc.symm.trans hc')
        exact hcan.2 hd.symm
      exact ⟨t', c', by rw [setPhase_calls, IndexMap.get?_insert_ne _ _ ht, hc'], hd, hl⟩
    · exact h
  · exact h

@[simp] theorem releaseDestLock_calls (s : St δ) (c : Call δ) : (releaseDestLock s c).calls = s.calls := by
  unfold releaseDestLock
  split_ifs <;> rfl

@[simp] theorem releaseDestLock_cancelled (s : St δ) (c : Call δ) :
    (releaseDestLock s c).cancelled = s.cancelled := by
  unfold releaseDestLock
  split_ifs <;> rfl

theorem release_covered {s : St δ} (hi : Inv s) (h : Covered s) {t : ℕ} {c : Call δ} (hc : s.calls.get? t = some c)
    (hf : c.phase = .finished) :
    Covered (setPhase (releaseDestLock s c) t c .leaving) ↔ Alone s (.release t) := by
  have hm : s.destLocks.get? c.dest = some c.lock := hi.current t c hc (by simp [hf])
  have hcount := hi.strongCount_le_two hc hm
  constructor
  · intro h' c₀ hc₀ _ hcan
    obtain rfl : c = c₀ := Option.some.inj (hc.symm.trans hc₀)
    by_cases hle : strongCount s c.lock ≤ 2
    · right
      intro t' c' hc' hlock
      have ht := hcount.1 hle t' c' hc' hlock
      rw [ht, hc] at hc'
      rw [← Option.some.inj hc', hf]
      simp
    · left
      rw [releaseDestLock, if_neg hle] at h'
      obtain ⟨t', c', hc', hd, hl⟩ := h' c.dest c.lock hm hcan
      rcases get?_setPhase hc' with ⟨rfl, rfl⟩ | ⟨ht, hold⟩
      · exact absurd rfl hl
      · exact ⟨t', c', ht, hold, hd, hl⟩
  · intro halone dest lock hm' hcan
    -- a call that is not this one is as it was
    have other : ∀ t' c', t' ≠ t → s.calls.get? t' = some c' → c'.dest = dest → c'.phase ≠ .leaving →
        ∃ t₁ c₁, (setPhase (releaseDestLock s c) t c .leaving).calls.get? t₁ = some c₁ ∧ c₁.dest = dest ∧
          c₁.phase ≠ .leaving := by
      intro t' c' ht hc' hd hl
      refine ⟨t', c', ?_, hd, hl⟩
      rw [setPhase_calls, releaseDestLock_calls, IndexMap.get?_insert_ne _ _ (Ne.symm ht), hc']
    by_cases hd : c.dest = dest
    · subst hd
      by_cases hle : strongCount s c.lock ≤ 2
      · rw [setPhase_destLocks, releaseDestLock, if_pos hle, IndexMap.get?_remove_self] at hm'
        cases hm'
      · have hcan' : c.dest ∉ s.cancelled := by simpa [setPhase] using hcan
        rcases halone c hc hf hcan' with ⟨t', c', ht, hc', hd, hl⟩ | hnone
        · exact other t' c' ht hc' hd hl
        · -- the count is over two, so another call holds the mutex, and it is not on its way out
          rw [hcount] at hle
          push Not at hle
          obtain ⟨t', c', hc', hlock, ht⟩ := hle
          have hmade := hi.callMade t' c' hc'
          rw [hlock, hi.callMade t c hc] at hmade
          exact other t' c' ht hc' (Option.some.inj hmade).symm (hnone t' c' hc' hlock)
    · have hold : s.destLocks.get? dest = some lock := by
        unfold releaseDestLock at hm'
        split_ifs at hm' with hle
        · rwa [setPhase_destLocks, IndexMap.get?_remove_ne _ hd] at hm'
        · exact hm'
      obtain ⟨t', c', hc', hd', hl⟩ := h dest lock hold (by simpa [setPhase] using hcan)
      have ht : t' ≠ t := by
        rintro rfl
        rw [hc] at hc'
        rw [← Option.some.inj hc'] at hd'
        exact hd hd'
      exact other t' c' ht hc' hd' hl

/-- a step keeps every entry covered exactly when it is not a misled check -/
theorem covered_iff_alone {s : St δ} (hi : Inv s) (h : Covered s) (o : Op δ) : Covered (step s o) ↔ Alone s o := by
  cases o with
  | call t dest =>
    refine iff_of_true ?_ trivial
    cases hnew : s.calls.get? t with
    | some c => simpa [step, hnew] using h
    | none => exact call_covered h hnew dest
  | acquire t =>
    refine iff_of_true ?_ trivial
    simp only [step]
    split
    · rename_i c hc
      split_ifs
      · exact setPhase_covered h hc (by simp)
      · exact h
    · exact h
  | finish t =>
    refine iff_of_true ?_ trivial
    simp only [step]
    split
    · rename_i c hc
      split_ifs
      · exact setPhase_covered h hc (by simp)
      · exact h
    · exact h
  | release t =>
    simp only [step]
    split
    · rename_i c hc
      split_ifs with hf
      · exact release_covered hi h hc hf
      · refine iff_of_true h ?_
        intro c' hc' hf'
        rw [hc] at hc'
        exact absurd (Option.some.inj hc' ▸ hf') hf
    · rename_i hnone
      refine iff_of_true h ?_
      intro c hc
      rw [hnone] at hc
      cases hc
  | drop t => exact iff_of_true (drop_covered h t) trivial
  | cancel t => exact iff_of_true (cancel_covered h t) trivial

/-- what is left when finished calls drop their handles -/
theorem run_drop (s : St δ) (dropped : List ℕ) :
    (run step s (dropped.map .drop)).destLocks = s.destLocks ∧
      (run step s (dropped.map .drop)).cancelled = s.cancelled ∧
      ∀ t c, (run step s (dropped.map .drop)).calls.get? t = some c →
        s.calls.get? t = some c ∧ (t ∈ dropped → c.phase ≠ .leaving) := by
  induction dropped generalizing s with
  | nil => simp
  | cons t₀ dropped ih =>
    obtain ⟨hlocks, hcan, hcalls⟩ := ih (step s (.drop t₀))
    simp only [List.map_cons, run_cons]
    have hone : (step s (.drop t₀)).destLocks = s.destLocks ∧ (step s (.drop t₀)).cancelled = s.cancelled ∧
        ∀ t c, (step s (.drop t₀)).calls.get? t = some c →
          s.calls.get? t = some c ∧ (t = t₀ → c.phase ≠ .leaving) := by
      simp only [step]
      split
      · rename_i c₀ hc₀
        split_ifs with hl
        · refine ⟨rfl, rfl, ?_⟩
          intro t c hc
          rw [IndexMap.get?_remove] at hc
          split_ifs at hc with ht
          exact ⟨hc, fun h => absurd h.symm ht⟩
        · refine ⟨rfl, rfl, ?_⟩
          intro t c hc
          refine ⟨hc, ?_⟩
          rintro rfl
          rwa [← Option.some.inj (hc₀.symm.trans hc)]
      · rename_i hnone
        refine ⟨rfl, rfl, ?_⟩
        intro t c hc
        refine ⟨hc, ?_⟩
        rintro rfl
        rw [hnone] at hc
        cases hc
    refine ⟨hlocks.trans hone.1, hcan.trans hone.2.1, ?_⟩
    intro t c hc
    obtain ⟨hc', hl⟩ := hcalls t c hc
    obtain ⟨hs, hl'⟩ := hone.2.2 t c hc'
    refine ⟨hs, ?_⟩
    intro ht
    rcases List.mem_cons.1 ht with ht | ht
    · exact hl' ht
    · exact hl ht

/-- every entry is covered exactly when nothing is left behind once the finished calls have dropped their handles -/
theorem covered_iff_cleanedUp (s : St δ) :
    Covered s ↔ ∀ dropped : List ℕ, CleanedUp (run step s (dropped.map .drop)) := by
  constructor
  · intro h dropped
    have hdrop : ∀ s : St δ, Covered s → Covered (run step s (dropped.map .drop)) := by
      induction dropped with
      | nil => exact fun s h => h
      | cons t dropped ih => exact fun s h => ih (step s (.drop t)) (drop_covered h t)
    exact (hdrop s h).cleanedUp
  · intro h dest lock hm hcan
    obtain ⟨hlocks, hcancelled, hcalls⟩ := run_drop s s.calls.keys
    by_contra hnone
    push Not at hnone
    have hclean := h s.calls.keys dest
    rw [hlocks, hcancelled, hm] at hclean
    refine Option.some_ne_none _ (hclean ?_ hcan)
    intro t c hc hd
    obtain ⟨hs, hl⟩ := hcalls t c hc
    exact hl (IndexMap.mem_keys.2 ⟨c, hs⟩) (hnone t c hs hd)

theorem covered_init : Covered (init : St δ) := by
  intro dest lock hm
  simp [init] at hm

/-- **One writer per destination.** In every run no two calls download to one destination at a time. In every state of
a run, and after any finished calls dropped their handles there, no entry is left behind, exactly when each check of the
count in the run is alone. -/
theorem one_writer_per_destination (ops : List (Op δ)) :
    MutualExclusion (run step init ops) ∧
      ((∀ before, before <+: ops → ∀ dropped : List ℕ,
          CleanedUp (run step (run step init before) (dropped.map .drop))) ↔ Meets step Alone init ops) := by
  refine ⟨(run_inv ops).mutualExclusion, ?_⟩
  have hstep : ∀ (s : St δ) (o : Op δ), Inv s ∧ Covered s → ((Inv (step s o) ∧ Covered (step s o)) ↔ Alone s o) := by
    intro s o ⟨hi, h⟩
    rw [covered_iff_alone hi h o]
    exact and_iff_right (step_inv s o hi)
  rw [← safe_iff_meets step hstep ⟨inv_init, covered_init⟩]
  simp only [← covered_iff_cleanedUp, run_inv, true_and]

/-- two calls for one destination; both check the count before either drops its handle -/
def checkTwice : List (Op ℕ) :=
  [.call 0 7, .call 1 7, .acquire 0, .finish 0, .acquire 1, .finish 1, .release 0, .release 1, .drop 0, .drop 1]

/-- Each of two calls finds the handle the other has not dropped yet, so neither removes the entry. -/
theorem entry_left_behind :
    ¬ ∀ ops : List (Op ℕ), MutualExclusion (run step init ops) ∧ CleanedUp (run step init ops) := by
  intro h
  have hcalls : (run step init checkTwice).calls = .empty := by decide
  have hcan : 7 ∉ (run step init checkTwice).cancelled := by decide
  have hentry : (run step init checkTwice).destLocks.get? 7 = some 0 := by decide
  have hnone := (h checkTwice).2 7 (by simp [hcalls]) hcan
  rw [hentry] at hnone
  cases hnone

end EspectralClient.DestLock
